import CodeAtlas.Analysis.Workbench
import CodeAtlas.Proofs.Text.Pattern
import Mathlib.Data.List.Forall2
import Mathlib.Data.Option.Defs

/-!
# Every class that is found has a name

No reader of source text gives an entry whose name is empty, whatever the text.  Python and Java have grammars, whose
declarations carry an `Identifier`; the other languages are read by patterns, whose first group is always filled.

* `Python.classes_named`, `Java.classes_named`, `CSharp.classes_named`, `TypeScript.classes_named`,
  `Cpp.classes_named`: one language each.
-/

namespace CodeAtlas

def Named (cs : List ClassEntry) : Prop := ∀ c ∈ cs, c.name ≠ ""

theorem Named.nil : Named [] := by simp [Named]

theorem Named.cons {c : ClassEntry} {cs : List ClassEntry} (h : c.name ≠ "") (hs : Named cs) : Named (c :: cs) :=
  List.forall_mem_cons.mpr ⟨h, hs⟩

theorem Named.append {cs ds : List ClassEntry} (h : Named cs) (h' : Named ds) : Named (cs ++ ds) :=
  List.forall_mem_append.mpr ⟨h, h'⟩

/-! ### Declarations one after the other -/

section ReadEach

open List Findings

variable {α κ : Type} {read? : α → Option (Findings → ClassEntry × Findings)}

/-- What is read off some declarations fits them one by one, if what is read off each does, whatever was found
before. -/
theorem forall₂_readEach {R : κ → ClassEntry → Prop} {key? : α → Option κ}
    (h : ∀ a, Option.Rel (fun k read => ∀ f, R k (read f).1) (key? a) (read? a)) (as : List α) (f : Findings) :
    Forall₂ R (as.filterMap key?) (readEach read? as f).1 := by
  induction as generalizing f with
  | nil => exact .nil
  | cons a as ih =>
    have ha := h a
    rw [readEach]
    cases hkey : key? a <;> cases hread : read? a <;> rw [hkey, hread] at ha <;> cases ha
    · rw [filterMap_cons_none hkey]
      exact ih f
    next hfits =>
      rw [filterMap_cons_some hkey]
      exact .cons (hfits f) (ih _)

theorem forall₂_readEach_all {R : κ → ClassEntry → Prop} {read : α → Findings → ClassEntry × Findings} {key : α → κ}
    (h : ∀ a f, R (key a) (read a f).1) (as : List α) (f : Findings) :
    Forall₂ R (as.map key) (readEach (some <| read ·) as f).1 := by
  rw [← filterMap_eq_map]
  exact forall₂_readEach (fun a => .some (h a)) as f

theorem names_readEach {read : α → Findings → ClassEntry × Findings} {name : α → String}
    (h : ∀ a f, (read a f).1.name = name a) (as : List α) (f : Findings) :
    (readEach (some <| read ·) as f).1.map (·.name) = as.map name := by
  have hnames := forall₂_readEach_all (R := fun n c => n = c.name) (fun a f => (h a f).symm) as f
  rw [← forall₂_map_right_iff, forall₂_eq_eq_eq] at hnames
  exact hnames.symm

theorem Named.readEach (h : ∀ a, ∀ read ∈ read? a, ∀ f, (read f).1.name ≠ "") (as : List α) (f : Findings) :
    Named (readEach read? as f).1 := by
  induction as generalizing f with
  | nil => exact .nil
  | cons a as ih =>
    rw [Findings.readEach]
    cases hread : read? a with
    | none => exact ih f
    | some read => exact .cons (h a read hread f) (ih _)

/-- Where no class is listed, there is no declaration, and nothing is found. -/
theorem readEach_of_no_classes {as : List α} {f : Findings} (h : (readEach read? as f).1 = []) :
    (readEach read? as f).2 = f := by
  induction as generalizing f with
  | nil => rfl
  | cons a as ih =>
    rw [readEach] at h ⊢
    cases hread : read? a with
    | none =>
      rw [hread] at h
      exact ih h
    | some read =>
      rw [hread] at h
      cases h

end ReadEach

/-! ### Languages with a grammar -/

namespace Python

theorem classesOf_named (package : String) (f : Findings) (ns : List Node) : Named (classesOf package f ns).1 := by
  refine .readEach (fun n read hread f => ?_) ns f
  cases n with
  | classDef name bases keywords body decorators =>
    cases hread
    exact name.text_ne
  | _ => cases hread

theorem classes_named (source package : String) (f : Findings) : Named (classes source package f).1 := by
  unfold classes
  split
  · exact .nil
  · exact classesOf_named _ _ _

end Python

namespace Java

theorem classes_named [Parser] (source package : String) (f : Findings) : Named (classes source package f).1 := by
  unfold classes
  split
  · exact .nil
  · refine .append (.readEach (fun v read hread f => ?_) _ _) (.readEach (fun v read hread f => ?_) _ _)
    all_goals
      obtain ⟨_, _, n⟩ := v
      cases n <;> cases hread
      exact Identifier.text_ne _

end Java

/-! ### Languages read by patterns -/

/-- Entries that are named by the first groups of the matches of a pattern have names, if that group is always kept and
always filled. -/
theorem Named.of_findAll {cs : List ClassEntry} {p : Pattern} {text : List Char} (hk : p.keeps 1)
    (hf : p.fills 1) (h : cs.map (·.name) = (p.findAll text).map (·.text 1)) : Named cs := by
  intro c hc
  obtain ⟨m, hm, hmc⟩ := List.mem_map.mp (h ▸ List.mem_map_of_mem hc : c.name ∈ (p.findAll text).map (·.text 1))
  rw [← hmc]
  exact Pattern.text_ne_empty hk hf hm

theorem Named.of_readEach {read : Pattern.Match → Findings → ClassEntry × Findings} {p : Pattern} (hk : p.keeps 1)
    (hf : p.fills 1) (h : ∀ m f, (read m f).1.name = m.text 1) (text : List Char) (f : Findings) :
    Named (Findings.readEach (some <| read ·) (p.findAll text) f).1 := .of_findAll hk hf (names_readEach h _ f)

namespace CSharp

theorem names_classEntries {package : String} {ms : List Pattern.Match} {f : Findings} {cs : List ClassEntry}
    (h : (classEntries package ms f).1 = some cs) : cs.map (·.name) = ms.map (·.text 1) := by
  induction ms generalizing f cs with
  | nil =>
    cases h
    rfl
  | cons m ms ih =>
    unfold classEntries at h
    simp only at h
    split at h
    · cases h
    · obtain ⟨ds, hds, rfl⟩ := Option.map_eq_some_iff.mp h
      exact congrArg (m.text 1 :: ·) (ih hds)

theorem classes_named (source package : String) (f : Findings) : Named (classes source package f).1 := by
  unfold classes
  simp only
  split
  · exact .nil
  next hentries =>
    refine .append (.of_findAll ?_ ?_ (names_classEntries (congrArg Prod.fst hentries)))
      (.of_readEach ?_ ?_ (fun _ _ => rfl) _ _)
    all_goals decide

end CSharp

theorem TypeScript.classes_named (source package : String) (f : Findings) : Named (classes source package f).1 := by
  refine .append (.of_readEach ?_ ?_ (fun _ _ => rfl) _ _) (.of_readEach ?_ ?_ (fun _ _ => rfl) _ _)
  all_goals decide

theorem Cpp.classes_named (source package : String) (f : Findings) : Named (classes source package f).1 := by
  refine .append (.of_readEach ?_ ?_ (fun _ _ => rfl) _ _) (.of_readEach ?_ ?_ (fun _ _ => rfl) _ _)
  all_goals decide

/-! ### Files -/

theorem Workbench.read_named [Java.Parser] (w : Workbench) (path : String) (source : Option String) (package : String) :
    Named (w.read path source package).1 := by
  unfold Workbench.read
  split
  next l s _ =>
    cases l with
    | python => exact Python.classes_named _ _ _
    | java => exact Java.classes_named _ _ _
    | csharp => exact CSharp.classes_named _ _ _
    | typescript => exact TypeScript.classes_named _ _ _
    | cpp => exact Cpp.classes_named _ _ _
  next => exact .nil

end CodeAtlas
