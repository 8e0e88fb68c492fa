import CodeAtlas.Proofs.Language.Locality

/-!
# What a source text adds to the findings

A Python text adds more when more classes are known: its classes are then also related to those known classes that their
methods name or call.  That is the only way in which a text depends on what was found before it.
-/

namespace CodeAtlas

open List

open Findings

namespace Python

def methodParts (body : List Node) : List Node := (body.filter fun s => (methodName? s).isSome).flatMap Node.walk

/-- A method of a class names another class or calls it. -/
def Refers (name : String) (body : List Node) (b : String) (k : RelationKind) : Prop :=
  b ≠ name ∧ ((k = .uses ∧ .name b ∈ methodParts body) ∨
    (k = .composition ∧ ∃ args keywords, .call (.name b) args keywords ∈ methodParts body))

/-- A class that is defined among some nodes refers to another class. -/
def RefersAmong (ns : List Node) (a b : String) (k : RelationKind) : Prop :=
  ∃ name bases keywords body decorators, .classDef name bases keywords body decorators ∈ ns ∧ name.text = a ∧
    Refers a body b k

/-- A class among some nodes is related to a known one to which it refers. -/
def Recalls (known : String → Prop) (ns : List Node) (x : Finding) : Prop :=
  ∃ a b k, RefersAmong ns a b k ∧ known b ∧ x = .observed ⟨a, b, k.name, some "heuristic"⟩

section

variable {counts : String → Bool} {ns : List Node} {b a : String} {x : Finding} {known : String → Prop}
  {k : RelationKind} (package : String) (f : Findings) (name : String) (bases body : List Node)

theorem mem_filterMap_named : b ∈ ns.filterMap (named? counts) ↔ counts b ∧ .name b ∈ ns := by
  rw [mem_filterMap]
  constructor
  · rintro ⟨n, hn, hb⟩
    unfold named? at hb
    grind
  · rintro ⟨hcounts, hb⟩
    exact ⟨_, hb, if_pos hcounts⟩

theorem mem_filterMap_called : b ∈ ns.filterMap (called? counts) ↔
      counts b ∧ ∃ args keywords, .call (.name b) args keywords ∈ ns := by
  rw [mem_filterMap]
  constructor
  · rintro ⟨n, hn, hb⟩
    unfold called? at hb
    grind
  · rintro ⟨hcounts, args, keywords, hb⟩
    exact ⟨_, hb, if_pos hcounts⟩

theorem has_classEntry_iff (x : Finding) : (classEntry package f name bases body).2.Has x ↔ f.Has x ∨
      (∃ b ∈ bases.filterMap baseName?, x = .declared ⟨b, name, "extends", some "heuristic"⟩) ∨
      ∃ b k, Refers name body b k ∧ f.Has (.cls b) ∧ x = .observed ⟨name, b, k.name, some "heuristic"⟩ := by
  let f₁ := (bases.filterMap baseName?).foldl (fun f b => f.addRelation b name "extends") f
  let counts := fun n => f₁.knows n && n != name
  have hf₁ : ∀ x, f₁.Has x ↔ f.Has x ∨
      ∃ b ∈ bases.filterMap baseName?, x = .declared ⟨b, name, "extends", some "heuristic"⟩ :=
    has_foldl (fun _ b _ => has_addRelation (a := b)) _ f
  have hcounts : ∀ b, counts b ↔ f.Has (.cls b) ∧ b ≠ name := by
    intro b
    have hknown : f₁.Has (.cls b) ↔ f.Has (.cls b) := by simp [hf₁]
    rw [← hknown]
    simp [counts, knows, Has]
  show (Has (List.foldl _ (List.foldl _ f₁ ((methodParts body).filterMap (named? counts)))
    (Text.ascendingSet ((methodParts body).filterMap (called? counts)))) x) ↔ _
  rw [has_foldl (fun _ b _ => has_addComposition (b := b)), has_foldl (fun _ b _ => has_addUsage (b := b)), hf₁,
    or_assoc, or_assoc]
  refine or_congr_right (or_congr_right ?_)
  simp only [Text.mem_ascendingSet, mem_filterMap_named, mem_filterMap_called, hcounts]
  constructor
  · rintro (⟨b, ⟨⟨hb, hne⟩, hmem⟩, rfl⟩ | ⟨b, ⟨⟨hb, hne⟩, hmem⟩, rfl⟩)
    · exact ⟨b, .uses, ⟨hne, .inl ⟨rfl, hmem⟩⟩, hb, rfl⟩
    · exact ⟨b, .composition, ⟨hne, .inr ⟨rfl, hmem⟩⟩, hb, rfl⟩
  · rintro ⟨b, k, ⟨hne, ⟨rfl, hmem⟩ | ⟨rfl, hmem⟩⟩, hb, rfl⟩
    · exact .inl ⟨b, ⟨⟨hb, hne⟩, hmem⟩, rfl⟩
    · exact .inr ⟨b, ⟨⟨hb, hne⟩, hmem⟩, rfl⟩

theorem recalls_or {known' : String → Prop} :
    Recalls (fun b => known b ∨ known' b) ns x ↔ Recalls known ns x ∨ Recalls known' ns x := by
  simp only [Recalls, or_and_right, and_or_left, exists_or]

theorem not_recalls : ¬ Recalls (fun _ => False) ns x := by
  rintro ⟨a, b, k, _, hb, _⟩
  exact hb

theorem refersAmong_iff (ns : List Node) : RefersAmong ns a b k ↔ ∃ n ∈ ns, RefersAmong [n] a b k := by
  constructor
  · rintro ⟨name, bases, keywords, body, decorators, hmem, h⟩
    exact ⟨_, hmem, name, bases, keywords, body, decorators, mem_singleton_self _, h⟩
  · rintro ⟨n, hn, name, bases, keywords, body, decorators, hmem, h⟩
    exact ⟨name, bases, keywords, body, decorators, mem_singleton.mp hmem ▸ hn, h⟩

theorem recalls_cons {n : Node} : Recalls known (n :: ns) x ↔ Recalls known [n] x ∨ Recalls known ns x := by
  simp only [Recalls, refersAmong_iff (n :: ns), refersAmong_iff ns, exists_mem_cons_iff, or_and_right, exists_or]

theorem recalls_classDef {name : Identifier} {bases keywords body decorators : List Node} :
    Recalls known [.classDef name bases keywords body decorators] x ↔
      ∃ b k, Refers name.text body b k ∧ known b ∧ x = .observed ⟨name.text, b, k.name, some "heuristic"⟩ := by
  simp [Recalls, RefersAmong]

def DefinesNone (n : Node) : Prop :=
  ∀ name bases keywords body decorators, n = .classDef name bases keywords body decorators → False

theorem definesNone_or (n : Node) : DefinesNone n ∨
    ∃ name bases keywords body decorators, n = .classDef name bases keywords body decorators := by
  by_cases hn : DefinesNone n
  · exact .inl hn
  · simp only [DefinesNone, not_forall, imp_false, not_not] at hn
    exact .inr hn

theorem not_recalls_of_definesNone {n : Node} (h : DefinesNone n) : ¬ Recalls known [n] x := by
  rintro ⟨a, b, k, ⟨name, bases, keywords, body, decorators, hmem, _⟩, _⟩
  exact h _ _ _ _ _ (mem_singleton.mp hmem).symm

theorem classesOf_cons_of_definesNone {n : Node} (h : DefinesNone n) (f : Findings) (ns : List Node) :
    classesOf package f (n :: ns) = classesOf package f ns := by
  rw [classesOf, readEach, classReader?.eq_2 package n h]
  rfl

theorem classesOf_classDef (f : Findings) (name : Identifier) (bases keywords body decorators ns : List Node) :
    classesOf package f (.classDef name bases keywords body decorators :: ns) =
      ((classEntry package f name.text bases body).1 ::
        (classesOf package ((classEntry package f name.text bases body).2.addClass name.text) ns).1,
        (classesOf package ((classEntry package f name.text bases body).2.addClass name.text) ns).2) := rfl

/-- **What the classes of a Python text add** to what was found: what they add where nothing was found, and the known
classes to which they refer. -/
theorem has_classesOf_iff (ns : List Node) (x : Finding) : (classesOf package f ns).2.Has x ↔
      f.Has x ∨ (classesOf package {} ns).2.Has x ∨ Recalls (fun b => f.Has (.cls b)) ns x := by
  induction ns generalizing f with
  | nil => simp [classesOf, readEach, not_has_empty, Recalls, RefersAmong]
  | cons n ns ih =>
    rw [recalls_cons]
    rcases definesNone_or n with hn | ⟨name, bases, keywords, body, decorators, rfl⟩
    · rw [or_iff_right (not_recalls_of_definesNone hn), classesOf_cons_of_definesNone package hn,
        classesOf_cons_of_definesNone package hn]
      exact ih f
    · have hknown : ∀ f, (fun b => ((classEntry package f name.text bases body).2.addClass name.text).Has (.cls b)) =
          fun b => f.Has (.cls b) ∨ b = name.text := by
        intro f
        funext b
        simp [has_addClass, has_classEntry_iff]
      -- the class itself becomes known to those after it, whatever was found
      rw [classesOf_classDef, classesOf_classDef, ih,
        ih ((classEntry package {} name.text bases body).2.addClass name.text),
        hknown, hknown, recalls_or, recalls_or, recalls_classDef]
      simp only [has_addClass, has_classEntry_iff, not_has_empty, not_recalls, false_and, and_false, exists_false,
        or_false, false_or]
      simp only [or_assoc, or_comm, or_left_comm]

theorem relations_classEntry : (classEntry package f name bases body).2.relations =
      f.relations ++ (baseClausesFor name .extends (bases.filterMap baseName?)).map BaseClause.toRelation := by
  unfold classEntry
  rw [(IsLocal.foldl fun n => .addComposition name n).relations_of_quiet,
    (IsLocal.foldl fun n => .addUsage name n).relations_of_quiet]
  exact (IsLocal.addBases name (.inl rfl) _).relations f

theorem relations_classesOf (ns : List Node) :
    (classesOf package f ns).2.relations = f.relations ++ (baseClauses ns).map BaseClause.toRelation := by
  induction ns generalizing f with
  | nil => exact (append_nil _).symm
  | cons n ns ih =>
    rcases definesNone_or n with hn | ⟨name, bases, keywords, body, decorators, rfl⟩
    · rw [classesOf_cons_of_definesNone package hn, ih, baseClauses, baseClauses, flatMap_cons]
      split
      next => exact (hn _ _ _ _ _ rfl).elim
      · rfl
    · rw [classesOf_classDef, ih, (IsLocal.addClass name.text).relations_of_quiet, relations_classEntry,
        append_assoc, ← map_append]
      rfl

theorem has_cls_classesOf_iff (ns : List Node) (b : String) :
    (classesOf package f ns).2.Has (.cls b) ↔ f.Has (.cls b) ∨ b ∈ (classesOf package f ns).1.map (·.name) := by
  induction ns generalizing f with
  | nil => simp [classesOf, readEach]
  | cons n ns ih =>
    rcases definesNone_or n with hn | ⟨name, bases, keywords, body, decorators, rfl⟩
    · rw [classesOf_cons_of_definesNone package hn]
      exact ih f
    · have hentry : (classEntry package f name.text bases body).2.Has (.cls b) ↔ f.Has (.cls b) := by
        rw [has_classEntry_iff]
        simp
      rw [classesOf_classDef, ih, has_addClass, hentry, Finding.cls.injEq, or_assoc, map_cons, mem_cons]
      rfl

theorem classesOf_regular (ns : List Node) (h : (classesOf package f ns).2.Has x) : f.Has x ∨ x.IsRegular := by
  induction ns generalizing f with
  | nil => exact .inl h
  | cons n ns ih =>
    rcases definesNone_or n with hn | ⟨name, bases, keywords, body, decorators, rfl⟩
    · rw [classesOf_cons_of_definesNone package hn] at h
      exact ih f h
    · rw [classesOf_classDef] at h
      rcases ih _ h with hx | hx
      · rw [has_addClass, has_classEntry_iff] at hx
        rcases hx with (hx | ⟨b, _, rfl⟩ | ⟨b, k, ⟨_, ⟨rfl, _⟩ | ⟨rfl, _⟩⟩, _, rfl⟩) | rfl
        · exact .inl hx
        · exact .inr (.inl rfl)
        · exact .inr (.inr rfl)
        · exact .inr (.inl rfl)
        · exact .inr trivial
      · exact .inr hx

theorem mem_names_of_refersAmong {package : String} {f : Findings}
    (h : RefersAmong ns a b k) : a ∈ (classesOf package f ns).1.map (·.name) := by
  obtain ⟨name, bases, keywords, body, decorators, hmem, rfl, _⟩ := h
  induction ns generalizing f with
  | nil => cases hmem
  | cons n ns ih =>
    rcases mem_cons.mp hmem with rfl | htail
    · exact mem_map.mpr ⟨_, mem_cons_self, rfl⟩
    · rcases definesNone_or n with hn | ⟨name', bases', keywords', body', decorators', rfl⟩
      · rw [classesOf_cons_of_definesNone package hn]
        exact ih htail
      · exact mem_cons_of_mem _ (ih htail)

def RefersIn (source a b : String) (k : RelationKind) : Prop :=
  ∃ tree, parse source = some tree ∧ RefersAmong tree.walk a b k

theorem RefersIn.isRegular {source : String} (h : RefersIn source a b k) :
    Finding.IsRegular (.observed ⟨a, b, k.name, some "heuristic"⟩) := by
  obtain ⟨tree, _, name, bases, keywords, body, decorators, _, _, _, ⟨rfl, _⟩ | ⟨rfl, _⟩⟩ := h
  · exact .inr rfl
  · exact .inl rfl

end

section

variable (source package : String)

/-- **What a Python text adds** to what was found: what it adds where nothing was found, and the relations to known
classes to which its classes refer. -/
theorem has_classes_iff (f : Findings) (x : Finding) : (classes source package f).2.Has x ↔
    f.Has x ∨ (classes source package {}).2.Has x ∨
      ∃ a b k, RefersIn source a b k ∧ f.Has (.cls b) ∧ x = .observed ⟨a, b, k.name, some "heuristic"⟩ := by
  unfold classes classesIn RefersIn
  cases parse source with
  | none => simp [not_has_empty]
  | some tree =>
    have himports : IsLocal [] fun f => (tree.walk.flatMap importsOf).foldl addImport f := .foldl fun n => .addImport n
    have hknown : ∀ f, (fun b => ((tree.walk.flatMap importsOf).foldl addImport f).Has (.cls b)) =
        fun b => f.Has (.cls b) := by
      intro f
      funext b
      rw [has_foldl fun _ n _ => has_addImport (n := n)]
      simp
    rw [has_classesOf_iff, has_classesOf_iff package ((tree.walk.flatMap importsOf).foldl addImport {}),
      himports.has_iff f, hknown, hknown]
    simp only [not_has_empty, not_recalls, or_false, Option.some.injEq, exists_eq_left', or_assoc]
    rfl

theorem relations_classes (f : Findings) : (classes source package f).2.relations = f.relations ++
    (((parse source).map fun tree => baseClauses tree.walk).getD []).map BaseClause.toRelation := by
  unfold classes
  cases parse source with
  | none => exact (append_nil _).symm
  | some tree =>
    refine (relations_classesOf package _ tree.walk).trans ?_
    rw [(IsLocal.foldl fun n => .addImport n).relations_of_quiet]
    rfl

theorem classes_regular {x : Finding} (h : (classes source package {}).2.Has x) : x.IsRegular := by
  unfold classes classesIn at h
  cases hparse : parse source with
  | none =>
    rw [hparse] at h
    exact absurd h (not_has_empty x)
  | some tree =>
    rw [hparse] at h
    rcases classesOf_regular package _ _ h with h | h
    · exact (IsLocal.foldl fun n => .addImport n).regular x h
    · exact h

theorem has_cls_classes_iff (b : String) :
    (classes source package {}).2.Has (.cls b) ↔ b ∈ (classes source package {}).1.map (·.name) := by
  unfold classes classesIn
  cases parse source with
  | none => simp [not_has_empty]
  | some tree =>
    rw [has_cls_classesOf_iff, has_foldl fun _ n _ => has_addImport (n := n)]
    simp [not_has_empty]

theorem mem_names_of_refersIn {a b : String} {k : RelationKind} (h : RefersIn source a b k) :
    a ∈ (classes source package {}).1.map (·.name) := by
  obtain ⟨tree, hparse, hrefers⟩ := h
  unfold classes classesIn
  rw [hparse]
  exact mem_names_of_refersAmong hrefers

variable {source package}

theorem not_has_of_no_classes (h : (classes source package {}).1 = []) {x : Finding} (hx : x.IsRelation) :
    ¬ (classes source package {}).2.Has x := by
  unfold classes classesIn at h ⊢
  revert h
  cases parse source with
  | none => exact fun _ => not_has_empty x
  | some tree =>
    intro h
    dsimp only [classesOf] at h ⊢
    rw [readEach_of_no_classes h]
    exact not_has_of_imports (fun _ n _ => has_addImport (n := n)) _ hx (not_has_empty x)

end

end Python

/-! ### All languages -/

namespace Workbench

section

variable [Java.Parser] (l : Language) (source package : String)

theorem exists_isClassReader {l : Language} (hl : l ≠ .python) (source package : String) :
    ∃ cs, IsClassReader cs id (classesOf l source package) ∧
      ((classesOf l source package {}).1 ≠ [] → cs = baseClauses l source) := by
  cases l with
  | python => exact absurd rfl hl
  | java => exact ⟨_, Java.isClassReader_classes source package, fun _ => rfl⟩
  | csharp => exact CSharp.exists_isClassReader_classes source package
  | typescript => exact ⟨_, TypeScript.isClassReader_classes source package, fun _ => rfl⟩
  | cpp => exact ⟨_, Cpp.isClassReader_classes source package, fun _ => rfl⟩

/-- **What a text adds** to what was found in its language: what it adds where nothing was found, and in Python also the
relations to known classes to which its classes refer. -/
theorem has_classesOf_iff (f : Findings) (x : Finding) : (classesOf l source package f).2.Has x ↔
    f.Has x ∨ (classesOf l source package {}).2.Has x ∨
      (l = .python ∧ ∃ a b k, Python.RefersIn source a b k ∧ f.Has (.cls b) ∧
        x = .observed ⟨a, b, k.name, some "heuristic"⟩) := by
  by_cases hl : l = .python
  · subst hl
    simpa [classesOf] using Python.has_classes_iff source package f x
  · obtain ⟨cs, hread, _⟩ := exists_isClassReader hl source package
    simpa [hl] using hread.step.has_iff f x

/-- **Reading a text of any language** only adds to its findings, and the classes that are listed are known
afterwards. -/
theorem records_classesOf (f : Findings) :
    Records f (classesOf l source package f).1 (classesOf l source package f).2 := by
  by_cases hl : l = .python
  · subst hl
    exact Python.records_classes source package f
  · obtain ⟨cs, hread, _⟩ := exists_isClassReader hl source package
    exact hread.records f

/-- **The relations that a source text declares** are its base clauses, each from the base to the class that has it.  A
text without classes may have been left in the middle. -/
theorem relations_classesOf (f : Findings) (h : (classesOf l source package f).1 ≠ []) :
    (classesOf l source package f).2.relations = f.relations ++ (baseClauses l source).map BaseClause.toRelation := by
  by_cases hl : l = .python
  · subst hl
    exact Python.relations_classes source package f
  · obtain ⟨cs, hread, hcs⟩ := exists_isClassReader hl source package
    rw [← hcs (hread.result f ▸ h)]
    exact hread.step.relations f

theorem classesOf_regular {x : Finding} (h : (classesOf l source package {}).2.Has x) : x.IsRegular := by
  by_cases hl : l = .python
  · subst hl
    exact Python.classes_regular source package h
  · obtain ⟨cs, hread, _⟩ := exists_isClassReader hl source package
    exact hread.step.regular x h

variable {l source package}

theorem not_has_of_no_classes (hl : l ≠ .csharp) (h : (classesOf l source package {}).1 = []) {x : Finding}
    (hx : x.IsRelation) : ¬ (classesOf l source package {}).2.Has x := by
  cases l with
  | python => exact Python.not_has_of_no_classes h hx
  | java => exact Java.not_has_of_no_classes h hx
  | csharp => exact absurd rfl hl
  | typescript => exact TypeScript.not_has_of_no_classes h hx
  | cpp => exact Cpp.not_has_of_no_classes h hx

end

end Workbench

end CodeAtlas
