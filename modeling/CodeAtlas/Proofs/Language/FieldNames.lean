import CodeAtlas.Proofs.Language.KnownClasses
import CodeAtlas.Proofs.Text.Trim

/-!
# The names of fields

A field of an entry is a text, its name with or without a type.  `fieldName` is the name, and an entry may list one name
in two texts.

* `hasField_iff`, `FieldTexts.Fits.of_added`: the test before a name is added sees every type, so that no added name
  repeats one.
-/

namespace CodeAtlas

open List

def fieldName (field : String) : String := String.ofList (field.toList.takeWhile (· != ':'))

theorem takeWhile_append_colon (cs ds : List Char) :
    (cs ++ ':' :: ds).takeWhile (· != ':') = cs.takeWhile (· != ':') := by
  induction cs with
  | nil => rfl
  | cons c cs ih => simp only [cons_append, takeWhile_cons, ih]

theorem fieldName_typed (name type : String) : fieldName (name ++ ": " ++ type) = fieldName name := by
  unfold fieldName
  rw [String.toList_append, String.toList_append, append_assoc]
  exact congrArg String.ofList (takeWhile_append_colon name.toList _)

variable {name : String} {fields : List String}

theorem fieldName_of_not_mem (h : ':' ∉ name.toList) : fieldName name = name := by
  have hall : ∀ c ∈ name.toList, (c != ':') := fun c hc => by simpa using ne_of_mem_of_not_mem hc h
  rw [fieldName, takeWhile_eq_self_iff.mpr hall, String.ofList_toList]

theorem hasField_iff (h : ':' ∉ name.toList) : hasField fields name ↔ name ∈ fields.map fieldName := by
  simp only [hasField, any_eq_true, mem_map, Bool.or_eq_true, beq_iff_eq]
  refine exists_congr fun f => and_congr_right fun _ => ⟨?_, ?_⟩
  · rintro (hstart | rfl)
    · obtain ⟨t, ht⟩ := Chars.startsWith_iff.mp hstart
      rw [String.toList_append, append_assoc] at ht
      rw [fieldName, ← ht]
      exact (congrArg String.ofList (takeWhile_append_colon name.toList t)).trans (fieldName_of_not_mem h)
    · exact fieldName_of_not_mem h
  · rintro rfl
    have hf := takeWhile_append_dropWhile (p := (· != ':')) (l := f.toList)
    cases hrest : f.toList.dropWhile (· != ':') with
    | nil =>
      rw [hrest, append_nil] at hf
      exact .inr (by rw [fieldName, hf, String.ofList_toList])
    | cons c t =>
      have hc : c = ':' := by simpa [hrest] using head?_dropWhile_not (· != ':') f.toList
      rw [hrest, hc] at hf
      refine .inl (Chars.startsWith_iff.mpr ⟨t, ?_⟩)
      rw [String.toList_append, fieldName, String.toList_ofList, append_assoc]
      exact hf

def OneText (fields : List String) : Prop := ∀ s ∈ fields, ∀ t ∈ fields, fieldName s = fieldName t → s = t

theorem nodup_ascendingSet_iff (fields : List String) :
    ((Text.ascendingSet fields).map fieldName).Nodup ↔ OneText fields := by
  rw [nodup_map_iff_inj_on (Text.ascendingSet_nodup fields)]
  simp only [Text.mem_ascendingSet, OneText]

theorem oneText_concat_iff (hcolon : ':' ∉ name.toList)
    (h : name ∉ fields.map fieldName) : OneText (fields ++ [name]) ↔ OneText fields := by
  have hself := fieldName_of_not_mem hcolon
  have hnew : ∀ s ∈ fields, fieldName s ≠ name := fun s hs heq => h (heq ▸ mem_map_of_mem hs)
  refine ⟨fun hone s hs t ht => hone s (mem_append_left _ hs) t (mem_append_left _ ht), ?_⟩
  intro hone s hs t ht heq
  rw [mem_append, mem_singleton] at hs ht
  rcases hs with hs | rfl <;> rcases ht with ht | rfl
  · exact hone s hs t ht heq
  · exact absurd (heq.trans hself) (hnew s hs)
  · exact absurd (heq.symm.trans hself) (hnew t ht)
  · rfl

theorem addMissing_spec (fields : List String) {names : List String} (h : ∀ n ∈ names, ':' ∉ n.toList) :
    (OneText (addMissing fields names) ↔ OneText fields) ∧
      ∀ x, x ∈ (addMissing fields names).map fieldName ↔ x ∈ fields.map fieldName ∨ x ∈ names := by
  induction names generalizing fields with
  | nil => simp [addMissing]
  | cons n names ih =>
    obtain ⟨hn, hnames⟩ := forall_mem_cons.mp h
    show (OneText (addMissing (if hasField fields n then fields else fields ++ [n]) names) ↔ _) ∧
      ∀ x, x ∈ (addMissing (if hasField fields n then fields else fields ++ [n]) names).map fieldName ↔ _
    split
    next hhas =>
      have hmem := (hasField_iff hn).mp hhas
      refine ⟨(ih fields hnames).1, fun x => ((ih fields hnames).2 x).trans ?_⟩
      rw [mem_cons]
      exact ⟨fun hx => hx.imp_right .inr, fun hx => hx.elim .inl fun hx => hx.elim (· ▸ .inl hmem) .inr⟩
    next hhas =>
      have hmem : n ∉ fields.map fieldName := fun hmem => hhas ((hasField_iff hn).mpr hmem)
      refine ⟨(ih _ hnames).1.trans (oneText_concat_iff hn hmem), fun x => ((ih _ hnames).2 x).trans ?_⟩
      rw [map_append, map_singleton, fieldName_of_not_mem hn, mem_append, mem_singleton, mem_cons, or_assoc]

/-! ### What a declaration gives as fields -/

/-- The fields of a declaration: texts that are listed as they stand, and names that are added where they are
missing. -/
structure FieldTexts where
  listed : List String := []
  added : List String := []

namespace FieldTexts

/-- An entry has the names of the fields of a declaration, and has each once exactly if the listed texts do. -/
structure Fits (d : FieldTexts) (c : ClassEntry) : Prop where
  mem_iff : ∀ x, x ∈ c.fields.map fieldName ↔ x ∈ d.listed.map fieldName ∨ x ∈ d.added
  nodup_iff : (c.fields.map fieldName).Nodup ↔ OneText d.listed

variable {d : FieldTexts} {c : ClassEntry}

theorem Fits.of_added (hadded : ∀ n ∈ d.added, ':' ∉ n.toList)
    (hfields : c.fields = Text.ascendingSet (addMissing d.listed d.added)) : d.Fits c := by
  obtain ⟨hone, hmem⟩ := addMissing_spec d.listed hadded
  constructor
  · intro x
    rw [hfields, ← hmem]
    simp only [mem_map, Text.mem_ascendingSet]
  · rw [hfields, nodup_ascendingSet_iff, hone]

theorem Fits.of_listed (hadded : d.added = []) (hfields : c.fields = Text.ascendingSet d.listed) : d.Fits c :=
  .of_added (by simp [hadded]) (by rw [hfields, hadded]; rfl)

theorem Fits.of_none (hfields : c.fields = []) : Fits {} c where
  mem_iff := by simp [hfields]
  nodup_iff := by simp [hfields, OneText]

end FieldTexts

namespace Python

def fieldTexts (body : List Node) : FieldTexts where
  listed := body.flatMap (fieldsSet bodyField?) ++ (methodParts body).flatMap (fieldsSet selfField?)

def classDef? : Node → Option (String × List Node)
  | .classDef name _ _ body _ => some (name.text, body)
  | _ => none

theorem fits_classesOf (package : String) (f : Findings) (ns : List Node) :
    Forall₂ FieldTexts.Fits ((ns.filterMap classDef?).map fun d => fieldTexts d.2) (classesOf package f ns).1 := by
  rw [forall₂_map_left_iff]
  refine forall₂_readEach (fun n => ?_) ns f
  cases n with
  | classDef name bases keywords body decorators => exact .some fun _ => .of_listed rfl rfl
  | _ => exact .none

end Python

namespace Java

/-- The fields of a class: those that are declared in the tree, and those that the text sets to new objects. -/
def fieldTexts (source : String) (vs : List Node.Visit) (cls : String) : FieldTexts where
  listed := (fieldsOf cls vs).map (fun d => d.1 ++ ": " ++ d.2) ++
    (classText? source cls).elim [] fun text => (createdFields text).map fun c => c.1 ++ ": " ++ c.2

def className? : Node → Option String
  | .classDecl _ _ name _ _ _ => some name.text
  | _ => none

def interfaceName? : Node → Option String
  | .interfaceDecl _ name _ _ => some name.text
  | _ => none

theorem fits_classReader? (source package : String) (all vs : List Node.Visit) (f : Findings) :
    Forall₂ FieldTexts.Fits ((vs.filterMap fun v => className? v.node).map (fieldTexts source all))
      (Findings.readEach (classReader? source package all) vs f).1 := by
  rw [forall₂_map_left_iff]
  refine forall₂_readEach (fun v => ?_) vs f
  obtain ⟨cls, interface, n⟩ := v
  cases n with
  | classDecl modifiers marks name body base interfaces =>
    refine .some fun f => .of_listed rfl ?_
    exact congrArg (fun created => Text.ascendingSet (_ ++ created)) (codeFindings_result source name.text _)
  | _ => exact .none

theorem fits_interfaceReader? (package : String) (all vs : List Node.Visit) (f : Findings) :
    Forall₂ FieldTexts.Fits ((vs.filterMap fun v => interfaceName? v.node).map fun _ => {})
      (Findings.readEach (interfaceReader? package all) vs f).1 := by
  rw [forall₂_map_left_iff]
  refine forall₂_readEach (fun v => ?_) vs f
  obtain ⟨cls, interface, n⟩ := v
  cases n with
  | interfaceDecl marks name body bases => exact .some fun _ => .of_none rfl
  | _ => exact .none

end Java

namespace CSharp

/-- The fields of a class: those that are declared or set to new objects, and those that are set. -/
def fieldTexts (body : List Char) : FieldTexts where
  listed := ((fieldPattern.findAll body).map fun m => m.text 2 ++ ": " ++ Text.trim (m.text 1)) ++
    (createdPattern.findAll body).map fun m => m.text 1 ++ ": " ++ m.text 2
  added := (assignedPattern.findAll body).map (·.text 1)

theorem fits_classEntries {package : String} {ms : List Pattern.Match} {f : Findings} {cs : List ClassEntry}
    (h : (classEntries package ms f).1 = some cs) :
    Forall₂ FieldTexts.Fits (ms.map fun m => fieldTexts (bodyOf m)) cs := by
  induction ms generalizing f cs with
  | nil =>
    cases h
    exact .nil
  | cons m ms ih =>
    unfold classEntries at h
    simp only at h
    split at h
    · cases h
    · obtain ⟨ds, hds, rfl⟩ := Option.map_eq_some_iff.mp h
      refine .cons (.of_added ?_ rfl) (ih hds)
      exact forall_mem_map.mpr fun a ha => Pattern.not_mem_text (by decide) ha

end CSharp

namespace TypeScript

/-- The fields of a class: the parameters of its constructor and those that are declared or set to new objects, and
those that are set. -/
def classFieldTexts (body : List Char) : FieldTexts where
  listed := declaredFields body ++ (createdPattern.findAll body).map fun m => m.text 1 ++ ": " ++ m.text 2
  added := (assignedPattern.findAll body).map (·.text 1)

def interfaceFieldTexts (body : List Char) : FieldTexts where
  listed := (propertyPattern.findAll body).map fun p => p.text 1 ++ ": " ++ Text.trim (p.text 2)

end TypeScript

namespace Cpp

def fieldTexts (body : List Char) : FieldTexts where
  listed := ((fieldPattern.findAll body).filter fun m => !modifiers.contains (m.text 2)).map fun m =>
    m.text 2 ++ ": " ++ Text.trim (m.text 1)

end Cpp

namespace Workbench

def fieldTexts [Java.Parser] (l : Language) (source : String) : List FieldTexts :=
  let cs := source.toList
  match l with
  | .python => (Python.parse source).elim [] fun tree =>
    (tree.walk.filterMap Python.classDef?).map fun d => Python.fieldTexts d.2
  | .java => (Java.Parser.parse source).elim [] fun u =>
    (u.visits.filterMap fun v => Java.className? v.node).map (Java.fieldTexts source u.visits) ++
      (u.visits.filterMap fun v => Java.interfaceName? v.node).map fun _ => {}
  | .csharp => (CSharp.classPattern.findAll cs).map (fun m => CSharp.fieldTexts (CSharp.bodyOf m)) ++
    (CSharp.interfacePattern.findAll cs).map fun _ => {}
  | .typescript => (TypeScript.interfacePattern.findAll cs).map (fun m =>
      TypeScript.interfaceFieldTexts (TypeScript.bodyOf m)) ++
    (TypeScript.classPattern.findAll cs).map fun m => TypeScript.classFieldTexts (TypeScript.bodyOf m)
  | .cpp => (Cpp.classPattern.findAll (Cpp.dropComments cs)).map (fun m => Cpp.fieldTexts (Cpp.bodyOf m)) ++
    (Cpp.structPattern.findAll (Cpp.dropComments cs)).map fun m => Cpp.fieldTexts (Cpp.bodyOf m)

/-- **Each name once**: the entries of a source text, unless none is listed, have the names of the fields of its
declarations, and an entry lists each name once exactly if the texts that its declaration lists as they stand do. -/
theorem fieldNames_nodup_iff [Java.Parser] (l : Language) (source package : String) (f : Findings) :
    (classesOf l source package f).1 = [] ∨
      List.Forall₂ FieldTexts.Fits (fieldTexts l source) (classesOf l source package f).1 := by
  cases l with
  | python =>
    unfold classesOf fieldTexts Python.classes
    cases Python.parse source with
    | none => exact .inl rfl
    | some tree => exact .inr (Python.fits_classesOf _ _ _)
  | java =>
    unfold classesOf fieldTexts Java.classes
    cases Java.Parser.parse source with
    | none => exact .inl rfl
    | some u => exact .inr (List.rel_append (Java.fits_classReader? _ _ _ _ _) (Java.fits_interfaceReader? _ _ _ _))
  | csharp =>
    unfold classesOf fieldTexts CSharp.classes
    simp only
    split
    · exact .inl rfl
    next hentries =>
      refine .inr (List.rel_append (CSharp.fits_classEntries (congrArg Prod.fst hentries))
        (forall₂_readEach_all (fun _ _ => ?_) _ _))
      exact .of_none rfl
  | typescript =>
    refine .inr (List.rel_append (forall₂_readEach_all (fun _ _ => ?_) _ _) (forall₂_readEach_all (fun _ _ => ?_) _ _))
    · exact .of_listed rfl rfl
    · exact .of_added (List.forall_mem_map.mpr fun a ha => Pattern.not_mem_text (by decide) ha) rfl
  | cpp =>
    refine .inr (List.rel_append (forall₂_readEach_all (fun _ _ => ?_) _ _) (forall₂_readEach_all (fun _ _ => ?_) _ _))
    · exact .of_listed rfl rfl
    · exact .of_listed rfl rfl

/-- A field that is set to an object of another type than it is declared with has two texts. -/
theorem fieldNames_not_nodup : ∃ c ∈ (classesOf .csharp
      "class A \x7b private IFoo x; A() \x7b this.x = new Foo(); \x7d \x7d" "" {}).1,
    "x: Foo" ∈ c.fields ∧ "x: IFoo" ∈ c.fields ∧ ¬ (c.fields.map fieldName).Nodup := by
  have hfields : (classesOf .csharp "class A \x7b private IFoo x; A() \x7b this.x = new Foo(); \x7d \x7d" "" {}).1.map
      (·.fields) = [Text.ascendingSet ["x: IFoo", "x: Foo"]] := by rfl
  obtain ⟨c, hc, hcfields⟩ := List.mem_map.mp (hfields ▸ List.mem_singleton_self _)
  refine ⟨c, hc, ?_⟩
  rw [hcfields, nodup_ascendingSet_iff]
  simp only [Text.mem_ascendingSet]
  exact ⟨by simp, by simp, fun hone => absurd (hone "x: Foo" (by simp) "x: IFoo" (by simp) (by decide)) (by decide)⟩

end Workbench

end CodeAtlas
