import CodeAtlas.Proofs.Analysis.SharedWorkbench
import CodeAtlas.Proofs.Diagram.Arrows

/-!
# Generalizations in class diagrams

An arrow with a triangle stands for a base clause: the triangle is at the end of the arrow, and what is read off it is
that the class at the start of the arrow extends or implements the class at its end.  Base clauses are drawn the other
way round.
-/

namespace CodeAtlas

open List

def Schema.ofEntries (l : Language) (entries : List ClassEntry) (relations : List Relation) : Value :=
  .ofFields [(l.name, .list (entries.map ClassEntry.toValue)), ("relations", .list (relations.map Relation.toValue))]

/-- The schema of a source text that is read by itself. -/
def Workbench.schemaOf [Java.Parser] (l : Language) (source package : String) : Loose Value := do
  let (entries, f) := classesOf l source package {}
  let relations ← (({} : Workbench).put l f).relationsIn l (.list (entries.map ClassEntry.toValue))
  return Schema.ofEntries l entries relations

namespace ClassDiagram

/-! ### Classes and their relations -/

variable (style : Style)

theorem holdsOnly_texts {p : Value → Bool} (h : ∀ s, p (.text s)) (ss : List String) :
    (Value.texts ss).holdsOnly p := by
  show (ss.map Value.text).all p = true
  rw [all_map, all_eq_true]
  exact fun s _ => h s

theorem isDeclarable_toValue (e : ClassEntry) : isDeclarable style e.toValue := by
  have hfields : e.toValue.part "fields" = .texts e.fields := rfl
  have hmethods : e.toValue.part "methods" = .texts e.methods := rfl
  have hvalues : (e.toValue.part "values").truthy = false := rfl
  rw [isDeclarable, hfields, hmethods, hvalues, holdsOnly_texts fun _ => rfl, holdsOnly_texts fun _ => rfl]
  simp only [Bool.or_true, Bool.not_false, Bool.true_or, Bool.and_self]

variable (l : Language) (es : List ClassEntry) (rs : List Relation) {lang s : String} {kind : RelationKind}
  (r : Relation)

theorem field?_ofEntries (hlang : lang ≠ "relations") : (Schema.ofEntries l es rs).field? lang =
    if l.name = lang then some (.list (es.map ClassEntry.toValue)) else none := by
  rw [Schema.ofEntries, Value.field?_ofFields_cons, Value.field?_ofFields_cons, if_neg hlang.symm,
    Value.field?_ofFields_nil]

theorem field?_relations_ofEntries :
    (Schema.ofEntries l es rs).field? "relations" = some (.list (rs.map Relation.toValue)) := by
  cases l <;> rfl

theorem listAt_ofEntries (hlang : lang ≠ "relations") : (Schema.ofEntries l es rs).listAt lang =
    if l.name = lang then es.map ClassEntry.toValue else [] := by
  have hfield := field?_ofEntries l es rs hlang
  split
  next h =>
    rw [if_pos h] at hfield
    exact Value.listAt_of_field? hfield
  next h =>
    rw [if_neg h] at hfield
    exact Value.listAt_of_none hfield

theorem ne_relations_of_mem (h : lang ∈ Schema.languages) : lang ≠ "relations" := by
  have hall : ∀ lang ∈ Schema.languages, lang ≠ "relations" := by decide
  exact hall lang h

theorem isTypedRelation_toValue : isTypedRelation r.toValue := by
  cases r.source <;> rfl

theorem isTypedSchema_ofEntries : isTypedSchema (Schema.ofEntries l es rs) Schema.languages := by
  simp only [isTypedSchema, Bool.and_eq_true, all_eq_true]
  refine ⟨⟨⟨rfl, fun lang hlang => ⟨?_, fun v hv => ?_⟩⟩, ?_⟩, fun v hv => ?_⟩
  · rw [Value.part, field?_ofEntries l es rs (ne_relations_of_mem hlang)]
    split <;> rfl
  · rw [listAt_ofEntries l es rs (ne_relations_of_mem hlang)] at hv
    split at hv
    · obtain ⟨e, _, rfl⟩ := mem_map.mp hv
      rfl
    · cases hv
  · rw [field?_relations_ofEntries]
    rfl
  · rw [Value.listAt_of_field? (field?_relations_ofEntries l es rs)] at hv
    obtain ⟨r, _, rfl⟩ := mem_map.mp hv
    exact isTypedRelation_toValue r

theorem mem_declaredIn_ofEntries :
    s ∈ declaredIn (Schema.ofEntries l es rs) Schema.languages ↔ s ∈ es.map (·.name) := by
  have hname : ∀ e : ClassEntry, e.toValue.textAt "class" = e.name := fun _ => rfl
  rw [declaredIn, mem_flatMap]
  constructor
  · rintro ⟨lang, hlang, hs⟩
    rw [listAt_ofEntries l es rs (ne_relations_of_mem hlang)] at hs
    split at hs
    · simpa only [map_map, Function.comp_def, hname] using hs
    · cases hs
  · intro hs
    have hown : l.name ∈ Schema.languages := by cases l <;> decide
    refine ⟨l.name, hown, ?_⟩
    rw [listAt_ofEntries l es rs (ne_relations_of_mem hown), if_pos rfl]
    simpa only [map_map, Function.comp_def, hname] using hs

def arrowOf (r : Relation) : Line := .joins r.fromClass (" " ++ arrowFor (.text r.kind) ++ " ") r.toClass ""

theorem relationKey_toValue : relationKey r.toValue = (r.fromClass, r.toClass, r.kind) := by
  cases r.source <;> rfl

theorem arrowLine_toValue : arrowLine r.toValue = arrowOf r := by
  have hcounts : countsOf r.toValue = (.text "", .text "") := by
    unfold Relation.toValue
    cases r.source <;> rfl
  have hlabel : labelOf r.toValue = .text "" := by
    unfold Relation.toValue
    cases r.source <;> rfl
  rw [arrowLine, hcounts, hlabel]
  show Line.joins _ (" " ++ "" ++ _ ++ "" ++ " ") _ "" = _
  rw [String.append_empty, String.append_empty]
  rfl

theorem joinsDeclared_toValue {names : List String} (hnames : "" ∉ names) {r : Relation} :
    joinsDeclared names r.toValue ↔ r.fromClass ∈ names ∧ r.toClass ∈ names := by
  have hfrom : r.toValue.textAt "from" = r.fromClass := rfl
  have hto : r.toValue.textAt "to" = r.toClass := rfl
  simp only [joinsDeclared, hfrom, hto, Bool.and_eq_true, bne_iff_ne, contains_iff_mem]
  grind

/-- **The arrows of a class diagram**: one for each relation between two of its classes. -/
theorem exists_lines (l : Language) {es : List ClassEntry} (hnamed : Named es) (rs : List Relation) :
    ∃ ls, lines style (Schema.ofEntries l es rs) .null = .ok ls ∧
      ∀ x arrow y rest, .joins x arrow y rest ∈ ls ↔ ∃ r ∈ rs, r.fromClass ∈ es.map (·.name) ∧
        r.toClass ∈ es.map (·.name) ∧ .joins x arrow y rest = arrowOf r := by
  have htyped : isTypedSchema (Schema.ofEntries l es rs) (selected none) := isTypedSchema_ofEntries l es rs
  have hok : (lines style (Schema.ofEntries l es rs) (filterValue none)).isOk := by
    rw [isOk_lines htyped, all_eq_true]
    intro lang hlang
    rw [listAt_ofEntries l es rs (ne_relations_of_mem hlang)]
    split
    · rw [all_map, all_eq_true]
      exact fun e _ => isDeclarable_toValue style e
    · rfl
  obtain ⟨ls, hls⟩ := Loose.isOk_iff.mp hok
  refine ⟨ls, hls, fun x arrow y rest => ?_⟩
  have hempty : "" ∉ declaredIn (Schema.ofEntries l es rs) (selected none) := by
    intro h
    obtain ⟨e, he, hname⟩ := mem_map.mp ((mem_declaredIn_ofEntries l es rs).mp h)
    exact hnamed e he hname
  have hends : ∀ r : Relation, joinsDeclared (declaredIn (Schema.ofEntries l es rs) (selected none)) r.toValue ↔
      r.fromClass ∈ es.map (·.name) ∧ r.toClass ∈ es.map (·.name) := by
    intro r
    rw [joinsDeclared_toValue hempty]
    exact and_congr (mem_declaredIn_ofEntries l es rs) (mem_declaredIn_ofEntries l es rs)
  have harrows := filter_isArrow_lines htyped hls
  rw [Value.listAt_of_field? (field?_relations_ofEntries l es rs)] at harrows
  have hmem : .joins x arrow y rest ∈ ls ↔ .joins x arrow y rest ∈ ls.filter (·.isArrow) :=
    (mem_filter.trans (and_iff_left rfl)).symm
  rw [hmem, harrows, mem_map]
  constructor
  · rintro ⟨v, hv, hline⟩
    obtain ⟨hv, hjoins⟩ := mem_filter.mp (mem_of_mem_firsts hv)
    obtain ⟨r, hr, rfl⟩ := mem_map.mp hv
    obtain ⟨hfrom, hto⟩ := (hends r).mp hjoins
    exact ⟨r, hr, hfrom, hto, hline.symm.trans (arrowLine_toValue r)⟩
  · rintro ⟨r, hr, hfrom, hto, hline⟩
    have hkept := mem_filter.mpr ⟨mem_map_of_mem hr, (hends r).mpr ⟨hfrom, hto⟩⟩
    obtain ⟨v, hv, hkey⟩ := exists_mem_firsts (beq_self_eq_true (relationKey _)) hkept
    refine ⟨v, hv, ?_⟩
    obtain ⟨q, _, rfl⟩ := mem_map.mp (mem_filter.mp (mem_of_mem_firsts hv)).1
    -- a relation that joins the same classes in the same way has the same arrow
    rw [beq_iff_eq, relationKey_toValue, relationKey_toValue, Prod.mk.injEq, Prod.mk.injEq] at hkey
    obtain ⟨hf, ht, hk⟩ := hkey
    rw [arrowLine_toValue, hline, arrowOf, arrowOf, hf, ht, hk]

theorem arrowFor_eq_arrow_iff (hkind : kind ≠ .association) : arrowFor (.text s) = kind.arrow ↔ s = kind.name := by
  have harrow : ∀ k : RelationKind, k.arrow = kind.arrow ↔ k = kind := by
    intro k
    cases k <;> cases kind <;> decide
  have hname : ∀ k : RelationKind, RelationKind.ofName? k.name = some k := by
    intro k
    cases k <;> decide
  constructor
  · intro h
    have hk := (harrow _).mp h
    cases hs : RelationKind.ofName? s with
    | none =>
      rw [hs] at hk
      exact absurd hk.symm hkind
    | some k =>
      rw [hs, Option.getD_some] at hk
      rw [← hk]
      exact (by simpa using find?_some hs : k.name = s).symm
  · intro h
    rw [h, arrowFor, hname, Option.getD_some]

theorem joins_eq_arrowOf_iff {x y : String} (hkind : kind ≠ .association) {r : Relation} :
    .joins x (" " ++ kind.arrow ++ " ") y "" = arrowOf r ↔ r.fromClass = x ∧ r.toClass = y ∧ r.kind = kind.name := by
  have hpad : " " ++ kind.arrow ++ " " = " " ++ arrowFor (.text r.kind) ++ " " ↔ r.kind = kind.name := by
    rw [← arrowFor_eq_arrow_iff hkind, ← String.toList_inj, ← String.toList_inj]
    simp [eq_comm]
  rw [arrowOf, Line.joins.injEq, hpad, eq_comm (a := x), eq_comm (a := y)]
  simp only [and_true]
  exact and_congr_right fun _ => and_comm

end ClassDiagram

/-! ### Source texts -/

theorem Findings.mem_relationsAmong_iff {f : Findings} (hregular : ∀ x, f.Has x → x.IsRegular) (l : Language)
    (isKnown : String → Bool) {r : Relation} (hkind : r.kind = "extends" ∨ r.kind = "implements") :
    r ∈ f.relationsAmong l isKnown ↔ r ∈ f.relations := by
  have hobserved : ∀ s : Relation, s.kind = r.kind → ¬ f.Has (.observed s) := by
    intro s hs h
    have hother : s.kind = "composition" ∨ s.kind = "uses" := hregular _ h
    rw [hs] at hother
    rcases hkind with hkind | hkind <;> rw [hkind] at hother <;> revert hother <;> decide
  have hdistinct : ∀ us : List Relation, (∀ u ∈ us, u ∈ f.usages) → r ∉ Relation.distinct us := by
    intro us hus h
    obtain ⟨u, hu, _, _, hk⟩ := Relation.exists_mem_distinct_iff.mp ⟨r, h, rfl, rfl, rfl⟩
    exact hobserved u hk (.inr (hus u hu))
  have himports : r ∉ (f.imports.filter isKnown).map dependency := by
    intro h
    obtain ⟨n, _, rfl⟩ := mem_map.mp h
    rcases hkind with hkind | hkind <;> exact absurd hkind (by decide : "dependency" ≠ _)
  have hcompositions : r ∉ f.compositions := fun h => hobserved r rfl (.inl h)
  unfold relationsAmong
  split
  · simp only [relationsPlain, mem_append, hcompositions, himports, hdistinct _ fun _ h => h, or_false]
  · have hfiltered := hdistinct (f.usages.filter fun r => isKnown r.toClass && r.toClass != r.fromClass)
      fun _ h => mem_of_mem_filter h
    simp only [relationsKnown, mem_append, mem_filter, hcompositions, himports, hfiltered, false_and, or_false]

namespace Workbench

section

variable [Java.Parser]

theorem classesOf_named (l : Language) (source package : String) (f : Findings) :
    Named (classesOf l source package f).1 := by
  cases l with
  | python => exact Python.classes_named _ _ _
  | java => exact Java.classes_named _ _ _
  | csharp => exact CSharp.classes_named _ _ _
  | typescript => exact TypeScript.classes_named _ _ _
  | cpp => exact Cpp.classes_named _ _ _

/-- The relations of a source text that is read by itself. -/
def relationsOf (l : Language) (source package : String) : List Relation :=
  (classesOf l source package {}).2.relationsAmong l fun n =>
    ((classesOf l source package {}).1.map (·.name)).contains n

theorem schemaOf_eq (l : Language) (source package : String) : schemaOf l source package =
    .ok (Schema.ofEntries l (classesOf l source package {}).1 (relationsOf l source package)) := by
  have hfindings : (({} : Workbench).put l (classesOf l source package {}).2).findings l =
      (classesOf l source package {}).2 := if_pos rfl
  unfold schemaOf
  dsimp only
  rw [relationsIn_toValue, hfindings]
  rfl

theorem mem_relationsOf_iff {l : Language} {source package : String} {r : Relation}
    (hkind : r.kind = "extends" ∨ r.kind = "implements") (hclass : (classesOf l source package {}).1 ≠ []) :
    r ∈ relationsOf l source package ↔ ∃ c ∈ baseClauses l source, c.toRelation = r := by
  have hregular := fun x => classesOf_regular l source package (x := x)
  rw [relationsOf, Findings.mem_relationsAmong_iff hregular l _ hkind, relations_classesOf l source package {} hclass]
  exact mem_map

/-- **Base clauses are drawn the wrong way round.**  Every source text has a class diagram, and an arrow with a triangle
leads from one of its classes to another exactly if the second one extends, or implements, the first. -/
theorem generalization_iff (style : Style) (l : Language) (source package : String) :
    ∃ schema ls, schemaOf l source package = .ok schema ∧ ClassDiagram.lines style schema .null = .ok ls ∧
      ∀ kind ∈ [RelationKind.extends, .implements], ∀ x y,
        (.joins x (" " ++ kind.arrow ++ " ") y "" ∈ ls ↔
          x ∈ (classesOf l source package {}).1.map (·.name) ∧ y ∈ (classesOf l source package {}).1.map (·.name) ∧
            ⟨y, x, kind⟩ ∈ baseClauses l source) := by
  obtain ⟨ls, hls, hmem⟩ := ClassDiagram.exists_lines style l (classesOf_named l source package {})
    (relationsOf l source package)
  refine ⟨_, ls, schemaOf_eq l source package, hls, fun kind hkind x y => ?_⟩
  have hbase : kind ≠ .association ∧ (kind.name = "extends" ∨ kind.name = "implements") := by
    revert kind
    decide
  have hclass : ∀ {n}, n ∈ (classesOf l source package {}).1.map (·.name) → (classesOf l source package {}).1 ≠ [] := by
    intro n hn h
    rw [h] at hn
    cases hn
  rw [hmem]
  constructor
  · rintro ⟨r, hr, hx, hy, hline⟩
    obtain ⟨rfl, rfl, hk⟩ := (ClassDiagram.joins_eq_arrowOf_iff hbase.1).mp hline
    obtain ⟨c, hc, rfl⟩ := (mem_relationsOf_iff (hk ▸ hbase.2) (hclass hx)).mp hr
    have hkinds : c.kind = kind := RelationKind.name_injective hk
    exact ⟨hx, hy, hkinds ▸ hc⟩
  · rintro ⟨hx, hy, hc⟩
    exact ⟨BaseClause.toRelation ⟨y, x, kind⟩, (mem_relationsOf_iff hbase.2 (hclass hx)).mpr ⟨_, hc, rfl⟩, hx, hy,
      (ClassDiagram.joins_eq_arrowOf_iff hbase.1).mpr ⟨rfl, rfl, rfl⟩⟩

end

def shapeSource : String := "interface Shape \x7b\x7d\nclass Circle implements Shape \x7b\x7d\n"

theorem generalization_iff_shape : ∃ schema ls, schemaOf .java shapeSource "main" = .ok schema ∧
    ClassDiagram.lines {} schema .null = .ok ls ∧ .joins "Shape" " ..|> " "Circle" "" ∈ ls := by
  obtain ⟨schema, ls, hschema, hls, hmem⟩ := generalization_iff {} .java shapeSource "main"
  refine ⟨schema, ls, hschema, hls, (hmem .implements (by decide) "Shape" "Circle").mpr ?_⟩
  decide +kernel

def animalSource : String := "class Animal:\n    pass\nclass Dog(Animal):\n    pass\n"

/-- A dog is an animal, and it is drawn that an animal is a dog. -/
theorem generalization_reversed : ⟨"Dog", "Animal", .extends⟩ ∈ baseClauses .python animalSource ∧
    ∃ schema ls, schemaOf .python animalSource "main" = .ok schema ∧ ClassDiagram.lines {} schema .null = .ok ls ∧
      .joins "Animal" " --|> " "Dog" "" ∈ ls ∧ .joins "Dog" " --|> " "Animal" "" ∉ ls := by
  have hnames : (classesOf .python animalSource "main" {}).1.map (·.name) = ["Animal", "Dog"] := by decide +kernel
  have hrelations : relationsOf .python animalSource "main" = [⟨"Animal", "Dog", "extends", some "heuristic"⟩] := by
    decide +kernel
  obtain ⟨ls, hls, hmem⟩ := ClassDiagram.exists_lines {} .python (classesOf_named .python animalSource "main" {})
    (relationsOf .python animalSource "main")
  refine ⟨by decide +kernel, _, ls, schemaOf_eq _ _ _, hls, (hmem ..).mpr ?_, fun h => ?_⟩
  · decide +kernel
  · exact absurd ((hmem ..).mp h) (by decide +kernel)

end Workbench

end CodeAtlas
