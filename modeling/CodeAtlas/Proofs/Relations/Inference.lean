import CodeAtlas.Model.ClassEntry
import CodeAtlas.Proofs.Relations.KeepValid
import CodeAtlas.Proofs.Text.Ascending

/-!
# What a register infers

Which classes are joined by inference is told here exactly: it looks at the last class of a name for its fields and at
the first one for whether it is abstract.
-/

namespace CodeAtlas

open List Text Loose

instance : Nonempty RelationKind := ⟨.extends⟩

namespace Register

/-! ### Types of fields -/

theorem fieldTypes_of_getD {v : Value} {fs : List String} (h : v.getD "fields" (.list []) = .ok (.texts fs)) :
    fieldTypes v = .ok (ascendingSet
      (fs.filterMap fun f => if Text.contains f ":" then some (fieldType f) else none)) := by
  have htypes : (fs.map Value.text).mapM fieldType? =
      .ok (fs.map fun f => if Text.contains f ":" then some (fieldType f) else none) := by
    rw [mapM_map]
    refine mapM_ok fun f _ => ?_
    show fieldType? (.text f) = _
    simp only [fieldType?, Value.holdsText, Value.textFor, Value.text, ok_bind]
    split <;> rfl
  rw [fieldTypes, h, ok_bind, Value.texts, Value.items, ok_bind, htypes, ok_bind, filterMap_map]
  rfl

end Register

/-! ### Classes that were found -/

namespace ClassEntry

def fieldTypes (e : ClassEntry) : List String :=
  e.fields.filterMap fun f => if Text.contains f ":" then some (Register.fieldType f) else none

def firstNamed? (a : String) (es : List ClassEntry) : Option ClassEntry := es.find? (·.name == a)

def lastNamed? (a : String) (es : List ClassEntry) : Option ClassEntry := firstNamed? a es.reverse

theorem firstNamed?_cons (a : String) (e : ClassEntry) (es : List ClassEntry) :
    firstNamed? a (e :: es) = if e.name = a then some e else firstNamed? a es := by
  by_cases h : e.name = a <;> simp [firstNamed?, h]

theorem lastNamed?_concat (a : String) (es : List ClassEntry) (e : ClassEntry) :
    lastNamed? a (es ++ [e]) = if e.name = a then some e else lastNamed? a es := by
  rw [lastNamed?, reverse_concat, firstNamed?_cons]
  rfl

theorem mem_of_lastNamed? {a : String} {es : List ClassEntry} {e : ClassEntry} (h : lastNamed? a es = some e) :
    e ∈ es ∧ e.name = a := ⟨mem_reverse.mp (mem_of_find?_eq_some h), by simpa using find?_some h⟩

theorem field_class (e : ClassEntry) : e.toValue.field "class" = .ok (.text e.name) := rfl

theorem getD_abstract (e : ClassEntry) (d : Value) : e.toValue.getD "abstract" d = .ok (.bool e.isAbstract) := rfl

theorem fieldTypes_toValue (e : ClassEntry) :
    Register.fieldTypes e.toValue = .ok (ascendingSet e.fieldTypes) := Register.fieldTypes_of_getD rfl

end ClassEntry

namespace Register

open ClassEntry

theorem beq_text_iff {n : Atom} {s : String} : (n == .text s) ↔ n = .text s := Atom.same_text_iff

/-! ### The table of types -/

theorem keys_putTypes (a : String) (types : List String) (table : List (Atom × List String)) :
    (.text a ∈ table.map (·.1) ∧ (putTypes (.text a) types table).map (·.1) = table.map (·.1)) ∨
      (.text a ∉ table.map (·.1) ∧ (putTypes (.text a) types table).map (·.1) = table.map (·.1) ++ [.text a]) := by
  fun_induction putTypes (.text a) types table with
  | case1 => simp
  | case2 n ts rest hn =>
    rw [beq_text_iff.mp hn]
    simp
  | case3 n ts rest hn ih =>
    have hne : ¬ .text a = n := fun heq => hn (beq_text_iff.mpr heq.symm)
    rw [map_cons, map_cons, mem_cons]
    rcases ih with ⟨hmem, heq⟩ | ⟨hmem, heq⟩ <;> simp [heq, hmem, hne]

variable {a b : String} {p : Atom × List String} {v : Value} {k : RelationKind} {r : Register}

theorem mem_putTypes_iff {types : List String} {table : List (Atom × List String)} (hnodup : (table.map (·.1)).Nodup) :
    p ∈ putTypes (.text a) types table ↔ p = (.text a, types) ∨ p ∈ table ∧ p.1 ≠ .text a := by
  fun_induction putTypes (.text a) types table with
  | case1 => simp
  | case2 n ts rest hn =>
    obtain rfl := beq_text_iff.mp hn
    rw [map_cons, nodup_cons] at hnodup
    have hrest : p ∈ rest → p.1 ≠ .text a := fun hp heq => hnodup.1 (heq ▸ mem_map.mpr ⟨p, hp, rfl⟩)
    grind
  | case3 n ts rest hn ih =>
    have hne : n ≠ .text a := fun heq => hn (beq_text_iff.mpr heq)
    rw [mem_cons, ih (nodup_cons.mp hnodup).2, mem_cons]
    grind

/-- The types that the fields of classes name, by the names of the classes. -/
def types (es : List ClassEntry) : List (Atom × List String) :=
  es.foldl (fun table e => putTypes (.text e.name) (ascendingSet e.fieldTypes) table) []

theorem typeTable_map {α : Type} {v : α → Value} {g : α → ClassEntry} {cs : List α}
    (hname : ∀ c ∈ cs, (v c).field "class" = .ok (.text (g c).name))
    (htypes : ∀ c ∈ cs, fieldTypes (v c) = .ok (ascendingSet (g c).fieldTypes)) :
    typeTable (cs.map v) = .ok (types (cs.map g)) := by
  suffices ∀ table, (cs.map v).foldlM (fun table c => do
      let name ← (← c.field "class").key
      return putTypes name (← fieldTypes c) table) table =
      (.ok ((cs.map g).foldl
        (fun table e => putTypes (.text e.name) (ascendingSet e.fieldTypes) table) table) :
        Loose (List (Atom × List String))) from this []
  induction cs with
  | nil => exact fun table => rfl
  | cons c cs ih =>
    intro table
    obtain ⟨hc, hname⟩ := forall_mem_cons.mp hname
    obtain ⟨hct, htypes⟩ := forall_mem_cons.mp htypes
    rw [map_cons, foldlM_cons, hc, hct]
    exact ih hname htypes _

theorem typeTable_toValue (es : List ClassEntry) : typeTable (es.map ClassEntry.toValue) = .ok (types es) := by
  rw [typeTable_map (g := id) (fun e _ => field_class e) fun e _ => fieldTypes_toValue e, map_id]

theorem types_concat (es : List ClassEntry) (e : ClassEntry) :
    types (es ++ [e]) = putTypes (.text e.name) (ascendingSet e.fieldTypes) (types es) := by
  rw [types, foldl_append]
  rfl

theorem nodup_types (es : List ClassEntry) : ((types es).map (·.1)).Nodup := by
  induction es using List.reverseRecOn with
  | nil => exact nodup_nil
  | append_singleton es e ih =>
    rw [types_concat]
    rcases keys_putTypes e.name (ascendingSet e.fieldTypes) (types es) with ⟨_, heq⟩ | ⟨hnot, heq⟩
    · rwa [heq]
    · rw [heq, ← concat_eq_append]
      exact ih.concat hnot

/-- **Of classes with the same name the last one counts for its fields.** -/
theorem mem_types_iff {es : List ClassEntry} :
    p ∈ types es ↔ ∃ a e, lastNamed? a es = some e ∧ p = (.text a, ascendingSet e.fieldTypes) := by
  induction es using List.reverseRecOn with
  | nil => simp [types, lastNamed?, firstNamed?]
  | append_singleton es e ih =>
    rw [types_concat, mem_putTypes_iff (nodup_types es), ih]
    constructor
    · rintro (rfl | ⟨⟨a, c, hc, rfl⟩, hne⟩)
      · exact ⟨e.name, e, by rw [lastNamed?_concat, if_pos rfl], rfl⟩
      · exact ⟨a, c, by rw [lastNamed?_concat, if_neg fun heq => hne (congrArg Atom.text heq.symm), hc], rfl⟩
    · rintro ⟨a, c, hc, rfl⟩
      rw [lastNamed?_concat] at hc
      split at hc
      next heq =>
        cases hc
        exact .inl (by rw [heq])
      next hne => exact .inr ⟨⟨a, c, hc, rfl⟩, fun heq => hne (Atom.text.inj heq).symm⟩

/-- The last class of a name has a field of another known class. -/
def Composes (known : List Atom) (es : List ClassEntry) (a b : String) : Prop :=
  .text b ∈ known ∧ b ≠ a ∧ ∃ e, lastNamed? a es = some e ∧ b ∈ e.fieldTypes

theorem mem_inferCompositions_iff {known : List Atom} {es : List ClassEntry} : v ∈ inferCompositions known (types es) ↔
    ∃ a b, Composes known es a b ∧ v = inferred (.text a) (.text b) "composition" := by
  simp only [inferCompositions, mem_flatMap, mem_map, mem_filter]
  constructor
  · rintro ⟨p, hp, t, ⟨ht, hknown⟩, rfl⟩
    obtain ⟨a, e, he, rfl⟩ := mem_types_iff.mp hp
    obtain ⟨hmem, hne⟩ := isKnownOther_iff.mp hknown
    exact ⟨a, t, ⟨hmem, hne, e, he, mem_ascendingSet.mp ht⟩, rfl⟩
  · rintro ⟨a, b, ⟨hmem, hne, e, he, hb⟩, rfl⟩
    exact ⟨_, mem_types_iff.mpr ⟨a, e, he, rfl⟩, b, ⟨mem_ascendingSet.mpr hb, isKnownOther_iff.mpr ⟨hmem, hne⟩⟩, rfl⟩

/-! ### Bases that are abstract -/

theorem classNamed?_toValue (a : String) (es : List ClassEntry) :
    classNamed? (.text a) (es.map ClassEntry.toValue) = .ok ((firstNamed? a es).map ClassEntry.toValue) := by
  induction es with
  | nil => rfl
  | cons e es ih =>
    have hsame : (Value.text e.name).same (.text a) = (e.name == a) := rfl
    rw [map_cons, classNamed?, field_class, ok_bind, hsame, firstNamed?_cons, ih]
    simp only [beq_iff_eq]
    split <;> rfl

/-- What a relation shows about the class that it leads to, which is not abstract. -/
def implementation (es : List ClassEntry) (e : ClassEntry) (v : Value) : Loose (List Value) := do
  if (← v.get "to").same (.text e.name) && (← v.get "type").isText "extends" then
    let base ← v.get "from"
    match ← classNamed? base (es.map ClassEntry.toValue) with
    | some c =>
      if c.truthy && (← c.getD "abstract" (.bool false)).truthy then
        return [inferred base (.text e.name) "implements"]
      else return []
    | none => return []
  else return []

theorem inferImplementations_toValue (r : Register) (es : List ClassEntry) (e : ClassEntry) :
    r.inferImplementations (es.map ClassEntry.toValue) e.toValue =
      if e.isAbstract then .ok [] else do return (← r.relations.mapM (implementation es e)).flatten := by
  rw [inferImplementations, field_class, ok_bind, getD_abstract, ok_bind]
  cases e.isAbstract <;> rfl

theorem implementation_eq (es : List ClassEntry) (e : ClassEntry) (h : Joins v a b k) : implementation es e v =
      .ok (if b = e.name ∧ k = .extends ∧ (firstNamed? a es).any (·.isAbstract) then
        [inferred (.text a) (.text e.name) "implements"] else []) := by
  have hsame : (Value.text b).same (.text e.name) = (b == e.name) := rfl
  have hextends : (Value.text k.name).isText "extends" = decide (k = .extends) := by cases k <;> rfl
  rw [implementation, h.target, ok_bind, h.kind, ok_bind, hsame, hextends]
  by_cases hcond : b = e.name ∧ k = .extends
  · obtain ⟨rfl, rfl⟩ := hcond
    rw [if_pos (by simp), h.source, ok_bind, classNamed?_toValue, ok_bind]
    cases hfirst : firstNamed? a es with
    | none => simp; rfl
    | some c =>
      simp only [Option.map_some, getD_abstract, ok_bind, Option.any_some]
      cases c.isAbstract <;> simp <;> rfl
  · rw [if_neg (by simpa using hcond), if_neg fun h => hcond ⟨h.1, h.2.1⟩]
    rfl

theorem exists_inferImplementations (hjoin : ∀ v ∈ r.relations, IsJoin v) (es : List ClassEntry)
    (e : ClassEntry) : ∃ vs, r.inferImplementations (es.map ClassEntry.toValue) e.toValue = .ok vs ∧
      ∀ v, v ∈ vs ↔ e.isAbstract = false ∧ ∃ a, v = inferred (.text a) (.text e.name) "implements" ∧
        Shows r.relations a e.name .extends ∧ ∃ c, firstNamed? a es = some c ∧ c.isAbstract := by
  rw [inferImplementations_toValue]
  cases e.isAbstract with
  | true => exact ⟨[], rfl, by simp⟩
  | false =>
    choose! source target kind hjoins using hjoin
    have hfound := mapM_ok fun v hv => implementation_eq es e (hjoins v hv)
    refine ⟨_, by rw [hfound]; rfl, fun v => ?_⟩
    rw [mem_flatten]
    constructor
    · rintro ⟨ws, hws, hv⟩
      obtain ⟨w, hw, rfl⟩ := mem_map.mp hws
      split at hv
      next hcond =>
        have hw := hjoins w hw
        obtain ⟨hb, hk, hfirst⟩ := hcond
        exact ⟨rfl, source w, mem_singleton.mp hv, ⟨w, ‹_›, hb ▸ hk ▸ hw⟩, Option.any_eq_true _ _ |>.mp hfirst⟩
      next => cases hv
    · rintro ⟨_, a, rfl, ⟨w, hw, h⟩, hfirst⟩
      obtain ⟨rfl, hb, hk⟩ := h.unique (hjoins w hw)
      refine ⟨_, mem_map_of_mem hw, ?_⟩
      rw [if_pos ⟨hb.symm, hk.symm, Option.any_eq_true _ _ |>.mpr hfirst⟩]
      exact mem_singleton_self _

/-! ### What is inferred -/

/-- A class that is not abstract extends one that is, by the first class of its name. -/
def Realizes (vs : List Value) (es : List ClassEntry) (a b : String) : Prop :=
  Shows vs a b .extends ∧ (∃ e ∈ es, e.name = b ∧ e.isAbstract = false) ∧
    ∃ e, firstNamed? a es = some e ∧ e.isAbstract = true

/-- **Inference succeeds on classes that were found**, and shows compositions and implementations. -/
theorem exists_infer (hjoin : ∀ v ∈ r.relations, IsJoin v) (es : List ClassEntry) :
    ∃ vs, r.infer (.list (es.map ClassEntry.toValue)) = .ok vs ∧ (∀ v ∈ vs, IsJoin v) ∧
      ∀ a b k, Shows vs a b k ↔
        (k = .composition ∧ Composes r.known es a b) ∨ (k = .implements ∧ Realizes r.relations es a b) := by
  choose found hfound hmem using exists_inferImplementations hjoin es
  have hall : (es.map ClassEntry.toValue).mapM (r.inferImplementations (es.map ClassEntry.toValue)) =
      .ok (es.map found) := by
    rw [mapM_map]
    exact mapM_ok fun e _ => hfound e
  refine ⟨inferCompositions r.known (types es) ++ es.flatMap found, ?_, fun v hv => ?_, fun a b k => ?_⟩
  · rw [infer, Value.items, ok_bind, typeTable_toValue, ok_bind, hall]
    rfl
  · rcases mem_append.mp hv with hv | hv
    · obtain ⟨a, b, _, rfl⟩ := mem_inferCompositions_iff.mp hv
      exact ⟨a, b, .composition, joins_inferred a b .composition⟩
    · obtain ⟨e, _, hv⟩ := mem_flatMap.mp hv
      obtain ⟨_, a, rfl, _⟩ := (hmem e v).mp hv
      exact ⟨a, e.name, .implements, joins_inferred a e.name .implements⟩
  · rw [shows_append]
    refine or_congr ⟨?_, ?_⟩ ⟨?_, ?_⟩
    · rintro ⟨v, hv, hjoins⟩
      obtain ⟨n, t, hcomposes, rfl⟩ := mem_inferCompositions_iff.mp hv
      obtain ⟨rfl, rfl, rfl⟩ := hjoins.unique (joins_inferred n t .composition)
      exact ⟨rfl, hcomposes⟩
    · rintro ⟨rfl, hcomposes⟩
      exact ⟨_, mem_inferCompositions_iff.mpr ⟨a, b, hcomposes, rfl⟩, joins_inferred a b .composition⟩
    · rintro ⟨v, hv, hjoins⟩
      obtain ⟨e, he, hv⟩ := mem_flatMap.mp hv
      obtain ⟨habstract, n, rfl, hshows, hfirst⟩ := (hmem e v).mp hv
      obtain ⟨rfl, rfl, rfl⟩ := hjoins.unique (joins_inferred n e.name .implements)
      exact ⟨rfl, hshows, ⟨e, he, rfl, habstract⟩, hfirst⟩
    · rintro ⟨rfl, hshows, ⟨e, he, rfl, habstract⟩, hfirst⟩
      have hv := (hmem e _).mpr ⟨habstract, a, rfl, hshows, hfirst⟩
      exact ⟨_, mem_flatMap.mpr ⟨e, he, hv⟩, joins_inferred a e.name .implements⟩

end Register

end CodeAtlas
