import CodeAtlas.Proofs.Relations.Inference
import CodeAtlas.Proofs.Text.Occurrence

/-!
# Compositions that are inferred

A class is composed of the other known classes that its fields have as types.  Classes are read off loosely typed
entries, several of which may have the same name; the entry that comes last then decides alone.

* **`Register.infer_compositions_iff`**: which compositions are inferred, and when the entries of a name count alike.
-/

namespace CodeAtlas

open List Loose

/-! ### Types in fields -/

namespace Chars

theorem splitOn_of_mem {c : Char} {a : List Char} (ha : c ∉ a) (b : List Char) :
    splitOn [c] (a ++ c :: b) = a :: splitOn [c] b := by
  rw [splitOn_append, splitOn_of_not_mem ha, singleton_append]

theorem takeWhile_ne_of_not_mem {c : Char} {a : List Char} (ha : c ∉ a) : a.takeWhile (· != c) = a := by
  rw [takeWhile_eq_self_iff]
  exact fun d hd => bne_iff_ne.mpr (ne_of_mem_of_not_mem hd ha)

theorem headD_splitOn (c : Char) (s : List Char) : (splitOn [c] s).headD [] = s.takeWhile (· != c) := by
  by_cases hc : c ∈ s
  · obtain ⟨a, b, rfl, ha⟩ := eq_append_cons_of_mem hc
    have hfirst : (c :: b).takeWhile (· != c) = [] := takeWhile_cons_of_neg (by simp)
    rw [splitOn_of_mem ha, headD_cons, takeWhile_append_of_pos fun d hd => ?_, hfirst, append_nil]
    exact takeWhile_eq_self_iff.mp (takeWhile_ne_of_not_mem ha) d hd
  · rw [splitOn_of_not_mem hc, headD_cons, takeWhile_ne_of_not_mem hc]

/-- Trimming a text before it is cut makes no difference, if it is not cut at a blank. -/
theorem trim_takeWhile_trim {p : Char → Bool} (hp : ∀ c, isBlank c → p c) (s : List Char) :
    trim ((trim s).takeWhile p) = trim (s.takeWhile p) := by
  have hkept : ∀ t, isBlankOnly t → ∀ c ∈ t, p c := fun t ht c hc => hp c (all_eq_true.mp ht c hc)
  have hstart : trim ((trimStart s).takeWhile p) = trim (s.takeWhile p) := by
    have hsplit : s.takeWhile isBlank ++ trimStart s = s := takeWhile_append_dropWhile
    have hblank : isBlankOnly (s.takeWhile isBlank) := all_takeWhile
    generalize s.takeWhile isBlank = w at hsplit hblank
    rw [← hsplit, takeWhile_append_of_pos (hkept w hblank), hsplit, ← trim_trimStart (w ++ _), trimStart_append,
      if_pos hblank, trim_trimStart]
  obtain ⟨t, hsplit, hblank⟩ := exists_trimEnd_append (trimStart s)
  have hend : (trimStart s).takeWhile p = (trim s ++ t).takeWhile p := congrArg (List.takeWhile p) hsplit
  rw [← hstart, hend, takeWhile_append]
  split
  next hlength =>
    have hself : (trim s).takeWhile p = trim s := (List.takeWhile_prefix p).eq_of_length hlength
    rw [hself, takeWhile_eq_self_iff.mpr (hkept t hblank), trim_append_of_blank hblank]
  next => rfl

end Chars

namespace Text

theorem toList_headD_splitOn (s : String) (c : Char) :
    ((splitOn s (String.singleton c)).headD "").toList = s.toList.takeWhile (· != c) := by
  rw [← Chars.headD_splitOn, splitOn, String.toList_singleton]
  cases Chars.splitOn [c] s.toList with
  | nil => rfl
  | cons p ps => exact String.toList_ofList

end Text

namespace Register

def NamesType (field type : String) : Prop :=
  ∃ before after, field.toList = before ++ ':' :: after ∧ ':' ∉ before ∧
    type.toList = Chars.trim (after.takeWhile fun c => c != ':' && c != '<' && c != '[')

theorem toList_fieldType {field : String} {before after : List Char} (h : field.toList = before ++ ':' :: after)
    (hbefore : ':' ∉ before) : (fieldType field).toList =
      Chars.trim (after.takeWhile fun c => c != ':' && c != '<' && c != '[') := by
  have hsecond : ((Text.splitOn field ":")[1]?.getD "").toList = after.takeWhile (· != ':') := by
    have hpieces : Text.splitOn field ":" = (before :: Chars.splitOn [':'] after).map String.ofList := by
      rw [← Chars.splitOn_of_mem hbefore, ← h]
      rfl
    rw [hpieces, ← Chars.headD_splitOn]
    cases Chars.splitOn [':'] after with
    | nil => rfl
    | cons p ps => exact String.toList_ofList
  have hblank : ∀ c, isBlank c → (c != '[' && c != '<') := by
    intro c hc
    rw [Bool.and_eq_true, bne_iff_ne, bne_iff_ne]
    constructor <;> rintro rfl <;> revert hc <;> decide
  have hcut : ∀ s : List Char, (s.takeWhile (· != '<')).takeWhile (· != '[') =
      s.takeWhile fun c => c != '[' && c != '<' := by
    intro s
    simp only [takeWhile_takeWhile, Bool.decide_and, Bool.decide_eq_true]
  calc (fieldType field).toList
    _ = Chars.trim (((Chars.trim (after.takeWhile (· != ':'))).takeWhile (· != '<')).takeWhile (· != '[')) := by
      rw [← hsecond, ← Text.toList_trim, ← Text.toList_headD_splitOn, ← Text.toList_headD_splitOn, ← Text.toList_trim]
      rfl
    _ = Chars.trim ((after.takeWhile (· != ':')).takeWhile fun c => c != '[' && c != '<') := by
      rw [hcut, Chars.trim_takeWhile_trim hblank]
    _ = _ := by
      simp only [takeWhile_takeWhile, Bool.decide_and, Bool.decide_eq_true]
      congr 2
      funext c
      ac_rfl

theorem namesType_iff {field type : String} :
    NamesType field type ↔ Text.contains field ":" ∧ fieldType field = type := by
  have hcolon : Text.contains field ":" ↔ ':' ∈ field.toList :=
    Chars.contains_iff.trans (singleton_infix_iff ':' field.toList)
  rw [hcolon]
  constructor
  · rintro ⟨before, after, hfield, hbefore, htype⟩
    refine ⟨by simp [hfield], ?_⟩
    rw [← String.toList_inj, htype, toList_fieldType hfield hbefore]
  · rintro ⟨hmem, rfl⟩
    obtain ⟨before, after, hfield, hbefore⟩ := eq_append_cons_of_mem hmem
    exact ⟨before, after, hfield, hbefore, toList_fieldType hfield hbefore⟩

end Register

/-! ### Class entries -/

namespace Value

/-- A class entry: its name is a text, and so is each field that it lists. -/
structure IsClass (v : Value) : Prop where
  name : ∃ n, v.field? "class" = some (.text n)
  fields : ∀ w, v.field? "fields" = some w → ∃ fs, w = .texts fs

def entry (v : Value) : ClassEntry := { name := v.textAt "class", fields := v.textsAt "fields" }

variable {v : Value}

theorem IsClass.isRecord (h : v.IsClass) : v.isRecord := by
  obtain ⟨n, hn⟩ := h.name
  exact isRecord_of_field? hn

theorem IsClass.field_class (h : v.IsClass) : v.field "class" = .ok (.text v.entry.name) := by
  obtain ⟨n, hn⟩ := h.name
  rw [field_of_field? hn, entry, textAt_of_field? hn]

theorem IsClass.getD_fields (h : v.IsClass) : v.getD "fields" (.list []) = .ok (.texts v.entry.fields) := by
  rw [getD_eq_field? h.isRecord]
  cases hfields : v.field? "fields" with
  | none =>
    have hnone : v.textsAt "fields" = [] := by rw [textsAt, part, hfields]; rfl
    rw [entry, hnone]
    rfl
  | some w =>
    obtain ⟨fs, rfl⟩ := h.fields w hfields
    rw [entry, textsAt_of_field? hfields, Option.getD_some]

end Value

namespace ClassEntry

def HasFieldOf (e : ClassEntry) (type : String) : Prop := ∃ f ∈ e.fields, Register.NamesType f type

theorem mem_fieldTypes_iff {e : ClassEntry} {type : String} : type ∈ e.fieldTypes ↔ e.HasFieldOf type := by
  simp only [fieldTypes, mem_filterMap, HasFieldOf, Register.namesType_iff, Option.ite_none_right_eq_some,
    Option.some.injEq]

end ClassEntry

namespace Register

open ClassEntry

theorem fieldTypes_of_isClass {v : Value} (h : v.IsClass) :
    fieldTypes v = .ok (Text.ascendingSet v.entry.fieldTypes) := fieldTypes_of_getD h.getD_fields

variable {es : List Value} {r : Register} (known : List Atom)

theorem typeTable_of_isClass (hes : ∀ e ∈ es, e.IsClass) : typeTable es = .ok (types (es.map Value.entry)) := by
  have htable := typeTable_map (v := id) (fun e he => (hes e he).field_class) fun e he =>
    fieldTypes_of_isClass (hes e he)
  rwa [map_id] at htable

/-! ### Inference on class entries -/

theorem exists_classNamed? (hes : ∀ e ∈ es, e.IsClass) (name : Value) :
    ∃ o, classNamed? name es = .ok o ∧ ∀ c ∈ o, c ∈ es := by
  induction es with
  | nil => exact ⟨none, rfl, by simp⟩
  | cons e es ih =>
    obtain ⟨he, hes⟩ := forall_mem_cons.mp hes
    rw [classNamed?, he.field_class, ok_bind]
    split
    · exact ⟨some e, rfl, by simp⟩
    · obtain ⟨o, ho, hmem⟩ := ih hes
      exact ⟨o, ho, fun c hc => mem_cons_of_mem e (hmem c hc)⟩

theorem exists_inferImplementations_of_records (hrelations : ∀ v ∈ r.relations, v.isRecord) (hes : ∀ e ∈ es, e.IsClass)
    {cls : Value} (hcls : cls.IsClass) :
    ∃ vs, r.inferImplementations es cls = .ok vs ∧ ∀ v ∈ vs, ∃ a b, v = inferred a b "implements" := by
  unfold inferImplementations
  rw [hcls.field_class, ok_bind, Value.getD_eq_field? hcls.isRecord, ok_bind]
  split
  · exact ⟨[], rfl, by simp⟩
  refine exists_mapM_flatten fun v hv => ?_
  simp only [Value.get_eq_part (hrelations v hv), ok_bind]
  split
  · obtain ⟨o, ho, hmem⟩ := exists_classNamed? hes (v.part "from")
    rw [ho, ok_bind]
    cases o with
    | none => exact ⟨[], rfl, by simp⟩
    | some c =>
      have hc : c.isRecord := (hes c (hmem c rfl)).isRecord
      simp only [Value.getD_eq_field? hc, ok_bind]
      split
      · exact ⟨_, rfl, fun w hw => ⟨_, _, mem_singleton.mp hw⟩⟩
      · exact ⟨[], rfl, by simp⟩
  · exact ⟨[], rfl, by simp⟩

def compositions (vs : List Value) : List (Value × Value) :=
  (vs.filter fun v => (v.part "type").isText "composition").map fun v => (v.part "from", v.part "to")

theorem compositions_append (vs ws : List Value) : compositions (vs ++ ws) = compositions vs ++ compositions ws := by
  simp [compositions]

def composedPairs (known : List Atom) (table : List (Atom × List String)) : List (Value × Value) :=
  table.flatMap fun e => (e.2.filter fun t => (Atom.text t).isIn known && !(Atom.text t).same e.1).map fun t =>
    (.atom e.1, .text t)

theorem compositions_inferCompositions (table : List (Atom × List String)) :
    compositions (inferCompositions known table) = composedPairs known table := by
  have hkind : ∀ a b, ((inferred a b "composition").part "type").isText "composition" := fun _ _ => rfl
  simp only [compositions, inferCompositions, composedPairs, filter_flatMap, map_flatMap, filter_map, map_map,
    Function.comp_def, hkind, filter_true]
  rfl

theorem nodup_composedPairs (es : List ClassEntry) : (composedPairs known (types es)).Nodup := by
  rw [composedPairs, nodup_flatMap]
  constructor
  · intro e he
    obtain ⟨a, c, _, rfl⟩ := mem_types_iff.mp he
    refine ((Text.ascendingSet_nodup _).filter _).map fun s t hst => ?_
    simpa [Value.text] using hst
  · -- entries of the table differ in their names
    refine (pairwise_map.mp (nodup_types es)).imp fun {e f} hne => ?_
    rintro p he hf
    obtain ⟨s, _, rfl⟩ := mem_map.mp he
    obtain ⟨t, _, heq⟩ := mem_map.mp hf
    simp only [Prod.mk.injEq, Value.atom.injEq] at heq
    exact hne heq.1.symm

theorem mem_composedPairs_iff {known : List Atom} {es : List ClassEntry} {p : Value × Value} :
    p ∈ composedPairs known (types es) ↔ ∃ a b, p = (.text a, .text b) ∧ Composes known es a b := by
  simp only [← compositions_inferCompositions, compositions, mem_map, mem_filter, mem_inferCompositions_iff]
  constructor
  · rintro ⟨_, ⟨⟨a, b, h, rfl⟩, _⟩, rfl⟩
    exact ⟨a, b, rfl, h⟩
  · rintro ⟨a, b, rfl, h⟩
    exact ⟨_, ⟨⟨a, b, h, rfl⟩, rfl⟩, rfl⟩

theorem compositions_of_implementations {vs : List Value} (h : ∀ v ∈ vs, ∃ a b, v = inferred a b "implements") :
    compositions vs = [] := by
  rw [compositions, map_eq_nil_iff, filter_eq_nil_iff]
  intro v hv
  obtain ⟨a, b, rfl⟩ := h v hv
  exact Bool.false_ne_true

/-- **Inference succeeds on class entries**, whatever relations are held. -/
theorem exists_infer_of_records (hrelations : ∀ v ∈ r.relations, v.isRecord)
    (hes : ∀ e ∈ es, e.IsClass) : ∃ vs, r.infer (.list es) = .ok vs ∧
      compositions vs = composedPairs r.known (types (es.map Value.entry)) := by
  obtain ⟨ws, hws, himplements⟩ := exists_mapM_flatten fun e he =>
    exists_inferImplementations_of_records hrelations hes (hes e he)
  obtain ⟨found, hfound, hflat⟩ := of_bind hws
  cases hflat
  refine ⟨inferCompositions r.known (types (es.map Value.entry)) ++ found.flatten, ?_, ?_⟩
  · rw [infer, Value.items, ok_bind, typeTable_of_isClass hes, ok_bind, hfound]
    rfl
  · rw [compositions_append, compositions_inferCompositions, compositions_of_implementations himplements, append_nil]

def ComposesAny (known : List Atom) (es : List ClassEntry) (a b : String) : Prop :=
  .text b ∈ known ∧ b ≠ a ∧ ∃ e ∈ es, e.name = a ∧ e.HasFieldOf b

/-- **Which compositions are inferred.**  On class entries inference succeeds, and lists each pair once: those of a
class and another known class of which the last entry of its name has a field.  All entries of a name count only where
the last one has a field of each known class of which an earlier one has a field. -/
theorem infer_compositions_iff (r : Register) (hrelations : ∀ v ∈ r.relations, v.isRecord = true) (es : List Value)
    (hes : ∀ e ∈ es, e.IsClass) :
    ∃ vs, r.infer (.list es) = .ok vs ∧ (compositions vs).Nodup ∧
      (∀ p, p ∈ compositions vs ↔ ∃ a b, p = (.text a, .text b) ∧ .text b ∈ r.known ∧ b ≠ a ∧
        ∃ e, lastNamed? a (es.map Value.entry) = some e ∧ e.HasFieldOf b) ∧
      ((∀ p, p ∈ compositions vs ↔ ∃ a b, p = (.text a, .text b) ∧ ComposesAny r.known (es.map Value.entry) a b) ↔
        ∀ a b, ComposesAny r.known (es.map Value.entry) a b →
          ∃ e, lastNamed? a (es.map Value.entry) = some e ∧ e.HasFieldOf b) := by
  obtain ⟨vs, hvs, hpairs⟩ := exists_infer_of_records hrelations hes
  have hlast : ∀ p, p ∈ compositions vs ↔ ∃ a b, p = (.text a, .text b) ∧ .text b ∈ r.known ∧ b ≠ a ∧
      ∃ e, lastNamed? a (es.map Value.entry) = some e ∧ e.HasFieldOf b := by
    intro p
    simp only [hpairs, mem_composedPairs_iff, Composes, mem_fieldTypes_iff]
  refine ⟨vs, hvs, by rw [hpairs]; exact nodup_composedPairs _ _, hlast, ?_, ?_⟩
  · intro hany a b hab
    obtain ⟨a', b', heq, _, _, hfield⟩ := (hlast (.text a, .text b)).mp ((hany _).mpr ⟨a, b, rfl, hab⟩)
    cases heq
    exact hfield
  · intro hcovers p
    rw [hlast]
    constructor
    · rintro ⟨a, b, rfl, hknown, hne, e, he, hfield⟩
      exact ⟨a, b, rfl, hknown, hne, e, (mem_of_lastNamed? he).1, (mem_of_lastNamed? he).2, hfield⟩
    · rintro ⟨a, b, rfl, hab⟩
      exact ⟨a, b, rfl, hab.1, hab.2.1, hcovers a b hab⟩

def classWith (name : String) (fields : List String) : Value :=
  .ofFields [("class", .text name), ("fields", .texts fields)]

theorem classWith_isClass (name : String) (fields : List String) : (classWith name fields).IsClass :=
  ⟨⟨name, rfl⟩, fun _ hw => ⟨fields, (Option.some.inj hw).symm⟩⟩

def shop : Register where
  relations := [inferred (.text "Goods") (.text "Item") "extends"]
  known := [.text "Order", .text "Item"]

theorem shop_isRecord : ∀ v ∈ shop.relations, v.isRecord := by
  simp [shop, inferred, Value.ofFields, Value.isRecord]

def shopClasses : List Value :=
  [classWith "Order" ["id: int"], classWith "Item" [], classWith "Order" ["id", "items: Item<Goods> [ ]: many"]]

theorem infer_compositions_iff_shop :
    (∀ v ∈ shop.relations, v.isRecord = true) ∧ (∀ e ∈ shopClasses, e.IsClass) ∧
      ∃ vs, shop.infer (.list shopClasses) = .ok vs ∧ (.text "Order", .text "Item") ∈ compositions vs ∧
        ∀ p, p ∈ compositions vs ↔ ∃ a b, p = (.text a, .text b) ∧
          ComposesAny shop.known (shopClasses.map Value.entry) a b := by
  have hclasses : ∀ e ∈ shopClasses, e.IsClass := by
    simp only [shopClasses, List.forall_mem_cons]
    exact ⟨classWith_isClass .., classWith_isClass .., classWith_isClass .., by simp⟩
  obtain ⟨vs, hvs, _, hlast, hall⟩ := infer_compositions_iff shop shop_isRecord shopClasses hclasses
  have horder : lastNamed? "Order" (shopClasses.map Value.entry) =
      some (classWith "Order" ["id", "items: Item<Goods> [ ]: many"]).entry := rfl
  have hitem : (classWith "Order" ["id", "items: Item<Goods> [ ]: many"]).entry.HasFieldOf "Item" := by
    rw [← mem_fieldTypes_iff]
    decide +kernel
  refine ⟨shop_isRecord, hclasses, vs, hvs,
    (hlast _).mpr ⟨"Order", "Item", rfl, by simp [shop], by decide, _, horder, hitem⟩, hall.mpr ?_⟩
  rintro a b ⟨hknown, _, e, he, rfl, hfield⟩
  have htypes : ∀ e ∈ shopClasses.map Value.entry, ∀ b ∈ e.fieldTypes, b = "int" ∨ e.name = "Order" ∧ b = "Item" := by
    decide +kernel
  rcases htypes e he b (mem_fieldTypes_iff.mpr hfield) with rfl | ⟨hname, rfl⟩
  · simp [shop] at hknown
  · exact ⟨_, hname ▸ horder, hitem⟩

/-- An order has an item by the first entry of its name, and no composition is inferred. -/
theorem infer_forgets_composition :
    ComposesAny shop.known ([classWith "Order" ["item: Item"], classWith "Order" []].map Value.entry) "Order" "Item" ∧
      ∃ vs, shop.infer (.list [classWith "Order" ["item: Item"], classWith "Order" []]) = .ok vs ∧
        compositions vs = [] := by
  constructor
  · refine ⟨by simp [shop], by decide, _, List.mem_cons_self, rfl, ?_⟩
    rw [← mem_fieldTypes_iff]
    decide +kernel
  · have hclasses : ∀ e ∈ [classWith "Order" ["item: Item"], classWith "Order" []], e.IsClass := by
      simp only [List.forall_mem_cons]
      exact ⟨classWith_isClass .., classWith_isClass .., by simp⟩
    obtain ⟨vs, hvs, hpairs⟩ := exists_infer_of_records shop_isRecord hclasses
    refine ⟨vs, hvs, List.eq_nil_iff_forall_not_mem.mpr fun p hp => ?_⟩
    rw [hpairs, mem_composedPairs_iff] at hp
    obtain ⟨a, b, _, _, _, e, he, hb⟩ := hp
    have hnames : ∀ e ∈ [classWith "Order" ["item: Item"], classWith "Order" []].map Value.entry, e.name = "Order" := by
      decide
    obtain rfl : "Order" = a := (hnames e (mem_of_lastNamed? he).1).symm.trans (mem_of_lastNamed? he).2
    cases he
    cases hb

end Register

end CodeAtlas
