import CodeAtlas.Proofs.Enrichment.Preservation

/-!
# When items can be told apart

The key of an item is looked up among those met before, which only keys made of atoms allow.  Where no key can be built
the text of the item stands in for it; where a key is built from a list or a record nothing does.

* **`Merge.distinctItems_returns_iff`**: for which items the first ones of each key are found, and that these are all
  that is found.
-/

namespace CodeAtlas.Merge

open ItemKey

/-- The fields that a key is made of, by the heading of the list: of each group the first one that counts as present, or
else the last one. -/
def keyFields : List (String × List (List String)) := [
  ("endpoints", [["method"], ["path"], ["controller", "class"]]),
  ("usecases", [["name", "action"], ["actor", "actors"], ["goal"]]),
  ("sequence_flows", [["from", "initiator"], ["to", "receiver"], ["message", "action"]]),
  ("activity", [["step", "name"]]), ("states", [["context", "class"]]),
  ("patterns", [["type"]]), ("layers", [["name"]])]

/-- The value of the first field that counts as present, or else of the last one. -/
def choice (item : Value) : List String → Value
  | [] => .null
  | [name] => item.part name
  | name :: names => (item.part name).orElse (choice item names)

/-- The classes of an item, by which only patterns and layers are told apart. -/
def keyMembers (heading : String) (item : Value) : Loose (List Value) :=
  if heading = "patterns" ∨ heading = "layers" then ((item.part "classes").orElse (.list [])).items else .ok []

/-- The values that a key is made of.  There are none for what is no record, and where classes cannot be gone
through. -/
def keyValues? (heading : String) (item : Value) : Option (List Value) :=
  match item, keyMembers heading item with
  | .record _, .ok members => some (((keyFields.lookup heading).getD []).map (choice item) ++ members)
  | _, _ => none

/-- Whether the key of an item holds a list or a record. -/
def hasCompoundKey (heading : String) (item : Value) : Bool :=
  (keyValues? heading (recordOf item)).any fun vs => vs.any (!·.isAtom)

theorem values_ofGroup {heading name : String} (hgroup : heading = "patterns" ∨ heading = "layers")
    (hfields : keyFields.lookup heading = some [[name]]) (item : Value) :
    (ofGroup name item).toOption.map values = keyValues? heading (recordOf item) := by
  simp only [ofGroup]
  cases recordOf item with
  | atom a => rfl
  | list xs => rfl
  | record fs =>
    unfold keyValues? keyMembers
    rw [if_pos hgroup, hfields, Value.get_eq_part (v := .record fs) rfl, Loose.ok_bind,
      Value.get_eq_part (v := .record fs) rfl, Loose.ok_bind]
    cases (((Value.record fs).part "classes").orElse (.list [])).items <;> rfl

/-- The values that a key is made of are those of the fields; there are none exactly where no key can be built. -/
theorem values_key {l : ItemList} (hl : l ∈ itemLists) (item : Value) :
    (l.key item).toOption.map values = keyValues? l.heading (recordOf item) := by
  simp only [itemLists, List.mem_cons, List.not_mem_nil, or_false] at hl
  rcases hl with rfl | rfl | rfl | rfl | rfl | rfl | rfl
  case inr.inr.inr.inr.inr.inl => exact values_ofGroup (.inl rfl) rfl item
  case inr.inr.inr.inr.inr.inr => exact values_ofGroup (.inr rfl) rfl item
  all_goals
    simp only [ofEndpoint, ofUseCase, ofFlow, ofStep, ofStates, either]
    cases recordOf item <;> rfl

theorem isAtomic_keyOf_iff {l : ItemList} (hl : l ∈ itemLists) (item : Value) :
    (keyOf l.key item).IsAtomic ↔ hasCompoundKey l.heading item = false := by
  have hatom : ∀ v : Value, (∃ a, v = .atom a) ↔ v.isAtom := fun v => by cases v <;> simp [Value.isAtom]
  rw [hasCompoundKey, ← values_key hl, keyOf]
  cases l.key item with
  | error e => exact iff_of_true (isAtomic_ofText item) rfl
  | ok k => simp [Except.toOption, ItemKey.IsAtomic, hatom]

/-- **Items can be told apart exactly when none of their keys holds a list or a record**, and the items that are kept
are then those before which no item has their key. -/
theorem distinctItems_returns_iff {l : ItemList} (hl : l ∈ itemLists) (items : List Value) :
    ((∃ us, distinctItems l.key [] items = .ok us) ↔ ∀ i ∈ present items, hasCompoundKey l.heading i = false) ∧
      ∀ us, distinctItems l.key [] items = .ok us →
        IsSelection (IsFirstAt (keyOf l.key) ItemKey.same (present items)) (present items) us := by
  have hok : ∀ us, distinctItems l.key [] items = .ok us ↔
      (∀ i ∈ present items, hasCompoundKey l.heading i = false) ∧ us = firstItems l.key items := by
    intro us
    simp only [distinctItems_ok_iff, isAtomic_keyOf_iff hl]
    rfl
  constructor
  · simp [hok]
  · intro us hus
    obtain ⟨hall, rfl⟩ := (hok us).mp hus
    have hatomic : ∀ i ∈ present items, (keyOf l.key i).IsAtomic :=
      fun i hi => (isAtomic_keyOf_iff hl i).mpr (hall i hi)
    exact firsts_isSelection (fun i hi => ItemKey.same_self (hatomic i hi)) fun i hi j hj k hk =>
      ItemKey.same_trans (hatomic i hi) (hatomic j hj) (hatomic k hk)

/-- Patterns of many kinds: texts, numbers, groups whose classes cannot be gone through, and a pattern that is
repeated. -/
def patterns : List Value := [.text "Singleton", .null, .ofFields [("type", .list []), ("classes", .int 3)],
  .ofFields [("type", .text "Factory"), ("classes", .texts ["A", "B"])], .int 0, .text "Singleton",
  .ofFields [("classes", .texts ["A", "B"]), ("type", .text "Factory"), ("note", .list [])]]

theorem distinctItems_returns_patterns : ∃ l ∈ itemLists, l.heading = "patterns" ∧
    (∀ i ∈ present patterns, hasCompoundKey l.heading i = false) ∧ ∃ us, distinctItems l.key [] patterns = .ok us := by
  let l : ItemList := ⟨"patterns", ItemKey.ofGroup "type", ["patterns"]⟩
  have hl : l ∈ itemLists := by simp [l, itemLists]
  have hall : ∀ i ∈ present patterns, hasCompoundKey l.heading i = false := by decide
  exact ⟨l, hl, rfl, hall, (distinctItems_returns_iff hl patterns).1.mpr hall⟩

/-- A step that is named by a list has a key, which cannot be looked up. -/
theorem distinctItems_compound_step : ∃ l ∈ itemLists, l.heading = "activity" ∧
    distinctItems l.key [] [.ofFields [("step", .texts ["weigh"])]] = .error (.notKey "list") :=
  ⟨⟨"activity", ItemKey.ofStep, ["activity", "activity_flows"]⟩, by simp [itemLists], rfl, rfl⟩

end CodeAtlas.Merge
