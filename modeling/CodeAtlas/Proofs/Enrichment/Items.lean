import CodeAtlas.Proofs.Enrichment.Assembly
import CodeAtlas.Proofs.Value.Firsts

/-!
# The items of a merged schema

Items of other kinds than classes and relations are told apart by keys, which are made of atoms.

* `ItemKey.same_self`: keys made of atoms are the same as themselves;
* `Merge.distinctItems_ok_iff`: items are made distinct exactly when all their keys are made of atoms, and what stays
  are the first ones of each key;
* `Merge.itemsIn_eq`: the items that a record lists under some names.
-/

namespace CodeAtlas

open Loose

/-! ### Keys -/

namespace ItemKey

def IsAtomic (k : ItemKey) : Prop := ∀ v ∈ k.values, ∃ a, v = .atom a

theorem mapM_key_ok_iff {vs : List Value} : (∃ as, vs.mapM Value.key = .ok as) ↔ ∀ v ∈ vs, ∃ a, v = .atom a := by
  constructor
  · rintro ⟨as, has⟩ v hv
    obtain ⟨a, _, ha⟩ := exists_of_mapM has hv
    exact ⟨a, Value.eq_atom_of_key ha⟩
  · intro h
    refine exists_mapM_ok fun v hv => ?_
    obtain ⟨a, rfl⟩ := h v hv
    exact ⟨a, rfl⟩

theorem sameList_self {vs : List Value} (h : ∀ v ∈ vs, ∃ a, v = .atom a) : Value.sameList vs vs := by
  induction vs with
  | nil => rw [Value.sameList]
  | cons v vs ih =>
    obtain ⟨a, rfl⟩ := h v List.mem_cons_self
    rw [Value.sameList, Value.same, Atom.same_self, ih fun w hw => h w (List.mem_cons_of_mem _ hw), Bool.true_and]

theorem same_self {k : ItemKey} (h : k.IsAtomic) : k.same k := by
  cases k with
  | whole v =>
    obtain ⟨a, rfl⟩ := h v List.mem_cons_self
    rw [same, Value.same, Atom.same_self]
  | parts vs ms =>
    rw [same, sameList_self fun v hv => h v (List.mem_append_left _ hv),
      sameList_self fun v hv => h v (List.mem_append_right _ hv), Bool.true_and]

theorem isAtomic_ofText (item : Value) : (ofText item).IsAtomic := by
  intro v hv
  rw [List.mem_singleton.mp hv]
  exact ⟨_, rfl⟩

end ItemKey

namespace Merge

variable {key : Value → Loose ItemKey} {ast ai m : Value}

/-! ### Distinct items -/

def present (items : List Value) : List Value := items.filter (!·.isNull)

def firstItems (key : Value → Loose ItemKey) (items : List Value) : List Value :=
  firsts (keyOf key) ItemKey.same (present items)

theorem present_cons_null {item : Value} (h : item.isNull) (items : List Value) :
    present (item :: items) = present items := by
  simp [present, h]

theorem present_cons {item : Value} (h : item.isNull = false) (items : List Value) :
    present (item :: items) = item :: present items := by
  simp [present, h]

theorem present_append (as bs : List Value) : present (as ++ bs) = present as ++ present bs := List.filter_append _ _

theorem distinctItems_ok_iff {seen : List ItemKey} {items us : List Value} : distinctItems key seen items = .ok us ↔
    (∀ i ∈ present items, (keyOf key i).IsAtomic) ∧ us = firstsFrom (keyOf key) ItemKey.same seen (present items) := by
  induction items generalizing seen us with
  | nil =>
    rw [distinctItems, pure_ok_iff]
    simp [present, firstsFrom, eq_comm]
  | cons item items ih =>
    unfold distinctItems
    dsimp only
    cases hnull : item.isNull with
    | true =>
      rw [if_pos rfl, present_cons_null hnull]
      exact ih
    | false =>
      rw [if_neg (by decide), present_cons hnull]
      by_cases hatoms : (keyOf key item).IsAtomic
      · obtain ⟨as, has⟩ := ItemKey.mapM_key_ok_iff.mpr hatoms
        rw [has, ok_bind, List.forall_mem_cons]
        cases hmet : seen.any (·.same (keyOf key item)) with
        | true =>
          rw [if_pos rfl, ih, firstsFrom_cons_met hmet]
          simp only [hatoms, true_and]
        | false =>
          rw [if_neg (by decide), firstsFrom_cons_new hmet, bind_ok_iff]
          simp only [hatoms, true_and, ih, pure_ok_iff]
          grind
      · constructor
        · intro h
          obtain ⟨as, has, _⟩ := of_bind h
          exact absurd (ItemKey.mapM_key_ok_iff.mp ⟨as, has⟩) hatoms
        · rintro ⟨hall, _⟩
          exact absurd (hall item List.mem_cons_self) hatoms

theorem distinctTexts_ok (items : List Value) : ∃ us, distinctTexts items = .ok us :=
  ⟨_, distinctItems_ok_iff.mpr ⟨fun i _ => ItemKey.isAtomic_ofText i, rfl⟩⟩

theorem present_firstItems (items : List Value) : present (firstItems key items) = firstItems key items := by
  rw [present, List.filter_eq_self]
  intro i hi
  exact (List.mem_filter.mp (mem_of_mem_firsts hi)).2

/-- Going once more through what was kept, and through items that were gone through, keeps what was kept. -/
theorem distinctItems_again {as bs us : List Value} (h : distinctItems key [] (as ++ bs) = .ok us) :
    distinctItems key [] (us ++ bs) = .ok us := by
  obtain ⟨hall, hus⟩ := distinctItems_ok_iff.mp h
  have hfirst : us = firstItems key (as ++ bs) := hus
  rw [distinctItems_ok_iff, present_append, hfirst, present_firstItems]
  constructor
  · intro i hi
    rcases List.mem_append.mp hi with hi | hi
    · exact hall i (mem_of_mem_firsts hi)
    · exact hall i (by rw [present_append]; exact List.mem_append_right _ hi)
  · rw [firstItems, present_append]
    refine (firsts_again fun b hb => ItemKey.same_self (hall b ?_)).symm
    rw [present_append]
    exact List.mem_append_right _ hb

/-! ### Lists of items -/

theorem itemsIn_eq {schema : Value} (h : schema.isRecord) (names : List String) :
    itemsIn schema names = .ok (names.flatMap schema.listAt) := by
  unfold itemsIn
  rw [mapM_ok (g := schema.listAt), ok_bind, List.flatMap]
  · rfl
  · intro n _
    rw [Value.get_eq_part h, ok_bind, Value.listAt]
    cases schema.part n <;> rfl

theorem itemsOf_ok_iff (hast : ast.isRecord) (hai : ai.isRecord) {names : List String} {v : Value} :
    itemsOf key names ast ai = .ok v ↔
      ∃ us, distinctItems key [] (names.flatMap ast.listAt ++ names.flatMap ai.listAt) = .ok us ∧ v = .list us := by
  rw [itemsOf, itemsIn_eq hast, ok_bind, itemsIn_eq hai, ok_bind, bind_ok_iff]
  refine exists_congr fun us => and_congr_right fun _ => ?_
  rw [pure_ok_iff, eq_comm]

/-- **Merging items a second time changes nothing**, when the merged schema lists them under one of their names. -/
theorem itemsOf_again {names : List String} {us : List Value} (hast : ast.isRecord) (hai : ai.isRecord)
    (hm : m.isRecord) (hlist : names.flatMap m.listAt = us) (h : itemsOf key names ast ai = .ok (.list us)) :
    itemsOf key names m ai = .ok (.list us) := by
  obtain ⟨ws, hws, heq⟩ := (itemsOf_ok_iff hast hai).mp h
  cases heq
  refine (itemsOf_ok_iff hm hai).mpr ⟨us, ?_, rfl⟩
  rw [hlist]
  exact distinctItems_again hws

end Merge

end CodeAtlas
