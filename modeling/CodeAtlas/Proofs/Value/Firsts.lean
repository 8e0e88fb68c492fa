import Mathlib.Data.List.Induction
import Mathlib.Data.List.Nodup
import Mathlib.Data.List.Pairwise

/-!
# First occurrences

Items that are told apart by a key are made distinct by keeping the first item of each key.

* `firstsFrom key same seen items`: the items whose key is new, when the keys `seen` were met before; `firsts` starts
  with no key;
* `firsts_filter`, `firsts_append_firsts`: leaving keys out before or after comes to the same, and so does keeping the
  first items of a part before those of the whole;
* **`firsts_again`**: going once more through what was kept, followed by items that were gone through already, keeps
  exactly what was kept;
* `IsSelection`, **`firsts_isSelection`**: what is kept are the items at the positions before which no item has their
  key;
* `nodup_eraseDups`, `eraseDups_concat_of_not_mem`, `eraseDups_append_of_subset`: the same for the elements of a list
  themselves.
-/

namespace CodeAtlas

open List

section

variable {α κ : Type} {key : α → κ} {same : κ → κ → Bool} {seen : List κ} {as bs : List α}

def firstsFrom (key : α → κ) (same : κ → κ → Bool) (seen : List κ) : List α → List α
  | [] => []
  | a :: as =>
    if seen.any (same · (key a)) then firstsFrom key same seen as
    else a :: firstsFrom key same (key a :: seen) as

/-- The first item of each key. -/
def firsts (key : α → κ) (same : κ → κ → Bool) (as : List α) : List α := firstsFrom key same [] as

variable {a : α} {p : α → Bool} {seen' : List κ}

theorem firstsFrom_cons_met (h : seen.any (same · (key a))) :
    firstsFrom key same seen (a :: as) = firstsFrom key same seen as := by
  rw [firstsFrom, if_pos h]

theorem firstsFrom_cons_new (h : seen.any (same · (key a)) = false) :
    firstsFrom key same seen (a :: as) = a :: firstsFrom key same (key a :: seen) as := by
  rw [firstsFrom, if_neg (by simp [h])]

theorem firstsFrom_sublist : (firstsFrom key same seen as).Sublist as := by
  induction as generalizing seen with
  | nil => exact .slnil
  | cons a as ih =>
    cases hmet : seen.any (same · (key a)) with
    | true =>
      rw [firstsFrom_cons_met hmet]
      exact .cons a ih
    | false =>
      rw [firstsFrom_cons_new hmet]
      exact .cons_cons a ih

theorem firstsFrom_append : firstsFrom key same seen (as ++ bs) = firstsFrom key same seen as ++
    firstsFrom key same ((firstsFrom key same seen as).reverse.map key ++ seen) bs := by
  induction as generalizing seen with
  | nil => rfl
  | cons a as ih =>
    rw [cons_append]
    cases hmet : seen.any (same · (key a)) with
    | true =>
      rw [firstsFrom_cons_met hmet, firstsFrom_cons_met hmet]
      exact ih
    | false =>
      rw [firstsFrom_cons_new hmet, firstsFrom_cons_new hmet, ih, reverse_cons, map_append, append_assoc]
      rfl

theorem not_same_of_mem_firstsFrom (ha : a ∈ firstsFrom key same seen as) {s : κ} (hs : s ∈ seen) :
    same s (key a) = false := by
  induction as generalizing seen with
  | nil => cases ha
  | cons b as ih =>
    cases hmet : seen.any (same · (key b)) with
    | true =>
      rw [firstsFrom_cons_met hmet] at ha
      exact ih ha hs
    | false =>
      rw [firstsFrom_cons_new hmet] at ha
      rcases mem_cons.mp ha with rfl | ha
      · exact Bool.eq_false_iff.mpr (any_eq_false.mp hmet s hs)
      · exact ih ha (mem_cons_of_mem _ hs)

theorem firstsFrom_pairwise :
    (firstsFrom key same seen as).Pairwise fun a b => same (key a) (key b) = false := by
  induction as generalizing seen with
  | nil => exact .nil
  | cons a as ih =>
    cases hmet : seen.any (same · (key a)) with
    | true =>
      rw [firstsFrom_cons_met hmet]
      exact ih
    | false =>
      rw [firstsFrom_cons_new hmet]
      exact .cons (fun b hb => not_same_of_mem_firstsFrom hb mem_cons_self) ih

theorem exists_same_of_mem (hrefl : same (key a) (key a)) (ha : a ∈ as) :
    ∃ s ∈ (firstsFrom key same seen as).reverse.map key ++ seen, same s (key a) := by
  induction as generalizing seen with
  | nil => cases ha
  | cons b as ih =>
    cases hmet : seen.any (same · (key b)) with
    | true =>
      rw [firstsFrom_cons_met hmet]
      rcases mem_cons.mp ha with rfl | ha
      · obtain ⟨s, hs, hsame⟩ := any_eq_true.mp hmet
        exact ⟨s, mem_append_right _ hs, hsame⟩
      · exact ih ha
    | false =>
      rw [firstsFrom_cons_new hmet, reverse_cons, map_append, append_assoc]
      rcases mem_cons.mp ha with rfl | ha
      · exact ⟨key a, by simp, hrefl⟩
      · exact ih ha

theorem firstsFrom_eq_self (hpair : as.Pairwise fun a b => same (key a) (key b) = false)
    (hnew : ∀ a ∈ as, ∀ s ∈ seen, same s (key a) = false) : firstsFrom key same seen as = as := by
  induction as generalizing seen with
  | nil => rfl
  | cons a as ih =>
    obtain ⟨hfirst, hrest⟩ := pairwise_cons.mp hpair
    have hmet : seen.any (same · (key a)) = false := by
      rw [any_eq_false]
      intro s hs
      simpa using hnew a mem_cons_self s hs
    rw [firstsFrom_cons_new hmet, ih hrest]
    intro b hb s hs
    rcases mem_cons.mp hs with rfl | hs
    · exact hfirst b hb
    · exact hnew b (mem_cons_of_mem _ hb) s hs

theorem firstsFrom_eq_nil (hmet : ∀ a ∈ as, ∃ s ∈ seen, same s (key a)) : firstsFrom key same seen as = [] := by
  induction as with
  | nil => rfl
  | cons a as ih =>
    rw [firstsFrom_cons_met (any_eq_true.mpr (hmet a mem_cons_self))]
    exact ih fun b hb => hmet b (mem_cons_of_mem _ hb)

/-- Leaving keys out before or after keeping the first items comes to the same: the keys met may differ in keys that are
left out. -/
theorem firstsFrom_filter (hp : ∀ a b, same (key a) (key b) → p a = p b)
    (hseen : ∀ a, p a → seen.any (same · (key a)) = seen'.any (same · (key a))) :
    (firstsFrom key same seen as).filter p = firstsFrom key same seen' (as.filter p) := by
  induction as generalizing seen seen' with
  | nil => rfl
  | cons a as ih =>
    cases hpa : p a with
    | false =>
      rw [filter_cons_of_neg (by simp [hpa])]
      cases hmet : seen.any (same · (key a)) with
      | true =>
        rw [firstsFrom_cons_met hmet]
        exact ih hseen
      | false =>
        rw [firstsFrom_cons_new hmet, filter_cons_of_neg (by simp [hpa])]
        refine ih fun b hb => ?_
        have hdiffer : same (key a) (key b) = false := by
          rw [← Bool.not_eq_true]
          intro hsame
          rw [hp a b hsame, hb] at hpa
          cases hpa
        rw [any_cons, hdiffer, Bool.false_or, hseen b hb]
    | true =>
      rw [filter_cons_of_pos hpa]
      cases hmet : seen.any (same · (key a)) with
      | true =>
        rw [firstsFrom_cons_met hmet, firstsFrom_cons_met (hseen a hpa ▸ hmet)]
        exact ih hseen
      | false =>
        rw [firstsFrom_cons_new hmet, firstsFrom_cons_new (hseen a hpa ▸ hmet), filter_cons_of_pos hpa]
        refine congrArg (a :: ·) (ih fun b hb => ?_)
        rw [any_cons, any_cons, hseen b hb]

/-- Items that were gone through already, with fewer keys met, are gone through as the items themselves are. -/
theorem firstsFrom_firstsFrom (htrans : ∀ k l m, same k l → same l m → same k m)
    (hseen : ∀ a, seen'.any (same · (key a)) → seen.any (same · (key a))) :
    firstsFrom key same seen (firstsFrom key same seen' as) = firstsFrom key same seen as := by
  induction as generalizing seen seen' with
  | nil => rfl
  | cons a as ih =>
    cases hmet' : seen'.any (same · (key a)) with
    | true =>
      rw [firstsFrom_cons_met hmet', firstsFrom_cons_met (hseen a hmet')]
      exact ih hseen
    | false =>
      rw [firstsFrom_cons_new hmet']
      cases hmet : seen.any (same · (key a)) with
      | true =>
        rw [firstsFrom_cons_met hmet, firstsFrom_cons_met hmet]
        refine ih fun b hb => ?_
        rw [any_cons, Bool.or_eq_true] at hb
        rcases hb with hb | hb
        · obtain ⟨s, hs, hsame⟩ := any_eq_true.mp hmet
          exact any_eq_true.mpr ⟨s, hs, htrans _ _ _ hsame hb⟩
        · exact hseen b hb
      | false =>
        rw [firstsFrom_cons_new hmet, firstsFrom_cons_new hmet]
        refine congrArg (a :: ·) (ih fun b hb => ?_)
        rw [any_cons, Bool.or_eq_true] at hb ⊢
        exact hb.imp_right (hseen b)

/-! ### From the start -/

theorem mem_of_mem_firsts (ha : a ∈ firsts key same as) : a ∈ as := firstsFrom_sublist.subset ha

theorem firsts_pairwise : (firsts key same as).Pairwise fun a b => same (key a) (key b) = false := firstsFrom_pairwise

theorem eq_of_mem_firsts {b : α} (ha : a ∈ firsts key same as) (hb : b ∈ firsts key same as)
    (hab : same (key a) (key b)) (hba : same (key b) (key a)) : a = b := by
  let R : α → α → Prop := fun a b => same (key a) (key b) = false ∨ same (key b) (key a) = false
  have hsymm : Std.Symm R := ⟨fun _ _ => Or.symm⟩
  have hpair : (firsts key same as).Pairwise R := firsts_pairwise.imp Or.inl
  by_contra hne
  rcases hpair.forall ha hb hne with hdiffer | hdiffer
  · rw [hab] at hdiffer
    cases hdiffer
  · rw [hba] at hdiffer
    cases hdiffer

theorem mem_keys_met {s : κ} :
    s ∈ (firstsFrom key same [] as).reverse.map key ++ [] ↔ ∃ a ∈ firsts key same as, key a = s := by
  simp [firsts]

theorem exists_mem_firsts (hrefl : same (key a) (key a)) (ha : a ∈ as) :
    ∃ b ∈ firsts key same as, same (key b) (key a) := by
  obtain ⟨s, hs, hsame⟩ := @exists_same_of_mem α κ key same [] as a hrefl ha
  obtain ⟨b, hb, rfl⟩ := mem_keys_met.mp hs
  exact ⟨b, hb, hsame⟩

theorem firsts_append (key : α → κ) (same : κ → κ → Bool) (as bs : List α) :
    ∃ cs, firsts key same (as ++ bs) = firsts key same as ++ cs ∧
      cs.Sublist bs ∧ ∀ c ∈ cs, ∀ a ∈ firsts key same as, same (key a) (key c) = false := by
  refine ⟨_, firstsFrom_append, firstsFrom_sublist, ?_⟩
  intro c hc a ha
  refine not_same_of_mem_firstsFrom hc (mem_append_left _ ?_)
  exact mem_map_of_mem (mem_reverse.mpr ha)

theorem firsts_filter (hp : ∀ a b, same (key a) (key b) → p a = p b) :
    (firsts key same as).filter p = firsts key same (as.filter p) := firstsFrom_filter hp fun _ _ => rfl

theorem firsts_append_firsts (htrans : ∀ k l m, same k l → same l m → same k m) :
    firsts key same (as ++ firsts key same bs) = firsts key same (as ++ bs) := by
  unfold firsts
  rw [firstsFrom_append, firstsFrom_append, firstsFrom_firstsFrom htrans]
  intro a ha
  cases ha

theorem firsts_eq_self (h : as.Pairwise fun a b => same (key a) (key b) = false) : firsts key same as = as :=
  firstsFrom_eq_self h fun _ _ _ hs => absurd hs not_mem_nil

theorem firsts_append_of_met (hmet : ∀ b ∈ bs, ∃ a ∈ firsts key same as, same (key a) (key b)) :
    firsts key same (as ++ bs) = firsts key same as := by
  rw [firsts, firstsFrom_append, ← firsts, append_right_eq_self]
  apply firstsFrom_eq_nil
  intro b hb
  obtain ⟨a, ha, hsame⟩ := hmet b hb
  exact ⟨key a, mem_keys_met.mpr ⟨a, ha, rfl⟩, hsame⟩

theorem firsts_concat_of_new (hnew : ∀ b ∈ firsts key same as, same (key b) (key a) = false) :
    firsts key same (as ++ [a]) = firsts key same as ++ [a] := by
  rw [firsts, firstsFrom_append, ← firsts, firstsFrom_eq_self (pairwise_singleton _ _)]
  intro c hc s hs
  cases mem_singleton.mp hc
  obtain ⟨b, hb, rfl⟩ := mem_keys_met.mp hs
  exact hnew b hb

theorem mem_firsts_of_new (hnew : ∀ b ∈ as, same (key b) (key a) = false) : a ∈ firsts key same (as ++ a :: bs) := by
  obtain ⟨cs, heq, _⟩ := firsts_append key same (as ++ [a]) bs
  rw [append_cons, heq, firsts_concat_of_new fun b hb => hnew b (mem_of_mem_firsts hb)]
  simp

/-- **Keeping first occurrences is idempotent**, also when items that were gone through already follow once more. -/
theorem firsts_again (hrefl : ∀ b ∈ bs, same (key b) (key b)) :
    firsts key same (firsts key same (as ++ bs) ++ bs) = firsts key same (as ++ bs) := by
  have hself : firsts key same (firsts key same (as ++ bs)) = firsts key same (as ++ bs) :=
    firsts_eq_self firsts_pairwise
  refine (firsts_append_of_met fun b hb => ?_).trans hself
  -- The key of `b` was met when the second list was gone through for the first time.
  rw [hself]
  exact exists_mem_firsts (hrefl b hb) (mem_append_right as hb)

end

/-! ### Positions -/

section

variable {α κ : Type} {key : α → κ} {same : κ → κ → Bool} {as bs : List α} {P Q : Nat → Prop}

/-- A list holds the elements of another one at the positions of a sort, in their order. -/
def IsSelection (P : Nat → Prop) (as bs : List α) : Prop :=
  ∃ is : List Nat, is.Pairwise (· < ·) ∧ (∀ i, i ∈ is ↔ P i) ∧ is.map (as[·]?) = bs.map some

theorem IsSelection.congr (h : IsSelection P as bs) (hiff : ∀ i, P i ↔ Q i) : IsSelection Q as bs := by
  obtain ⟨is, hascending, hmem, helements⟩ := h
  exact ⟨is, hascending, fun i => (hmem i).trans (hiff i), helements⟩

theorem IsSelection.filter (h : IsSelection P as bs) (q : α → Bool) :
    IsSelection (fun i => P i ∧ (as[i]?).any q = true) as (bs.filter q) := by
  obtain ⟨is, hascending, hmem, helements⟩ := h
  refine ⟨is.filter fun i => (as[i]?).any q, hascending.filter _, fun i => ?_, ?_⟩
  · rw [mem_filter, hmem]
  · calc (is.filter fun i => (as[i]?).any q).map (as[·]?)
        = (is.map (as[·]?)).filter (Option.any q) := by rw [filter_map]; rfl
      _ = (bs.filter q).map some := by rw [helements, filter_map]; rfl

/-- An item is the first one of its key. -/
def IsFirstAt (key : α → κ) (same : κ → κ → Bool) (as : List α) (i : Nat) : Prop :=
  ∃ a, as[i]? = some a ∧ ∀ b ∈ as.take i, same (key b) (key a) = false

theorem isFirstAt_concat {a : α} {i : Nat} : IsFirstAt key same (as ++ [a]) i ↔
    IsFirstAt key same as i ∨ i = as.length ∧ ∀ b ∈ as, same (key b) (key a) = false := by
  unfold IsFirstAt
  rcases Nat.lt_trichotomy i as.length with hlt | rfl | hgt
  · rw [getElem?_append_left hlt, take_append_of_le_length (Nat.le_of_lt hlt),
      or_iff_left fun h => Nat.ne_of_lt hlt h.1]
  · simp
  · have hlong : (as ++ [a]).length ≤ i := by
      rw [length_append]
      exact hgt
    simp [getElem?_eq_none (Nat.le_of_lt hgt), getElem?_eq_none hlong, Nat.ne_of_gt hgt]

theorem firsts_isSelection (hrefl : ∀ a ∈ as, same (key a) (key a))
    (htrans : ∀ a ∈ as, ∀ b ∈ as, ∀ c ∈ as, same (key a) (key b) → same (key b) (key c) →
      same (key a) (key c)) : IsSelection (IsFirstAt key same as) as (firsts key same as) := by
  induction as using List.reverseRecOn with
  | nil => exact ⟨[], .nil, by simp [IsFirstAt], rfl⟩
  | append_singleton as a ih =>
    have hsub : ∀ b ∈ as, b ∈ as ++ [a] := fun b hb => mem_append_left _ hb
    obtain ⟨is, hascending, hmem, helements⟩ := ih (fun b hb => hrefl b (hsub b hb))
      fun b hb c hc d hd => htrans b (hsub b hb) c (hsub c hc) d (hsub d hd)
    have hbound : ∀ i ∈ is, i < as.length := by
      intro i hi
      obtain ⟨b, hb, _⟩ := (hmem i).mp hi
      exact (List.getElem?_eq_some_iff.mp hb).1
    have hbefore : is.map ((as ++ [a])[·]?) = (firsts key same as).map some := by
      rw [← helements]
      exact map_congr_left fun i hi => getElem?_append_left (hbound i hi)
    by_cases hmet : ∃ b ∈ as, same (key b) (key a) = true
    · obtain ⟨b, hb, hsame⟩ := hmet
      obtain ⟨c, hc, hsame'⟩ := exists_mem_firsts (hrefl b (hsub b hb)) hb
      have hca := htrans c (hsub c (mem_of_mem_firsts hc)) b (hsub b hb) a (by simp) hsame' hsame
      rw [firsts_append_of_met (by simpa using ⟨c, hc, hca⟩)]
      refine ⟨is, hascending, fun i => ?_, hbefore⟩
      rw [isFirstAt_concat, hmem, or_iff_left]
      rintro ⟨_, hnone⟩
      rw [hnone b hb] at hsame
      cases hsame
    · have hnew : ∀ b ∈ as, same (key b) (key a) = false := fun b hb => Bool.eq_false_iff.mpr fun h => hmet ⟨b, hb, h⟩
      rw [firsts_concat_of_new fun b hb => hnew b (mem_of_mem_firsts hb)]
      refine ⟨is ++ [as.length], ?_, fun i => ?_, ?_⟩
      · rw [pairwise_append]
        exact ⟨hascending, pairwise_singleton _ _, by simpa using hbound⟩
      · rw [mem_append, mem_singleton, isFirstAt_concat, hmem, and_iff_left hnew]
      · rw [map_append, hbefore, map_append]
        simp

end

/-! ### Distinct elements -/

section

variable {α : Type} [BEq α] [LawfulBEq α] {as bs : List α}

theorem eraseDups_append_of_subset (h : bs ⊆ as) : (as ++ bs).eraseDups = as.eraseDups := by
  have hnone : bs.removeAll as = [] := by
    rw [List.removeAll, filter_eq_nil_iff]
    intro b hb
    simpa using h hb
  rw [eraseDups_append, hnone, eraseDups_nil, append_nil]

theorem eraseDups_concat_of_not_mem {a : α} (h : a ∉ as) : (as ++ [a]).eraseDups = as.eraseDups ++ [a] := by
  have hone : [a].removeAll as = [a] := by simpa [List.removeAll] using h
  rw [eraseDups_append, hone]
  rfl

theorem nodup_eraseDups (as : List α) : as.eraseDups.Nodup := by
  induction as using List.reverseRecOn with
  | nil => exact .nil
  | append_singleton as a ih =>
    by_cases h : a ∈ as
    · rw [eraseDups_append_of_subset (by simpa using h)]
      exact ih
    · rw [eraseDups_concat_of_not_mem h, nodup_append]
      refine ⟨ih, nodup_singleton a, ?_⟩
      rintro b hb c hc rfl
      cases mem_singleton.mp hc
      exact h (mem_eraseDups.mp hb)

theorem eraseDups_of_nodup (h : as.Nodup) : as.eraseDups = as := by
  induction as with
  | nil => rfl
  | cons a as ih =>
    obtain ⟨hnot, hrest⟩ := nodup_cons.mp h
    have hkept : as.filter (fun b => !b == a) = as := by
      rw [filter_eq_self]
      intro b hb
      have hne : b ≠ a := fun heq => hnot (heq ▸ hb)
      simpa using hne
    rw [eraseDups_cons, hkept, ih hrest]

end

end CodeAtlas
