import CodeAtlas.Text.Search
import Mathlib.Data.List.Sort
import Mathlib.Data.String.Basic

/-!
# Sets of texts as ascending lists

* `Text.mem_ascendingSet`, `Text.mem_insertAscending`: what such a set holds;
* `Text.ascending_of_perm`: the order in which texts are given does not matter.
-/

namespace CodeAtlas.Text

open List

variable {s : String} {l : List String}

theorem mem_dropRepeats : s ∈ dropRepeats l ↔ s ∈ l := by
  fun_induction dropRepeats l with
  | case1 a b r hab ih =>
    rw [ih, beq_iff_eq.mp hab]
    simp
  | case2 a b r _ ih => rw [mem_cons, mem_cons, ih]
  | case3 l => rfl

theorem mem_ascendingSet : s ∈ ascendingSet l ↔ s ∈ l := by
  rw [ascendingSet, mem_dropRepeats, ascending, mem_mergeSort]

theorem mem_insertAscending {t : String} : s ∈ insertAscending t l ↔ s = t ∨ s ∈ l := by
  fun_induction insertAscending t l with
  | case1 => simp
  | case2 a r hta =>
    rw [beq_iff_eq.mp hta]
    simp
  | case3 a r _ _ => simp
  | case4 a r _ _ ih =>
    rw [mem_cons, ih, mem_cons]
    tauto

theorem ascending_pairwise (l : List String) : (ascending l).Pairwise (· ≤ ·) := by
  have h : (ascending l).Pairwise fun a b => decide (a ≤ b) = true := by
    apply pairwise_mergeSort
    · intro a b c hab hbc
      simp only [decide_eq_true_eq] at hab hbc ⊢
      exact le_trans hab hbc
    · intro a b
      simpa using le_total a b
  exact h.imp fun hab => by simpa using hab

theorem ascending_strict (h : l.Nodup) : (ascending l).Pairwise (· < ·) :=
  (ascending_pairwise l).imp₂ (fun _ _ => lt_of_le_of_ne) ((mergeSort_perm l _).nodup_iff.mpr h)

theorem dropRepeats_nodup (h : l.Pairwise (· ≤ ·)) : (dropRepeats l).Nodup := by
  fun_induction dropRepeats l with
  | case1 a b r _ ih => exact ih (pairwise_cons.mp h).2
  | case2 a b r hab ih =>
    obtain ⟨hfirst, hrest⟩ := pairwise_cons.mp h
    refine nodup_cons.mpr ⟨fun hmem => hab ?_, ih hrest⟩
    -- the second text is not greater than the first one where that comes again
    have hle : b ≤ a := by
      rcases mem_cons.mp (mem_dropRepeats.mp hmem) with heq | hlater
      · exact le_of_eq heq.symm
      · exact (pairwise_cons.mp hrest).1 a hlater
    exact beq_iff_eq.mpr (le_antisymm (hfirst b mem_cons_self) hle)
  | case3 l hshort =>
    rcases l with _ | ⟨a, _ | ⟨b, r⟩⟩
    · exact nodup_nil
    · exact nodup_singleton a
    · exact absurd rfl (hshort a b r)

theorem ascendingSet_nodup (l : List String) : (ascendingSet l).Nodup := dropRepeats_nodup (ascending_pairwise l)

theorem dropRepeats_sublist (l : List String) : (dropRepeats l).Sublist l := by
  fun_induction dropRepeats l with
  | case1 a b r _ ih => exact ih.cons a
  | case2 a b r _ ih => exact ih.cons_cons a
  | case3 l => exact .refl l

theorem ascendingSet_pairwise (l : List String) : (ascendingSet l).Pairwise (· < ·) :=
  ((ascending_pairwise l).sublist (dropRepeats_sublist _)).imp₂ (fun _ _ => lt_of_le_of_ne) (ascendingSet_nodup l)

theorem ascending_of_perm {l' : List String} (h : l.Perm l') : ascending l = ascending l' := by
  have hperm : (ascending l).Perm (ascending l') := (mergeSort_perm _ _).trans (h.trans (mergeSort_perm _ _).symm)
  exact hperm.eq_of_pairwise (fun a b _ _ hab hba => le_antisymm hab hba) (ascending_pairwise l) (ascending_pairwise l')

end CodeAtlas.Text
