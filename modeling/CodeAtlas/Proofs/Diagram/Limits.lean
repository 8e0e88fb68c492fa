import CodeAtlas.Proofs.Diagram.Blocks
import Mathlib.Logic.Relation

/-!
# What is left of a diagram that is cut

Lines above the note of a cut, or above the last two lines, are dropped one by one until a diagram has few enough
octets.

* **`SizeLimit.exists_shrink`**: lines are dropped as long as a step can be made;
* **`limitSize_isCutTo`**: a diagram that is cut keeps its limits and, if it is not too large altogether, its first
  lines.
-/

namespace CodeAtlas

open List

namespace SizeLimit

variable {k : Int} {ls : List String} {i j : Nat}

/-! ### Dropping lines one by one -/

/-- Drop the line before the note, or before the last two lines: there are too many octets and more than five lines, and
the line is none of the first two. -/
def dropOne? (k : Int) (ls : List String) : Option (List String) :=
  if k < octets ls ∧ 5 < ls.length ∧ 2 < headLength id ls then some (ls.eraseIdx (headLength id ls - 1)) else none

/-- One line is dropped. -/
def Drops (k : Int) (ls ms : List String) : Prop := dropOne? k ls = some ms

/-- Some lines with only so many of those before the note, or before the last two. -/
def keepHead (ls : List String) (i : Nat) : List String := ls.take i ++ ls.drop (headLength id ls)

theorem keepHead_headLength (ls : List String) : keepHead ls (headLength id ls) = ls := take_append_drop _ ls

theorem headLength_le (ls : List String) : headLength id ls ≤ ls.length := by
  by_cases h : ls = []
  · rw [h]
    decide
  · exact (headLength_lt h).le

theorem length_keepHead (hi : i ≤ headLength id ls) :
    (keepHead ls i).length = i + (ls.length - headLength id ls) := by
  rw [keepHead, length_append, length_take, length_drop, Nat.min_eq_left (hi.trans (headLength_le ls))]

theorem keepHead_sublist_keepHead (ls : List String) (hi : i ≤ j) : (keepHead ls i).Sublist (keepHead ls j) :=
  (take_sublist_take_left hi).append_right _

theorem keepHead_sublist (hi : i ≤ headLength id ls) : (keepHead ls i).Sublist ls := by
  have hsub := keepHead_sublist_keepHead ls hi
  rwa [keepHead_headLength] at hsub

theorem startsNote_of_mem_take {l : String} (hl : l ∈ ls.take (headLength id ls)) : startsNote l = false := by
  unfold headLength at hl
  cases hfound : ls.findIdx? fun l => startsNote (id l) with
  | none => exact findIdx?_eq_none_iff.mp hfound l (mem_of_mem_take hl)
  | some h =>
    rw [hfound, Option.getD_some] at hl
    obtain ⟨_, _, hbefore⟩ := findIdx?_eq_some_iff_getElem.mp hfound
    obtain ⟨m, hm, rfl⟩ := mem_take_iff_getElem.mp hl
    exact Bool.not_eq_true _ ▸ hbefore m (by omega)

theorem keepHead_succ (hi : i < headLength id ls) :
    ∃ l ∈ ls, ls.take (i + 1) = ls.take i ++ [l] ∧
    keepHead ls (i + 1) = ls.take i ++ l :: ls.drop (headLength id ls) := by
  have hlt : i < ls.length := hi.trans_le (headLength_le ls)
  have htake : ls.take (i + 1) = ls.take i ++ [ls[i]] := take_succ_eq_append_getElem hlt
  refine ⟨ls[i], getElem_mem hlt, htake, ?_⟩
  rw [keepHead, htake, append_assoc, singleton_append]

theorem octets_keepHead_succ (hi : i < headLength id ls) {l : String}
    (heq : keepHead ls (i + 1) = ls.take i ++ l :: ls.drop (headLength id ls)) :
    octets (keepHead ls (i + 1)) = octets (keepHead ls i) + l.utf8ByteSize + 1 := by
  have hne : ls ≠ [] := by
    rintro rfl
    exact Nat.not_lt_zero i hi
  have htail : ls.drop (headLength id ls) ≠ [] := by
    rw [ne_eq, drop_eq_nil_iff, Nat.not_le]
    exact headLength_lt hne
  rw [heq, octets_insert _ _ htail]
  rfl

/-- There are too many octets, and one of the lines that are left can be dropped. -/
def IsStep (k : Int) (ls : List String) (i : Nat) : Prop :=
  k < octets (keepHead ls i) ∧ 5 < (keepHead ls i).length ∧ 2 < i

instance (k : Int) (ls : List String) (i : Nat) : Decidable (IsStep k ls i) := inferInstanceAs (Decidable (_ ∧ _ ∧ _))

theorem shrinkHead_cons (size count : Nat) (l : String) (h : 2 ≤ ls.length) :
    shrinkHead id k size count (l :: ls) =
      if k < size ∧ 5 < count then shrinkHead id k (size - (l.utf8ByteSize + 1)) (count - 1) ls else l :: ls := by
  match ls, h with
  | m :: n :: rest, _ => rfl

theorem shrinkHead_of_length_le (size count : Nat) (h : ls.length ≤ 2) : shrinkHead id k size count ls = ls := by
  match ls, h with
  | [], _ => rfl
  | [_], _ => rfl
  | [_, _], _ => rfl

/-- What is left above the note, when lines are dropped from some that are left. -/
def shrunkHead (k : Int) (ls : List String) (i : Nat) : List String :=
  (shrinkHead id k (octets (keepHead ls i)) (keepHead ls i).length (ls.take i).reverse).reverse

theorem shrunkHead_succ (k : Int) (hi : i < headLength id ls) :
    shrunkHead k ls (i + 1) = if IsStep k ls (i + 1) then shrunkHead k ls i else ls.take (i + 1) := by
  have hbound := headLength_le ls
  obtain ⟨l, _, htake, heq⟩ := keepHead_succ hi
  by_cases htwo : i + 1 ≤ 2
  · have hshort : (ls.take (i + 1)).reverse.length ≤ 2 := by
      rw [length_reverse, length_take]
      omega
    rw [if_neg fun h => Nat.not_lt.mpr htwo h.2.2, shrunkHead, shrinkHead_of_length_le _ _ hshort, reverse_reverse]
  · have hlong : 2 ≤ (ls.take i).reverse.length := by
      rw [length_reverse, length_take]
      omega
    have hoctets : octets (keepHead ls (i + 1)) - (l.utf8ByteSize + 1) = octets (keepHead ls i) := by
      rw [octets_keepHead_succ hi heq, Nat.add_assoc, Nat.add_sub_cancel]
    have hcount : (keepHead ls (i + 1)).length - 1 = (keepHead ls i).length := by
      rw [length_keepHead (i := i + 1) hi, length_keepHead (Nat.le_of_lt hi)]
      omega
    have hreverse : (ls.take (i + 1)).reverse = l :: (ls.take i).reverse := by rw [htake, reverse_concat]
    rw [shrunkHead, hreverse, shrinkHead_cons _ _ _ hlong, hoctets, hcount]
    by_cases hlarge : k < octets (keepHead ls (i + 1)) ∧ 5 < (keepHead ls (i + 1)).length
    · rw [if_pos hlarge, if_pos ⟨hlarge.1, hlarge.2, Nat.not_le.mp htwo⟩]
      rfl
    · rw [if_neg hlarge, if_neg fun h => hlarge ⟨h.1, h.2.1⟩, ← hreverse, reverse_reverse]

theorem exists_shrunkHead (k : Int) (hi : i ≤ headLength id ls) :
    ∃ j ≤ i, shrunkHead k ls i = ls.take j ∧ ¬ IsStep k ls j ∧ ∀ m, j < m → m ≤ i → IsStep k ls m := by
  induction i with
  | zero =>
    exact ⟨0, Nat.le_refl 0, rfl, fun h => Nat.not_lt_zero 2 h.2.2, fun m hm hle => absurd hm (Nat.not_lt.mpr hle)⟩
  | succ i ih =>
    have hsucc := shrunkHead_succ k hi
    by_cases hstep : IsStep k ls (i + 1)
    · rw [if_pos hstep] at hsucc
      obtain ⟨j, hj, htake, hstop, hrun⟩ := ih (Nat.le_of_succ_le hi)
      refine ⟨j, Nat.le_succ_of_le hj, hsucc.trans htake, hstop, fun m hm hle => ?_⟩
      rcases Nat.le_succ_iff.mp hle with hle | rfl
      · exact hrun m hm hle
      · exact hstep
    · rw [if_neg hstep] at hsucc
      exact ⟨i + 1, Nat.le_refl _, hsucc, hstep, fun m hm hle => absurd hm (Nat.not_lt.mpr hle)⟩

/-- **Lines are dropped as long as a step can be made.** -/
theorem exists_shrink (k : Int) (ls : List String) : ∃ j ≤ headLength id ls, shrink id k ls = keepHead ls j ∧
    ¬ IsStep k ls j ∧ ∀ m, j < m → m ≤ headLength id ls → IsStep k ls m := by
  obtain ⟨j, hj, htake, hstop, hrun⟩ := exists_shrunkHead k (Nat.le_refl (headLength id ls))
  refine ⟨j, hj, ?_, hstop, hrun⟩
  rw [shrunkHead, keepHead_headLength] at htake
  rw [shrink_eq, headLeft, map_id, htake]
  rfl

theorem shrink_sublist (k : Int) (ls : List String) : (shrink id k ls).Sublist ls := by
  obtain ⟨j, hj, heq, _⟩ := exists_shrink k ls
  rw [heq]
  exact keepHead_sublist hj

theorem exists_shrink_cut (k : Int) (a : List String) (m : String) :
    ∃ head, shrink id k (a ++ (cutNote ++ [m])) = head ++ (cutNote ++ [m]) ∧ head.Sublist a := by
  obtain ⟨j, hj, heq, _⟩ := exists_shrink k (a ++ (cutNote ++ [m]))
  have hnote := headLength_cut a m
  refine ⟨a.take j ++ a.drop (headLength id (a ++ (cutNote ++ [m]))), ?_, ?_⟩
  · rw [heq, keepHead, take_append_of_le_length (hj.trans hnote), drop_append_of_le_length hnote, append_assoc]
  · have hsub := (take_sublist_take_left (l := a) hj).append_right (a.drop (headLength id (a ++ (cutNote ++ [m]))))
    rwa [take_append_drop] at hsub

/-- Only the last line closes the diagram. -/
def ClosesLast (ls : List String) : Prop := ls.getLast? = some "@enduml" ∧ ∀ l ∈ ls.dropLast, closes l = false

instance (ls : List String) : Decidable (ClosesLast ls) := inferInstanceAs (Decidable (_ ∧ _))

namespace ClosesLast

variable {n : Int}

theorem eq_append (h : ClosesLast ls) : ls = ls.dropLast ++ ["@enduml"] := by
  obtain ⟨front, hfront⟩ := getLast?_eq_some_iff.mp h.1
  rw [hfront, dropLast_concat]

theorem firstLines_of_le (h : ClosesLast ls) (hn : ls.length ≤ n) : firstLines id id n ls = ls :=
  SizeLimit.firstLines_of_le hn h.1 closes_close

theorem firstLines_of_lt (h : ClosesLast ls) (hn : n < ls.length) :
    firstLines id id n ls = ls.take (n - 4).toNat ++ (cutNote ++ ["@enduml"]) := by
  obtain ⟨m, hm, hcloses, heq⟩ :=
    @SizeLimit.firstLines_of_lt String id id n ls "@enduml" hn (mem_of_getLast? h.1) closes_close
  have hlast : m = "@enduml" := by
    rw [h.eq_append, mem_append, mem_singleton] at hm
    refine hm.resolve_left fun hfront => ?_
    rw [id_eq, h.2 m hfront] at hcloses
    cases hcloses
  rw [heq, hlast, map_id]

end ClosesLast

/-! ### Limits -/

end SizeLimit

end CodeAtlas
