import CodeAtlas.Proofs.Diagram.Limits

/-!
# Warnings in diagrams that are cut

A diagram that loses lines because there are too many of them gets a note that says so, and so does one that is too
large altogether.  One that loses lines because it has too many octets gets none.

* **`limitSize_warns_iff`**: what is left of any text warns of lines that are lost, unless they are dropped silently.
-/

namespace CodeAtlas

open List Text

namespace SizeLimit

variable {n k : Int} {ls : List String} {i j : Nat}

/-! ### The most lines that fit -/

theorem octets_keepHead_le (hij : i ≤ j) (hj : j ≤ headLength id ls) :
    octets (keepHead ls i) ≤ octets (keepHead ls j) := by
  induction j, hij using Nat.le_induction with
  | base => exact Nat.le_refl _
  | succ j _ ih =>
    obtain ⟨l, _, _, heq⟩ := keepHead_succ hj
    rw [octets_keepHead_succ hj heq]
    have hle := ih (Nat.le_of_succ_le hj)
    omega

/-- So many lines above the note, or above the last two lines, are the most that fit: two of them and five lines in all
are left, and with one line more there are too many octets. -/
structure IsFit (k : Int) (ls : List String) (j : Nat) : Prop where
  two_le : 2 ≤ j
  lt : j < headLength id ls
  five_le : 5 ≤ (keepHead ls j).length
  large : k < octets (keepHead ls (j + 1))
  small : octets (keepHead ls j) ≤ k

theorem length_keepHead_succ (hj : j < headLength id ls) :
    (keepHead ls (j + 1)).length = (keepHead ls j).length + 1 := by
  rw [length_keepHead (i := j + 1) hj, length_keepHead (Nat.le_of_lt hj)]
  omega

theorem IsFit.shrink_eq (h : IsFit k ls j) : shrink id k ls = keepHead ls j := by
  obtain ⟨i, hi, heq, hstop, hrun⟩ := exists_shrink k ls
  rcases Nat.lt_trichotomy i j with hlt | rfl | hgt
  · -- there are few enough octets before
    have hlarge := (hrun j hlt (Nat.le_of_lt h.lt)).1
    exact absurd h.small (Int.not_le.mpr hlarge)
  · exact heq
  · -- there are too many octets still
    refine absurd ⟨?_, ?_, Nat.lt_of_le_of_lt h.two_le hgt⟩ hstop
    · have hle := octets_keepHead_le (i := j + 1) hgt hi
      have hlarge := h.large
      omega
    · have hsub := (keepHead_sublist_keepHead (i := j + 1) ls hgt).length_le
      have hlength := length_keepHead_succ h.lt
      have hfive := h.five_le
      omega

theorem exists_isFit (hlength : (shrink id k ls).length < ls.length) (hsmall : octets (shrink id k ls) ≤ k) :
    ∃ j, IsFit k ls j := by
  obtain ⟨j, hj, heq, _, hrun⟩ := exists_shrink k ls
  rw [heq] at hlength hsmall
  have hlt : j < headLength id ls := by
    refine hj.lt_of_ne ?_
    rintro rfl
    rw [keepHead_headLength] at hlength
    exact Nat.lt_irrefl _ hlength
  obtain ⟨hlarge, hfive, htwo⟩ := hrun (j + 1) (Nat.lt_succ_self j) hlt
  rw [length_keepHead_succ hlt] at hfive
  exact ⟨j, Nat.le_of_lt_succ htwo, hlt, Nat.le_of_lt_succ hfive, hlarge, hsmall⟩

/-! ### The note -/

theorem mem_keepHead_iff {l : String} (hl : startsNote l) (hj : j ≤ headLength id ls) :
    l ∈ keepHead ls j ↔ l ∈ ls := by
  refine ⟨fun hmem => (keepHead_sublist hj).subset hmem, fun hmem => ?_⟩
  rw [← take_append_drop (headLength id ls) ls] at hmem
  refine mem_append_right _ ((mem_append.mp hmem).resolve_left fun htake => ?_)
  rw [startsNote_of_mem_take htake] at hl
  cases hl

theorem mem_lines_tooLarge (theme : String) (k : Int) :
    "note as WARNING" ∈ Text.lines (Text.join "\n" (tooLarge theme k)) := by
  rw [tooLarge, join_cons_cons, join_cons_cons, join_cons_cons, lines_append_break,
    lines_append_break, lines_append_break, lines_of_isOneLine (s := "note as WARNING") (by decide)]
  refine mem_append_right _ (mem_append_right _ (mem_append_left _ ?_))
  exact mem_singleton_self _

/-! ### Texts -/

theorem lines_join_shrink (k : Int) (hlines : ∀ l ∈ ls, Text.isOneLine l) :
    Text.lines (Text.join "\n" (shrink id k (firstLines id id n ls))) = shrink id k (firstLines id id n ls) := by
  obtain ⟨m, hm, hcloses⟩ : ∃ m, (firstLines id id n ls).getLast? = some m ∧ closes m = true := getLast?_closed _
  refine lines_join (l := m) (fun l hl => ?_) (by rw [getLast?_shrink, hm]) ?_
  · rcases mem_firstLines ((shrink_sublist k _).subset hl) with hl | hl | rfl
    · exact hlines l hl
    · have hnote : ∀ l ∈ cutNote, Text.isOneLine l := by decide +kernel
      exact hnote l hl
    · decide
  · rintro rfl
    revert hcloses
    decide +kernel

theorem IsFit.length_shrink_lt (h : IsFit k ls j) : (shrink id k ls).length < ls.length := by
  have hbound := headLength_le ls
  have hlt := h.lt
  rw [h.shrink_eq, length_keepHead (Nat.le_of_lt hlt)]
  omega

/-- Lines of a diagram are lost, and no note says so: it has few enough lines and no note, and of the lines above its
last two (or above one that is taken for a note) only some fit, among which those that are lost do not occur. -/
structure DropsSilently (n k : Int) (ls : List String) : Prop where
  few : ls.length ≤ n
  unmarked : "note as WARNING" ∉ ls
  lost : ∃ j, IsFit k (closed id id ls) j ∧ ∃ l ∈ ls, l ∉ keepHead (closed id id ls) j

end SizeLimit

open SizeLimit

section

variable {theme text : String} {n k : Int}

theorem lines_limitSize_of_small (hsmall : octets (shrink id k (firstLines id id n (Text.lines text))) ≤ k) :
    Text.lines (limitSize theme text n k) =
      if n < (Text.lines text).length ∨
          (shrink id k (firstLines id id n (Text.lines text))).length < (firstLines id id n (Text.lines text)).length
      then shrink id k (firstLines id id n (Text.lines text)) else Text.lines text := by
  have hread := lines_join_shrink (n := n) k fun l (hl : l ∈ Text.lines text) => isOneLine_of_mem_lines hl
  unfold limitSize limited?
  dsimp only
  rw [map_id, if_neg (Int.not_lt.mpr hsmall)]
  simp only [Bool.or_eq_true, decide_eq_true_eq]
  split_ifs
  · exact hread
  · rfl

theorem limitSize_warns_of_large (hlarge : k < octets (shrink id k (firstLines id id n (Text.lines text)))) :
    "note as WARNING" ∈ Text.lines (limitSize theme text n k) := by
  unfold limitSize limited?
  dsimp only
  rw [map_id, if_pos hlarge, map_id]
  exact mem_lines_tooLarge theme k

theorem limitSize_warns_of_lt (hlt : n < (Text.lines text).length) :
    "note as WARNING" ∈ Text.lines (limitSize theme text n k) := by
  by_cases hlarge : k < octets (shrink id k (firstLines id id n (Text.lines text)))
  · exact limitSize_warns_of_large hlarge
  · rw [lines_limitSize_of_small (Int.not_lt.mp hlarge), if_pos (.inl hlt)]
    obtain ⟨m, _, hfirst⟩ := exists_firstLines_of_lt hlt
    obtain ⟨head, hcut, _⟩ := exists_shrink_cut k ((Text.lines text).take (n - 4).toNat) m
    rw [hfirst, hcut]
    exact mem_append_right _ (mem_append_left _ mem_cons_self)

theorem lines_limitSize_of_isFit {j : Nat} (hle : (Text.lines text).length ≤ n)
    (h : IsFit k (closed id id (Text.lines text)) j) :
    Text.lines (limitSize theme text n k) = keepHead (closed id id (Text.lines text)) j := by
  have hshort := h.length_shrink_lt
  have hsmall := h.small
  rw [← h.shrink_eq, ← firstLines_eq_closed hle] at hsmall ⊢
  rw [← firstLines_eq_closed hle] at hshort
  rw [lines_limitSize_of_small hsmall, if_pos (.inr hshort)]

theorem lines_limitSize_of_length_le (hle : (Text.lines text).length ≤ n)
    (hsmall : octets (shrink id k (closed id id (Text.lines text))) ≤ k)
    (hlength : (closed id id (Text.lines text)).length ≤ (shrink id k (closed id id (Text.lines text))).length) :
    Text.lines (limitSize theme text n k) = Text.lines text := by
  rw [← firstLines_eq_closed hle] at hsmall hlength
  rw [lines_limitSize_of_small hsmall, if_neg (not_or.mpr ⟨Int.not_lt.mpr hle, Nat.not_lt.mpr hlength⟩)]

theorem exists_isFit_of_not_warns (hlost : ∃ l ∈ Text.lines text, l ∉ Text.lines (limitSize theme text n k))
    (hnote : "note as WARNING" ∉ Text.lines (limitSize theme text n k)) :
    (Text.lines text).length ≤ n ∧ ∃ j, IsFit k (closed id id (Text.lines text)) j := by
  have hle := Int.not_lt.mp fun hlt => hnote (limitSize_warns_of_lt hlt)
  have hsmall := Int.not_lt.mp fun hlarge => hnote (limitSize_warns_of_large hlarge)
  rw [firstLines_eq_closed hle] at hsmall
  refine ⟨hle, exists_isFit (Nat.not_le.mp fun hlength => ?_) hsmall⟩
  obtain ⟨l, hl, hnot⟩ := hlost
  rw [lines_limitSize_of_length_le hle hsmall hlength] at hnot
  exact hnot hl

theorem mem_keepHead_closed_iff {j : Nat} (h : IsFit k (closed id id (Text.lines text)) j) :
    "note as WARNING" ∈ keepHead (closed id id (Text.lines text)) j ↔ "note as WARNING" ∈ Text.lines text := by
  rw [mem_keepHead_iff (by decide +kernel) (Nat.le_of_lt h.lt), mem_closed_iff (by decide)]

end

/-- **What is left of a text warns of lines that are lost, unless they are dropped silently.** -/
theorem limitSize_warns_iff (theme text : String) (n k : Int) :
    ((∃ l ∈ Text.lines text, l ∉ Text.lines (limitSize theme text n k)) →
        "note as WARNING" ∈ Text.lines (limitSize theme text n k)) ↔
      ¬ DropsSilently n k (Text.lines text) := by
  rw [← not_and_not_right, not_iff_not]
  constructor
  · rintro ⟨hlost, hnote⟩
    obtain ⟨hle, j, hfit⟩ := exists_isFit_of_not_warns hlost hnote
    rw [lines_limitSize_of_isFit hle hfit] at hlost hnote
    exact ⟨hle, fun hmem => hnote ((mem_keepHead_closed_iff hfit).mpr hmem), j, hfit, hlost⟩
  · rintro ⟨hle, hnote, j, hfit, hlost⟩
    rw [lines_limitSize_of_isFit hle hfit]
    exact ⟨hlost, fun hmem => hnote ((mem_keepHead_closed_iff hfit).mp hmem)⟩

def tenSmallClasses : String :=
  Text.join "\n" ["@startuml", "!theme plain", "class C0", "class C1", "class C2", "class C3", "class C4", "class C5",
    "class C6", "class C7", "class C8", "class C9", "@enduml"]

/-- It loses a class when it may have one octet less, and there is no note. -/
theorem limitSize_silent : "class C8" ∈ Text.lines tenSmallClasses ∧
    "class C8" ∉ Text.lines (limitSize "plain" tenSmallClasses 2000 119) ∧
    "note as WARNING" ∉ Text.lines (limitSize "plain" tenSmallClasses 2000 119) := by
  decide +kernel

end CodeAtlas
