import CodeAtlas.Proofs.Text.Trim
import Mathlib.Data.List.Infix

/-!
# Texts in pieces

A text is cut at the occurrences of a character, and joined again from its pieces.
-/

namespace CodeAtlas.Chars

open List

theorem contains_iff {p s : List Char} : contains p s ↔ p <:+: s := by
  induction s with
  | nil => rw [contains, List.isEmpty_iff, List.infix_nil]
  | cons c s ih => rw [contains, Bool.or_eq_true, startsWith_iff, ih, List.infix_cons_iff]

theorem splitOnFrom_ne_nil (sep acc : List Char) (skip : Nat) (s : List Char) : splitOnFrom sep acc skip s ≠ [] := by
  induction s generalizing acc skip with
  | nil => simp [splitOnFrom]
  | cons c s ih =>
    cases skip with
    | zero =>
      rw [splitOnFrom]
      split
      · exact cons_ne_nil _ _
      · exact ih _ _
    | succ skip => exact ih _ _

theorem splitOn_ne_nil (sep s : List Char) : splitOn sep s ≠ [] := splitOnFrom_ne_nil sep [] 0 s

theorem splitOnFrom_of_not_infix {sep s : List Char} (h : ¬ sep <:+: s) (acc : List Char) :
    splitOnFrom sep acc 0 s = [acc.reverse ++ s] := by
  induction s generalizing acc with
  | nil => rw [splitOnFrom, append_nil]
  | cons c s ih =>
    rw [infix_cons_iff, not_or, ← startsWith_iff] at h
    rw [splitOnFrom, if_neg h.1, ih h.2, reverse_cons, append_assoc, singleton_append]

theorem splitOn_of_not_infix {sep s : List Char} (h : ¬ sep <:+: s) : splitOn sep s = [s] :=
  splitOnFrom_of_not_infix h []

/-! ### Cutting at a character -/

section Cutting

variable {c : Char} {acc s : List Char}

theorem splitOnFrom_cons (c d : Char) (acc s : List Char) : splitOnFrom [c] acc 0 (d :: s) =
    if c = d then acc.reverse :: splitOnFrom [c] [] 0 s else splitOnFrom [c] (d :: acc) 0 s := by
  rw [splitOnFrom]
  by_cases h : c = d
  · rw [if_pos h, if_pos (startsWith_iff.mpr (by simp [h]))]
    rfl
  · rw [if_neg h, if_neg fun hstarts => h (by simpa using startsWith_iff.mp hstarts)]

theorem splitOnFrom_append (acc a b : List Char) :
    splitOnFrom [c] acc 0 (a ++ c :: b) = splitOnFrom [c] acc 0 a ++ splitOn [c] b := by
  induction a generalizing acc with
  | nil =>
    rw [nil_append, splitOnFrom_cons, if_pos rfl]
    rfl
  | cons d a ih =>
    rw [cons_append, splitOnFrom_cons, splitOnFrom_cons]
    split
    · rw [ih, cons_append]
    · exact ih (d :: acc)

theorem splitOn_append (c : Char) (a b : List Char) :
    splitOn [c] (a ++ c :: b) = splitOn [c] a ++ splitOn [c] b := splitOnFrom_append [] a b

theorem splitOn_of_not_mem (hs : c ∉ s) : splitOn [c] s = [s] :=
  splitOn_of_not_infix fun h => hs (h.subset mem_cons_self)

theorem not_mem_of_mem_splitOnFrom {p : List Char} (hacc : c ∉ acc) (h : p ∈ splitOnFrom [c] acc 0 s) : c ∉ p := by
  induction s generalizing acc with
  | nil =>
    rw [splitOnFrom, mem_singleton] at h
    rwa [h, mem_reverse]
  | cons d s ih =>
    rw [splitOnFrom_cons] at h
    split at h
    · rcases mem_cons.mp h with rfl | h
      · rwa [mem_reverse]
      · exact ih not_mem_nil h
    next hd => exact ih (by simp [hd, hacc]) h

theorem not_mem_of_mem_splitOn {p : List Char} (h : p ∈ splitOn [c] s) : c ∉ p :=
  not_mem_of_mem_splitOnFrom not_mem_nil h

theorem infix_of_mem_splitOnFrom {p : List Char} (h : p ∈ splitOnFrom [c] acc 0 s) : p <:+: acc.reverse ++ s := by
  induction s generalizing acc with
  | nil =>
    rw [splitOnFrom, mem_singleton] at h
    rw [h, append_nil]
  | cons d s ih =>
    rw [splitOnFrom_cons] at h
    split at h
    · rcases mem_cons.mp h with rfl | h
      · exact (prefix_append _ _).isInfix
      · have hs : p <:+: s := ih h
        exact (hs.trans (suffix_cons d s).isInfix).trans (suffix_append _ _).isInfix
    · have hs := ih h
      rwa [reverse_cons, append_assoc, singleton_append] at hs

theorem infix_of_mem_splitOn {p : List Char} (h : p ∈ splitOn [c] s) : p <:+: s := infix_of_mem_splitOnFrom h

end Cutting

/-! ### Dividing -/

section Dividing

variable {p : Char → Bool} {a b u v : List Char}

theorem eq_of_append_eq (ha : ∀ c ∈ a, p c) (hb : ∀ c ∈ b, p c) (hu : ∀ c ∈ u.head?, p c = false)
    (hv : ∀ c ∈ v.head?, p c = false) (h : a ++ u = b ++ v) : a = b ∧ u = v := by
  have hstop : ∀ {w : List Char}, (∀ c ∈ w.head?, p c = false) → w.takeWhile p = [] := by
    intro w hw
    cases w with
    | nil => rfl
    | cons c w => exact takeWhile_cons_of_neg (by simp [hw c rfl])
  have htake := congrArg (List.takeWhile p) h
  rw [takeWhile_append_of_pos ha, takeWhile_append_of_pos hb, hstop hu, hstop hv, append_nil, append_nil] at htake
  exact ⟨htake, append_cancel_left (htake ▸ h)⟩

theorem eq_of_append_of_not_mem {c : Char} (ha : c ∉ a) (hb : c ∉ b) (hu : ∀ d ∈ u.head?, d = c)
    (hv : ∀ d ∈ v.head?, d = c) (h : a ++ u = b ++ v) : a = b ∧ u = v := by
  have hne : ∀ {w : List Char}, c ∉ w → ∀ d ∈ w, (d != c) :=
    fun hw d hd => bne_iff_ne.mpr fun heq => hw (heq ▸ hd)
  exact eq_of_append_eq (hne ha) (hne hb) (fun d hd => by simp [hu d hd]) (fun d hd => by simp [hv d hd]) h

end Dividing

/-! ### Joining -/

theorem join_nil (ps : List (List Char)) : join [] ps = ps.flatten := by
  induction ps with
  | nil => rfl
  | cons p ps ih =>
    cases ps with
    | nil => exact (append_nil p).symm
    | cons q ps => rw [join, ih, append_nil, ← flatten_cons]

theorem mem_join_iff {c : Char} {sep : List Char} (hsep : c ∉ sep) {ps : List (List Char)} :
    c ∈ join sep ps ↔ ∃ p ∈ ps, c ∈ p := by
  induction ps with
  | nil => simp [join]
  | cons p ps ih =>
    cases ps with
    | nil => simp [join]
    | cons q ps => simp [join, mem_append, ih, hsep]

theorem not_mem_join {c : Char} {sep : List Char} (hsep : c ∉ sep) {ps : List (List Char)} (h : ∀ p ∈ ps, c ∉ p) :
    c ∉ join sep ps := fun hc =>
  let ⟨p, hp, hcp⟩ := (mem_join_iff hsep).mp hc
  h p hp hcp

theorem join_cons (sep p : List Char) {ps : List (List Char)} (h : ps ≠ []) :
    join sep (p :: ps) = p ++ sep ++ join sep ps := by
  obtain ⟨q, qs, rfl⟩ := exists_cons_of_ne_nil h
  rfl

/-- What holds of some texts and of two texts with a separator between them holds of all of them, joined. -/
theorem join_induction {P : List Char → Prop} {sep : List Char} (hsep : ∀ {a b}, P a → P b → P (a ++ (sep ++ b)))
    {ws : List (List Char)} (hne : ws ≠ []) (hws : ∀ w ∈ ws, P w) : P (join sep ws) := by
  induction ws with
  | nil => exact absurd rfl hne
  | cons w ws ih =>
    obtain ⟨hw, hws⟩ := forall_mem_cons.mp hws
    cases ws with
    | nil => exact hw
    | cons w' ws =>
      rw [join_cons sep w (cons_ne_nil w' ws), append_assoc]
      exact hsep hw (ih (cons_ne_nil w' ws) hws)

theorem join_append (sep : List Char) {ps qs : List (List Char)} (hps : ps ≠ []) (hqs : qs ≠ []) :
    join sep (ps ++ qs) = join sep ps ++ sep ++ join sep qs := by
  induction ps with
  | nil => exact absurd rfl hps
  | cons p ps ih =>
    cases ps with
    | nil => exact join_cons sep p hqs
    | cons q ps =>
      have hrest := ih (cons_ne_nil q ps)
      rw [cons_append, join_cons sep p (by simp), hrest, join_cons sep p (cons_ne_nil q ps)]
      simp only [append_assoc]

theorem splitOn_join_eq_flatMap (c : Char) {ps : List (List Char)} (hne : ps ≠ []) :
    splitOn [c] (join [c] ps) = ps.flatMap (splitOn [c]) := by
  induction ps with
  | nil => exact absurd rfl hne
  | cons p ps ih =>
    cases ps with
    | nil => exact (flatMap_singleton ..).symm
    | cons q ps =>
      rw [join_cons [c] p (cons_ne_nil q ps), append_assoc, singleton_append, splitOn_append, ih (cons_ne_nil q ps),
        ← flatMap_cons]

theorem splitOn_join {c : Char} {ps : List (List Char)} (hne : ps ≠ []) (h : ∀ p ∈ ps, c ∉ p) :
    splitOn [c] (join [c] ps) = ps := by
  rw [splitOn_join_eq_flatMap c hne, flatMap_congr fun p hp => splitOn_of_not_mem (h p hp)]
  exact flatMap_singleton' ps

theorem one_lt_length_splitOn {c : Char} {s : List Char} (h : c ∈ s) : 1 < (splitOn [c] s).length := by
  obtain ⟨a, b, rfl⟩ := append_of_mem h
  have ha := length_pos_iff.mpr (splitOn_ne_nil [c] a)
  have hb := length_pos_iff.mpr (splitOn_ne_nil [c] b)
  rw [splitOn_append, length_append]
  omega

/-- Joined texts are cut into as many pieces again only if the separator is in none of them. -/
theorem not_mem_of_length_splitOn_join {c : Char} {ps : List (List Char)} (hne : ps ≠ [])
    (h : (splitOn [c] (join [c] ps)).length ≤ ps.length) : ∀ p ∈ ps, c ∉ p := by
  rw [splitOn_join_eq_flatMap c hne] at h
  clear hne
  have hle : ∀ qs : List (List Char), qs.length ≤ (qs.flatMap (splitOn [c])).length := by
    intro qs
    induction qs with
    | nil => exact Nat.le_refl 0
    | cons q qs ih =>
      have hq := length_pos_iff.mpr (splitOn_ne_nil [c] q)
      rw [flatMap_cons, length_append, length_cons]
      omega
  induction ps with
  | nil => simp
  | cons p ps ih =>
    have hrest := hle ps
    have hp := length_pos_iff.mpr (splitOn_ne_nil [c] p)
    rw [flatMap_cons, length_append, length_cons] at h
    refine forall_mem_cons.mpr ⟨fun hmem => ?_, ih (by omega)⟩
    have hmany := one_lt_length_splitOn hmem
    omega

/-- The last piece of joined texts is the last piece of the last of them. -/
theorem getLast?_splitOn_join (c : Char) (ps : List (List Char)) (p : List Char) :
    (splitOn [c] (join [c] (ps ++ [p]))).getLast? = (splitOn [c] p).getLast? := by
  rw [splitOn_join_eq_flatMap c (by simp), flatMap_append, flatMap_singleton,
    getLast?_append_of_ne_nil _ (splitOn_ne_nil [c] p)]

theorem mem_getLastD_splitOn {c d : Char} {s : List Char} (hlast : s.getLast? = some d) (hne : d ≠ c) :
    d ∈ (splitOn [c] s).getLastD [] := by
  by_cases hc : c ∈ s
  · obtain ⟨b, a, hs, hb⟩ := eq_append_cons_of_mem (mem_reverse.mpr hc)
    obtain rfl : s = a.reverse ++ c :: b.reverse := by simpa using congrArg reverse hs
    rw [splitOn_append, splitOn_of_not_mem (s := b.reverse) (by simpa using hb), getLastD_concat]
    cases b with
    | nil => exact absurd (by simpa using hlast) hne.symm
    | cons e b =>
      obtain rfl : e = d := by simpa [getLast?_append, getLast?_cons] using hlast
      simp
  · rw [splitOn_of_not_mem hc]
    exact mem_of_getLast? hlast

end CodeAtlas.Chars

namespace CodeAtlas.Text

open List

theorem not_mem_of_mem_splitOn {s sep v : String} {c : Char} (hsep : sep.toList = [c]) (h : v ∈ splitOn s sep) :
    c ∉ v.toList := by
  rw [splitOn, hsep, mem_map] at h
  obtain ⟨cs, hcs, rfl⟩ := h
  rw [String.toList_ofList]
  exact Chars.not_mem_of_mem_splitOn hcs

theorem infix_of_mem_splitOn {s sep v : String} {c : Char} (hsep : sep.toList = [c]) (h : v ∈ splitOn s sep) :
    v.toList <:+: s.toList := by
  rw [splitOn, hsep, mem_map] at h
  obtain ⟨cs, hcs, rfl⟩ := h
  rw [String.toList_ofList]
  exact Chars.infix_of_mem_splitOn hcs

theorem splitOn_join {sep : String} {c : Char} (hsep : sep.toList = [c]) {vs : List String} (hne : vs ≠ [])
    (h : ∀ v ∈ vs, c ∉ v.toList) : splitOn (join sep vs) sep = vs := by
  have hmap : ∀ cs ∈ vs.map String.toList, c ∉ cs := by
    intro cs hcs
    obtain ⟨v, hv, rfl⟩ := mem_map.mp hcs
    exact h v hv
  rw [splitOn, toList_join, hsep, Chars.splitOn_join (by simpa using hne) hmap, map_map]
  simp [Function.comp_def]

theorem getLastD_splitOn_join {sep : String} {c : Char} (hsep : sep.toList = [c]) (ps : List (List Char))
    (p : List Char) : (splitOn (String.ofList (Chars.join [c] (ps ++ [p]))) sep).getLastD "" =
      String.ofList ((Chars.splitOn [c] p).getLastD []) := by
  rw [splitOn, hsep, String.toList_ofList, getLastD_eq_getLast?, getLast?_map, Chars.getLast?_splitOn_join,
    getLastD_eq_getLast?]
  cases (Chars.splitOn [c] p).getLast? <;> rfl

end CodeAtlas.Text
