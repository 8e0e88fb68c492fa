import CodeAtlas.Proofs.Text.Split

/-!
# Parts of a text

A part that lacks a character does not reach across it, so it occurs in joined pieces only where it occurs in one of
them.

* `Chars.infix_append_cons_iff`, **`Chars.infix_join_iff`**: parts of texts that a character divides;
* `Chars.IsLaid.infix_of_mem`: the lines of a text are parts of it;
* `Chars.trim_isInfix`: so is the text without the blanks around it;
* `Chars.splitOn_append_separator`, `Chars.splitOn_of_not_infix`: a text is cut at the first separator, if it has one.
-/

namespace CodeAtlas.Chars

open List

/-! ### Parts that lack a character -/

section Dividing

variable {c : Char} {u : List Char}

theorem prefix_append_cons_iff (hc : c ∉ u) (a b : List Char) : u <+: a ++ c :: b ↔ u <+: a := by
  refine ⟨fun h => ?_, fun h => h.trans (prefix_append a _)⟩
  rcases prefix_or_prefix_of_prefix h (prefix_append a (c :: b)) with hua | ⟨r, rfl⟩
  · exact hua
  · have hr : r <+: c :: b := (prefix_append_right_inj a).mp h
    cases r with
    | nil => rw [append_nil]
    | cons d r =>
      obtain rfl : d = c := (cons_prefix_cons.mp hr).1
      exact absurd (mem_append_right a mem_cons_self) hc

theorem suffix_append_cons_iff (hc : c ∉ u) (a b : List Char) : u <:+ a ++ c :: b ↔ u <:+ b := by
  have hbefore := prefix_append_cons_iff (c := c) (u := u.reverse) (by simpa using hc) b.reverse a.reverse
  rw [← reverse_prefix, ← reverse_prefix, ← hbefore]
  simp

theorem infix_append_cons_iff (hc : c ∉ u) (a b : List Char) : u <:+: a ++ c :: b ↔ u <:+: a ∨ u <:+: b := by
  induction a with
  | nil =>
    have hbefore : u <+: c :: b ↔ u <+: [] := prefix_append_cons_iff hc [] b
    rw [nil_append, infix_cons_iff, hbefore, prefix_nil, infix_nil]
  | cons d a ih =>
    have hbefore : u <+: d :: (a ++ c :: b) ↔ u <+: d :: a := prefix_append_cons_iff hc (d :: a) b
    rw [cons_append, infix_cons_iff, hbefore, ih, infix_cons_iff, or_assoc]

theorem concat_infix_append_cons_iff {b : List Char} (hb : c ∉ b) (a : List Char) :
    u ++ [c] <:+: a ++ c :: b ↔ u <:+ a ∨ u ++ [c] <:+: a := by
  induction b using List.reverseRecOn with
  | nil =>
    have hends : u ++ [c] <:+ a ++ [c] ↔ u <:+ a := by
      rw [← reverse_prefix, reverse_append, reverse_append]
      simp
    rw [infix_concat_iff, hends]
  | append_singleton b d ih =>
    rw [mem_append, mem_singleton, not_or] at hb
    have hends : ¬ u ++ [c] <:+ (a ++ c :: b) ++ [d] := by
      rw [suffix_concat_iff]
      rintro (heq | ⟨t, heq, _⟩)
      · simp at heq
      · exact hb.2 (append_inj_right' heq rfl |> singleton_inj.mp)
    rw [← cons_append, ← append_assoc, infix_concat_iff, or_iff_right hends, ih hb.1]

/-- **A part that lacks the character between pieces occurs in one of them.** -/
theorem infix_join_iff (hc : c ∉ u) (hne : u ≠ []) (ls : List (List Char)) :
    u <:+: join [c] ls ↔ ∃ l ∈ ls, u <:+: l := by
  induction ls with
  | nil => simpa [join] using hne
  | cons l ls ih =>
    cases ls with
    | nil => simp [join]
    | cons m ls =>
      rw [join_cons [c] l (cons_ne_nil m ls), append_assoc, singleton_append, infix_append_cons_iff hc, ih]
      simp

end Dividing

/-! ### Parts of one text -/

theorem IsLaid.infix_of_mem {ls : List (List Char)} {s l : List Char} (h : IsLaid ls s) (hl : l ∈ ls) : l <:+: s := by
  induction h with
  | nil => cases hl
  | last m => rw [mem_singleton.mp hl]
  | cons m sep _ _ _ ih =>
    rcases mem_cons.mp hl with rfl | hl
    · exact (prefix_append ..).isInfix
    · exact ((ih hl).trans (suffix_append ..).isInfix).trans (suffix_append ..).isInfix

theorem trimEnd_isPrefix (s : List Char) : trimEnd s <+: s := by
  obtain ⟨t, heq, _⟩ := exists_trimEnd_append s
  exact ⟨t, heq.symm⟩

theorem trim_isInfix (s : List Char) : trim s <:+: s :=
  (trimEnd_isPrefix (trimStart s)).isInfix.trans (dropWhile_suffix isBlank).isInfix

theorem exists_trim_append (s : List Char) :
    ∃ lead trail, s = lead ++ (trim s ++ trail) ∧ lead.all isBlank ∧ trail.all isBlank := by
  obtain ⟨trail, heq, htrail⟩ := exists_trimEnd_append (trimStart s)
  refine ⟨s.takeWhile isBlank, trail, ?_, all_takeWhile, htrail⟩
  rw [trim, ← heq]
  exact takeWhile_append_dropWhile.symm

section End

variable {p : Char → Bool}

theorem dropEndWhile_append_of_all {b : List Char} (hb : b.all p) (a : List Char) :
    dropEndWhile p (a ++ b) = dropEndWhile p a := by
  have hrest : ∀ c ∈ b.reverse, p c := by simpa using hb
  rw [dropEndWhile, reverse_append, dropWhile_append_of_pos hrest, dropEndWhile]

theorem dropEndWhile_append_cons {c : Char} (hc : p c = false) (a b : List Char) :
    dropEndWhile p (a ++ c :: b) = a ++ c :: dropEndWhile p b := by
  have hstop : (b.reverse ++ c :: a.reverse).dropWhile p = b.reverse.dropWhile p ++ c :: a.reverse := by
    rw [dropWhile_append]
    split
    next hempty => rw [isEmpty_iff.mp hempty, nil_append, dropWhile_cons_of_neg (by simp [hc])]
    · rfl
  rw [dropEndWhile, reverse_append, reverse_cons, append_assoc, singleton_append, hstop]
  simp [dropEndWhile]

theorem dropEndWhile_eq_self_iff {s : List Char} : dropEndWhile p s = s ↔ ∀ c ∈ s.getLast?, p c = false := by
  induction s using List.reverseRecOn with
  | nil => simp [dropEndWhile]
  | append_singleton s d _ =>
    cases hd : p d with
    | true =>
      have hshort : (dropEndWhile p s).length ≤ s.length := by
        simpa [dropEndWhile] using (dropWhile_sublist p (l := s.reverse)).length_le
      rw [dropEndWhile_append_of_all (by simpa using hd)]
      refine iff_of_false (fun heq => ?_) (by simp [hd])
      rw [heq, length_append, length_singleton] at hshort
      omega
    | false =>
      simp [dropEndWhile, hd]

end End

variable {s p : List Char} {c : Char}

theorem trim_eq_self (hfirst : ∀ c ∈ s.head?, isBlank c = false)
    (hlast : ∀ c ∈ s.getLast?, isBlank c = false) : trim s = s := by
  have hstart : trimStart s = s := by
    rw [trimStart, dropWhile_eq_self_iff]
    intro hlt
    rw [hfirst _ (by rw [head?_eq_getElem?, getElem?_eq_getElem hlt, Option.mem_def])]
    exact Bool.false_ne_true
  rw [trim, hstart, trimEnd, dropEndWhile_eq_self_iff.mpr hlast]

theorem not_isBlank_head?_trimStart (h : c ∈ (trimStart s).head?) : isBlank c = false := by
  have hnot := head?_dropWhile_not isBlank s
  rw [Option.mem_def, trimStart] at h
  rw [h] at hnot
  exact hnot

theorem not_isBlank_getLast?_trimEnd (h : c ∈ (trimEnd s).getLast?) : isBlank c = false := by
  rw [trimEnd, dropEndWhile, getLast?_reverse] at h
  exact not_isBlank_head?_trimStart h

theorem not_isBlank_head?_trim (h : c ∈ (trim s).head?) : isBlank c = false := by
  obtain ⟨t, ht⟩ := trimEnd_isPrefix (trimStart s)
  refine not_isBlank_head?_trimStart (s := s) ?_
  rw [trim] at h
  rw [← ht, head?_append, h, Option.some_or, Option.mem_def]

theorem trim_trim (s : List Char) : trim (trim s) = trim s :=
  trim_eq_self (fun _ => not_isBlank_head?_trim) fun _ => not_isBlank_getLast?_trimEnd

theorem trimEnd_eq_self_iff {lead trail : List Char} (h : s = lead ++ (trim s ++ trail)) (hne : trim s ≠ [])
    (htrail : trail.all isBlank) : trimEnd s = s ↔ trail = [] := by
  have hlast : ∀ c ∈ (lead ++ trim s).getLast?, isBlank c = false := by
    intro c hc
    rw [getLast?_append, getLast?_eq_some_getLast hne, Option.some_or] at hc
    exact not_isBlank_getLast?_trimEnd (by rw [← trim, getLast?_eq_some_getLast hne]; exact hc)
  have hend : trimEnd (lead ++ (trim s ++ trail)) = lead ++ trim s := by
    rw [← append_assoc, trimEnd, dropEndWhile_append_of_all htrail, dropEndWhile_eq_self_iff.mpr hlast]
  rw [← h] at hend
  rw [hend]
  constructor
  · intro heq
    rw [← append_assoc, heq] at h
    simpa using h
  · rintro rfl
    rw [append_nil] at h
    exact h.symm

/-! ### Blanks around a text -/

theorem not_mem_of_blanks (hs : isBlankOnly s) (hc : isBlank c = false) : c ∉ s := by
  intro hmem
  rw [all_eq_true.mp hs c hmem] at hc
  cases hc

theorem trim_append_of_blank (hp : isBlankOnly p) (s : List Char) : trim (s ++ p) = trim s := by
  rw [trim, trim, trimStart_append]
  split
  next hs =>
    rw [trimStart_eq_nil_iff.mpr hp, trimStart_eq_nil_iff.mpr hs]
  next => exact dropEndWhile_append_of_all hp (trimStart s)

theorem trim_trimStart (s : List Char) : trim (trimStart s) = trim s := by
  have hagain : trimStart (trimStart s) = trimStart s := dropWhile_idempotent isBlank s
  rw [trim, hagain, trim]

theorem trim_append (hp : isBlankOnly p) (s : List Char) : trim (p ++ s) = trim s := by
  rw [← trim_trimStart, trimStart_append, if_pos hp, trim_trimStart]

/-- A text that starts and ends with characters that are no blanks. -/
def IsTight (s : List Char) : Prop := (∃ c t, s = c :: t ∧ isBlank c = false) ∧ ∃ t c, s = t ++ [c] ∧ isBlank c = false

theorem IsWord.isTight (h : IsWord s) : IsTight s := by
  refine ⟨⟨s.head h.ne_nil, s.tail, (cons_head_tail h.ne_nil).symm, h.solid _ (head_mem _)⟩, ?_⟩
  exact ⟨s.dropLast, s.getLast h.ne_nil, (dropLast_append_getLast h.ne_nil).symm, h.solid _ (getLast_mem _)⟩

namespace IsTight

theorem append (hs : IsTight s) (sep : List Char) (hp : IsTight p) : IsTight (s ++ sep ++ p) := by
  obtain ⟨⟨c, s, rfl, hc⟩, _⟩ := hs
  obtain ⟨_, p, d, rfl, hd⟩ := hp
  exact ⟨⟨c, _, rfl, hc⟩, c :: s ++ sep ++ p, d, (append_assoc ..).symm, hd⟩

theorem join {sep : List Char} {ps : List (List Char)} (hne : ps ≠ []) (h : ∀ p ∈ ps, IsTight p) :
    IsTight (join sep ps) := by
  induction ps with
  | nil => exact absurd rfl hne
  | cons p ps ih =>
    have hp := h p mem_cons_self
    cases ps with
    | nil => exact hp
    | cons q ps => exact hp.append sep (ih (cons_ne_nil q ps) fun r hr => h r (mem_cons_of_mem p hr))

/-- What stands before a tight text may be trimmed, and the text itself is kept. -/
theorem suffix_trim (h : IsTight s) (t : List Char) : s <:+ trim (t ++ s) := by
  obtain ⟨⟨c, u, hu, hc⟩, v, d, hv, hd⟩ := h
  have hend : ∀ w, trimEnd (w ++ s) = w ++ s := by
    intro w
    rw [hv, ← append_assoc, trimEnd, dropEndWhile_append_cons hd]
    rfl
  have hstart : trimStart s = s := by rw [hu, trimStart, dropWhile_cons_of_neg (by simp [hc])]
  rw [trim, trimStart_append]
  split
  · rw [hstart, ← nil_append s, hend]
  · rw [hend]
    exact suffix_append _ s

theorem trim_eq (h : IsTight s) : trim s = s := ((h.suffix_trim []).eq_of_length_le (trim_isInfix s).length_le).symm

end IsTight

/-! ### Where a part is found -/

theorem findFrom_eq_none_iff {k : Nat} : findFrom p k s = none ↔ ¬ p <:+: s := by
  induction s generalizing k with
  | nil => simp [findFrom]
  | cons c s ih =>
    rw [findFrom, infix_cons_iff, ← startsWith_iff, not_or, ← ih (k := k + 1)]
    split <;> simp_all

theorem find?_eq_none_iff : find? p s = none ↔ ¬ p <:+: s := findFrom_eq_none_iff

theorem find?_of_prefix (h : p <+: s) : find? p s = some 0 := by
  cases s with
  | nil => rw [prefix_nil.mp h]; rfl
  | cons c s => rw [find?, findFrom, if_pos (startsWith_iff.mpr h)]

theorem findLast?_of_suffix (h : p <:+ s) : findLast? p s = some (s.length - p.length) := by
  rw [findLast?, find?_of_prefix (List.reverse_prefix.mpr h)]
  rfl

theorem not_prefix_append {a : List Char} (h : ¬ p <:+: (c :: a) ++ p.dropLast) (b : List Char) :
    ¬ p <+: c :: (a ++ (p ++ b)) := by
  intro hstarts
  have hbefore : (c :: a) ++ p.dropLast <+: (c :: a) ++ (p ++ b) :=
    (prefix_append_right_inj _).mpr ((List.dropLast_prefix p).trans (prefix_append p b))
  have hlength : p.length ≤ ((c :: a) ++ p.dropLast).length := by simp; omega
  exact h (prefix_of_prefix_length_le hstarts hbefore hlength).isInfix

theorem findFrom_append {k : Nat} {a : List Char} (h : ¬ p <:+: a ++ p.dropLast) (hne : p ≠ []) (b : List Char) :
    findFrom p k (a ++ (p ++ b)) = some (k + a.length) := by
  induction a generalizing k with
  | nil =>
    obtain ⟨c, p, rfl⟩ := exists_cons_of_ne_nil hne
    exact if_pos (startsWith_iff.mpr (prefix_append (c :: p) b))
  | cons c a ih =>
    have hstarts := mt startsWith_iff.mp (not_prefix_append h b)
    rw [cons_append, infix_cons_iff, not_or] at h
    rw [cons_append, findFrom, if_neg hstarts, ih h.2, length_cons, Nat.add_assoc, Nat.add_comm 1]

theorem find?_append {a : List Char} (h : ¬ p <:+: a ++ p.dropLast) (hne : p ≠ []) (b : List Char) :
    find? p (a ++ (p ++ b)) = some a.length := by
  rw [find?, findFrom_append h hne, Nat.zero_add]

theorem exists_first (h : p <:+: s) (hne : p ≠ []) : ∃ a b, s = a ++ (p ++ b) ∧ ¬ p <:+: a ++ p.dropLast := by
  induction s with
  | nil => exact absurd (infix_nil.mp h) hne
  | cons c s ih =>
    by_cases hstarts : p <+: c :: s
    · obtain ⟨b, hb⟩ := hstarts
      refine ⟨[], b, hb.symm, fun hinfix => ?_⟩
      have hlength := hinfix.length_le
      have hpos := length_pos_iff.mpr hne
      rw [nil_append, length_dropLast] at hlength
      omega
    · obtain ⟨a, b, rfl, ha⟩ := ih ((infix_cons_iff.mp h).resolve_left hstarts)
      refine ⟨c :: a, b, rfl, ?_⟩
      rw [cons_append, infix_cons_iff, not_or]
      refine ⟨fun hstart => hstarts (hstart.trans ?_), ha⟩
      exact (prefix_append_right_inj (c :: a)).mpr ((List.dropLast_prefix p).trans (prefix_append p b))

/-! ### Cutting at a separator -/

section Separator

variable {sep : List Char}

theorem splitOnFrom_skip (acc a b : List Char) : splitOnFrom sep acc a.length (a ++ b) = splitOnFrom sep acc 0 b := by
  induction a with
  | nil => rfl
  | cons c a ih => rw [length_cons, cons_append, splitOnFrom, ih]

theorem splitOnFrom_separator (hne : sep ≠ []) (acc b : List Char) :
    splitOnFrom sep acc 0 (sep ++ b) = acc.reverse :: splitOn sep b := by
  obtain ⟨c, sep', rfl⟩ := exists_cons_of_ne_nil hne
  have hstarts : startsWith (c :: sep') (c :: (sep' ++ b)) := startsWith_iff.mpr (prefix_append (c :: sep') b)
  rw [cons_append, splitOnFrom, if_pos hstarts, length_cons, Nat.add_sub_cancel, splitOnFrom_skip]
  rfl

theorem splitOn_separator (hne : sep ≠ []) (b : List Char) : splitOn sep (sep ++ b) = [] :: splitOn sep b :=
  splitOnFrom_separator hne [] b

theorem splitOnFrom_append_separator (hne : sep ≠ []) {a : List Char} (ha : ¬ sep <:+: a ++ sep.dropLast)
    (acc b : List Char) : splitOnFrom sep acc 0 (a ++ (sep ++ b)) = (acc.reverse ++ a) :: splitOn sep b := by
  induction a generalizing acc with
  | nil => rw [nil_append, splitOnFrom_separator hne, append_nil]
  | cons d a ih =>
    have hstarts := mt startsWith_iff.mp (not_prefix_append ha b)
    rw [cons_append, infix_cons_iff, not_or] at ha
    rw [cons_append, splitOnFrom, if_neg hstarts, ih ha.2, reverse_cons, append_assoc, singleton_append]

theorem splitOn_append_separator (hne : sep ≠ []) {a : List Char} (ha : ¬ sep <:+: a ++ sep.dropLast) (b : List Char) :
    splitOn sep (a ++ (sep ++ b)) = a :: splitOn sep b := splitOnFrom_append_separator hne ha [] b

/-- A text is cut before a separator, if a character that the separator lacks stands before it. -/
theorem splitOn_append_word {x : Char} (hx : x ∉ sep) (hne : sep ≠ []) {a : List Char} (ha : ¬ sep <:+: a)
    (b : List Char) : splitOn sep (a ++ x :: (sep ++ b)) = (a ++ [x]) :: splitOn sep b := by
  have hword : ¬ sep <:+: (a ++ [x]) ++ sep.dropLast := by
    rw [append_assoc, singleton_append, infix_append_cons_iff hx, not_or]
    refine ⟨ha, fun h => ?_⟩
    have hlength := h.length_le
    have hpos := length_pos_iff.mpr hne
    rw [length_dropLast] at hlength
    omega
  rw [← splitOn_append_separator hne hword, append_assoc, singleton_append]

theorem exists_splitOn (h : sep <:+: s) (hne : sep ≠ []) : ∃ p q ps, splitOn sep s = p :: q :: ps := by
  obtain ⟨a, b, rfl, ha⟩ := exists_first h hne
  obtain ⟨q, ps, hrest⟩ := exists_cons_of_ne_nil (splitOnFrom_ne_nil sep [] 0 b)
  exact ⟨a, q, ps, by rw [splitOn_append_separator hne ha, splitOn, hrest]⟩

end Separator

theorem map_trim_splitOn (hc : isBlank c = false) (hp : isBlankOnly p) (s : List Char) :
    (splitOn [c] (p ++ s)).map trim = (splitOn [c] s).map trim := by
  have hmem : c ∉ p := not_mem_of_blanks hp hc
  by_cases hs : c ∈ s
  · obtain ⟨a, rest, rfl, ha⟩ := eq_append_cons_of_mem hs
    rw [← append_assoc, splitOn_append, splitOn_append, splitOn_of_not_mem (not_mem_append hmem ha),
      splitOn_of_not_mem ha]
    simp [trim_append hp]
  · rw [splitOn_of_not_mem hs, splitOn_of_not_mem (not_mem_append hmem hs), map_singleton, map_singleton,
      trim_append hp]

theorem map_trim_splitOnFrom (hc : isBlank c = false) (hp : isBlankOnly p) (acc s : List Char) :
    (splitOnFrom [c] acc 0 (s ++ p)).map trim = (splitOnFrom [c] acc 0 s).map trim := by
  induction s generalizing acc with
  | nil =>
    have hsep : ¬ [c] <:+: p := fun h => not_mem_of_blanks hp hc (h.subset mem_cons_self)
    rw [nil_append, splitOnFrom_of_not_infix hsep, splitOnFrom, map_singleton, map_singleton, trim_append_of_blank hp]
  | cons d s ih =>
    rw [cons_append, splitOnFrom_cons, splitOnFrom_cons]
    split
    · rw [map_cons, map_cons, ih]
    · exact ih (d :: acc)

/-! ### Words -/

theorem splitWhere_append_cons {α : Type} {p : α → Bool} {c : α} (hc : p c) (a b : List α) :
    splitWhere p (a ++ c :: b) = splitWhere p a ++ splitWhere p b := by
  induction a with
  | nil => simp [splitWhere, hc]
  | cons d a ih =>
    rw [cons_append, splitWhere, splitWhere, ih]
    cases hsplit : splitWhere p a with
    | nil => exact absurd hsplit (splitWhere_ne_nil p a)
    | cons w ws => cases p d <;> rfl

theorem splitWhere_of_all {α : Type} {p : α → Bool} {w : List α} (hw : ∀ c ∈ w, p c = false) :
    splitWhere p w = [w] := by
  induction w with
  | nil => rfl
  | cons c w ih =>
    obtain ⟨hc, hw⟩ := forall_mem_cons.mp hw
    simp [splitWhere, hc, ih hw]

theorem not_of_mem_splitWhere {α : Type} {p : α → Bool} {s w : List α} (h : w ∈ splitWhere p s) :
    ∀ c ∈ w, p c = false := by
  induction s generalizing w with
  | nil =>
    rw [splitWhere, mem_singleton] at h
    simp [h]
  | cons d s ih =>
    rw [splitWhere] at h
    split at h
    · rcases mem_cons.mp h with rfl | h
      · simp
      · exact ih h
    next hd =>
      split at h
      next hempty => exact absurd hempty (splitWhere_ne_nil p s)
      next v vs heq =>
        rw [heq] at ih
        rcases mem_cons.mp h with rfl | h
        · exact forall_mem_cons.mpr ⟨by simpa using hd, ih mem_cons_self⟩
        · exact ih (mem_cons_of_mem v h)

theorem all_of_splitWhere {α : Type} {p : α → Bool} {s : List α} (h : ∀ w ∈ splitWhere p s, w = []) :
    s.all p := by
  induction s with
  | nil => rfl
  | cons d s ih =>
    rw [splitWhere] at h
    split at h
    next hd =>
      rw [all_cons, hd, Bool.true_and]
      exact ih fun w hw => h w (mem_cons_of_mem _ hw)
    · split at h
      · cases h _ mem_cons_self
      · cases h _ mem_cons_self

theorem isWord_of_mem_words {s w : List Char} (h : w ∈ words s) : IsWord w := by
  obtain ⟨hmem, hne⟩ := mem_filter.mp h
  exact ⟨by simpa using hne, not_of_mem_splitWhere hmem⟩

theorem words_ne_nil {s : List Char} (h : isBlankOnly s = false) : words s ≠ [] := by
  intro hnil
  have hall : s.all isBlank := all_of_splitWhere fun w hw => by
    simpa using filter_eq_nil_iff.mp hnil w hw
  rw [isBlankOnly, hall] at h
  cases h

end CodeAtlas.Chars
