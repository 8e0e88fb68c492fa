import CodeAtlas.Text.Lines
import Mathlib.Data.List.DropRight

/-!
# Words at the ends of a text

A word without blanks stands at the start or at the end of a trimmed text.  What stands there is decided by the first
and by the last line of the text that is not blank, however its lines are ended.
-/

namespace CodeAtlas.Chars

open List

/-! ### Parts at the ends -/

variable {p s sep : List Char} {ls : List (List Char)}

theorem after?_eq_some_iff {t : List Char} : after? p s = some t ↔ s = p ++ t := by
  induction p generalizing s with
  | nil => simp [after?]
  | cons c p ih =>
    cases s with
    | nil => simp [after?]
    | cons d s =>
      rw [after?, cons_append, List.cons.injEq]
      split
      next heq => simp [ih, heq]
      next hne => simp [Ne.symm hne]

theorem startsWith_iff : startsWith p s ↔ p <+: s := by
  rw [startsWith, Option.isSome_iff_exists]
  exact exists_congr fun t => after?_eq_some_iff.trans eq_comm

theorem endsWith_iff : endsWith p s ↔ p <:+ s := startsWith_iff.trans reverse_prefix

structure IsWord (p : List Char) : Prop where
  ne_nil : p ≠ []
  solid : ∀ c ∈ p, isBlank c = false

theorem IsWord.of_all (hne : p ≠ []) (h : p.all (fun c => !isBlank c) = true) : IsWord p :=
  ⟨hne, fun c hc => by simpa using all_eq_true.mp h c hc⟩

theorem IsWord.prefix_append_iff (hp : IsWord p) (hsep : ∀ c ∈ sep.head?, isBlank c) :
    p <+: s ++ sep ↔ p <+: s := by
  refine ⟨fun h => ?_, fun h => h.trans (prefix_append s sep)⟩
  rcases prefix_or_prefix_of_prefix h (prefix_append s sep) with hps | ⟨r, rfl⟩
  · exact hps
  · have hr : r <+: sep := (prefix_append_right_inj s).mp h
    cases r with
    | nil => exact (append_nil s).symm ▸ prefix_rfl
    | cons c r =>
      obtain ⟨t, rfl⟩ := hr
      have hblank : isBlank c := hsep c rfl
      rw [hp.solid c (by simp)] at hblank
      cases hblank

/-! ### Opening and closing words -/

def isBlankOnly (s : List Char) : Bool := s.all isBlank

def Opens (p s : List Char) : Prop := p <+: trimStart s

def Closes (p s : List Char) : Prop := p <:+ trimEnd s

theorem IsWord.reverse (h : IsWord p) : IsWord p.reverse where
  ne_nil := fun heq => h.ne_nil (reverse_eq_nil_iff.mp heq)
  solid := fun c hc => h.solid c (mem_reverse.mp hc)

theorem opens_reverse_iff : Opens p.reverse s.reverse ↔ Closes p s := by
  rw [Opens, Closes, trimEnd, dropEndWhile, ← reverse_prefix, reverse_reverse]
  rfl

theorem isBlankOnly_reverse (s : List Char) : isBlankOnly s.reverse = isBlankOnly s := all_reverse

theorem trimStart_eq_nil_iff : trimStart s = [] ↔ isBlankOnly s := by
  rw [trimStart, dropWhile_eq_nil_iff, isBlankOnly, all_eq_true]

theorem trimStart_append (s t : List Char) :
    trimStart (s ++ t) = if isBlankOnly s then trimStart t else trimStart s ++ t := by
  have h : trimStart (s ++ t) = if (trimStart s).isEmpty then trimStart t else trimStart s ++ t := List.dropWhile_append
  simpa only [List.isEmpty_iff, trimStart_eq_nil_iff] using h

theorem IsWord.opens_append_iff (hp : IsWord p) (s sep t : List Char)
    (hblank : isBlankOnly sep) (hne : sep ≠ []) :
    Opens p (s ++ (sep ++ t)) ↔ if isBlankOnly s then Opens p t else Opens p s := by
  simp only [Opens, trimStart_append, hblank, if_true]
  by_cases hs : isBlankOnly s = true
  · rw [if_pos hs, if_pos hs]
  · rw [if_neg hs, if_neg hs]
    refine hp.prefix_append_iff fun c hc => ?_
    obtain ⟨d, sep, rfl⟩ := exists_cons_of_ne_nil hne
    exact all_eq_true.mp hblank c (mem_of_mem_head? hc)

theorem IsWord.closes_append_iff (hp : IsWord p) (s sep t : List Char)
    (hblank : isBlankOnly sep) (hne : sep ≠ []) :
    Closes p (s ++ (sep ++ t)) ↔ if isBlankOnly t then Closes p s else Closes p t := by
  have h := hp.reverse.opens_append_iff t.reverse sep.reverse s.reverse (by rwa [isBlankOnly_reverse])
    (fun heq => hne (reverse_eq_nil_iff.mp heq))
  rw [← reverse_append, ← reverse_append, append_assoc, isBlankOnly_reverse] at h
  simpa only [opens_reverse_iff] using h

theorem IsWord.not_opens (hp : IsWord p) (h : isBlankOnly s) : ¬ Opens p s := by
  rw [Opens, trimStart_eq_nil_iff.mpr h, prefix_nil]
  exact hp.ne_nil

theorem IsWord.not_closes (hp : IsWord p) (h : isBlankOnly s) : ¬ Closes p s := by
  rw [← opens_reverse_iff]
  exact hp.reverse.not_opens ((isBlankOnly_reverse s).trans h)

theorem exists_trimEnd_append (s : List Char) : ∃ t, s = trimEnd s ++ t ∧ isBlankOnly t := by
  refine ⟨(s.reverse.takeWhile isBlank).reverse, ?_, ?_⟩
  · rw [trimEnd, dropEndWhile, ← reverse_append, takeWhile_append_dropWhile, reverse_reverse]
  · rw [isBlankOnly_reverse]
    exact all_takeWhile

theorem IsWord.prefix_trimEnd_iff (hp : IsWord p) : p <+: trimEnd s ↔ p <+: s := by
  obtain ⟨t, heq, ht⟩ := exists_trimEnd_append s
  have h : p <+: trimEnd s ++ t ↔ p <+: trimEnd s :=
    hp.prefix_append_iff fun c hc => all_eq_true.mp ht c (mem_of_mem_head? hc)
  rw [← heq] at h
  exact h.symm

theorem IsWord.prefix_trim_iff (hp : IsWord p) : p <+: trim s ↔ Opens p s := hp.prefix_trimEnd_iff

theorem IsWord.suffix_trim_iff (hp : IsWord p) : p <:+ trim s ↔ Closes p s := by
  have heq : s.takeWhile isBlank ++ trimStart s = s := takeWhile_append_dropWhile
  have hblank : isBlankOnly (s.takeWhile isBlank) := all_takeWhile
  generalize s.takeWhile isBlank = sep at heq hblank
  rcases eq_or_ne sep [] with rfl | hne
  · exact iff_of_eq (congrArg (Closes p) heq)
  · have h := hp.closes_append_iff [] sep (trimStart s) hblank hne
    rw [nil_append, heq] at h
    rw [h]
    split
    next hs => exact iff_of_false (hp.not_closes hs) (hp.not_closes rfl)
    next => rfl

theorem trimEnd_eq_nil_iff : trimEnd s = [] ↔ isBlankOnly s := by
  rw [trimEnd, dropEndWhile, reverse_eq_nil_iff, ← isBlankOnly_reverse]
  exact trimStart_eq_nil_iff

theorem trim_eq_nil_iff : trim s = [] ↔ isBlankOnly s := by
  have hagain : trimStart (trimStart s) = trimStart s := dropWhile_idempotent isBlank s
  rw [trim, trimEnd_eq_nil_iff, ← trimStart_eq_nil_iff, hagain, trimStart_eq_nil_iff]

/-! ### Texts in lines -/

/-- A text is laid out in lines, with blanks between them and perhaps after the last. -/
inductive IsLaid : List (List Char) → List Char → Prop where
  | nil : IsLaid [] []
  | last (l : List Char) : IsLaid [l] l
  | cons (l sep : List Char) (hblank : isBlankOnly sep = true) (hne : sep ≠ []) {ls : List (List Char)}
      {rest : List Char} (h : IsLaid ls rest) : IsLaid (l :: ls) (l ++ (sep ++ rest))

theorem isLaid_join (hblank : isBlankOnly sep) (hne : sep ≠ []) (ls : List (List Char)) :
    IsLaid ls (join sep ls) := by
  fun_induction join sep ls with
  | case1 => exact .nil
  | case2 l => exact .last l
  | case3 l m ls ih =>
    rw [append_assoc]
    exact .cons l sep hblank hne ih

theorem isBlank_of_isLineBreak {c : Char} (h : isLineBreak c) : isBlank c := by
  simp only [isLineBreak, isBlank, Bool.or_eq_true, Bool.and_eq_true, decide_eq_true_eq, beq_iff_eq] at h ⊢
  omega

theorem isLaid_linesFrom (acc s : List Char) : IsLaid (linesFrom acc s) (acc.reverse ++ s) := by
  fun_induction linesFrom acc s with
  | case1 acc h =>
    rw [isEmpty_iff.mp h]
    exact .nil
  | case2 acc h =>
    rw [append_nil]
    exact .last acc.reverse
  | case3 acc cs ih => exact .cons acc.reverse ['\r', '\n'] rfl (by simp) ih
  | case4 acc c cs _ h ih =>
    refine .cons acc.reverse [c] ?_ (by simp) ih
    simp [isBlankOnly, isBlank_of_isLineBreak h]
  | case5 acc c cs _ h ih => simpa using ih

theorem isLaid_lines (s : List Char) : IsLaid (lines s) s := isLaid_linesFrom [] s

def filled (ls : List (List Char)) : List (List Char) := ls.filter (!isBlankOnly ·)

theorem filled_cons (l : List Char) (ls : List (List Char)) :
    filled (l :: ls) = if isBlankOnly l then filled ls else l :: filled ls := by
  by_cases h : isBlankOnly l = true <;> simp [filled, h]

theorem IsLaid.isBlankOnly_iff (h : IsLaid ls s) : isBlankOnly s ↔ filled ls = [] := by
  induction h with
  | nil => exact iff_of_true rfl rfl
  | last l => by_cases hl : isBlankOnly l = true <;> simp [filled, hl]
  | cons l sep hblank hne h ih =>
    rw [filled_cons]
    rw [isBlankOnly] at hblank
    by_cases hl : isBlankOnly l = true
    · rw [if_pos hl, ← ih]
      rw [isBlankOnly] at hl
      simp [isBlankOnly, hl, hblank]
    · rw [if_neg hl]
      refine iff_of_false (fun hall => hl ?_) (by simp)
      rw [isBlankOnly, all_append, Bool.and_eq_true] at hall
      exact hall.1

/-- **A text opens with a word if its first line does**, blank lines aside. -/
theorem IsLaid.opens_iff (h : IsLaid ls s) (hp : IsWord p) : Opens p s ↔ ∃ l ∈ (filled ls).head?, Opens p l := by
  induction h with
  | nil => simpa [filled] using hp.not_opens rfl
  | last l =>
    by_cases hl : isBlankOnly l = true
    · simpa [filled, hl] using hp.not_opens hl
    · simp [filled, hl]
  | cons l sep hblank hne h ih =>
    rw [hp.opens_append_iff l sep _ hblank hne, filled_cons]
    by_cases hl : isBlankOnly l = true
    · rw [if_pos hl, if_pos hl, ih]
    · simp [hl]

/-- **A text closes with a word if its last line does**, blank lines aside. -/
theorem IsLaid.closes_iff (h : IsLaid ls s) (hp : IsWord p) : Closes p s ↔ ∃ l ∈ (filled ls).getLast?, Closes p l := by
  induction h with
  | nil => simpa [filled] using hp.not_closes rfl
  | last l =>
    by_cases hl : isBlankOnly l = true
    · simpa [filled, hl] using hp.not_closes hl
    · simp [filled, hl]
  | @cons l sep hblank hne ls rest h ih =>
    rw [hp.closes_append_iff l sep _ hblank hne, filled_cons]
    by_cases hrest : isBlankOnly rest = true
    · rw [if_pos hrest, h.isBlankOnly_iff.mp hrest]
      by_cases hl : isBlankOnly l = true
      · simpa [hl] using hp.not_closes hl
      · simp [hl]
    · -- the last line is among the later ones
      have hls : filled ls ≠ [] := fun heq => hrest (h.isBlankOnly_iff.mpr heq)
      rw [if_neg hrest, ih]
      split
      · rfl
      · rw [getLast?_cons_of_ne_nil hls]

/-! ### Names -/

section

variable {c : Char}

theorem range_of_isNameChar (h : isNameChar c) : 48 ≤ c.toNat ∧ c.toNat ≤ 122 := by
  simp [isNameChar, isAsciiLetter, isAsciiDigit, Char.le_def, UInt32.le_iff_toNat_le] at h
  rcases h with h | rfl
  · omega
  · decide

theorem isWordChar_of_isNameChar (h : isNameChar c) : isWordChar c := by
  have hascii : c.toNat < 128 := by
    have := range_of_isNameChar h
    omega
  simpa [isWordChar, isAlnum, hascii, isNameChar] using h

theorem not_isBlank_of_isNameChar (h : isNameChar c) : isBlank c = false := by
  have := range_of_isNameChar h
  simp [isBlank]
  omega

end

/-- An ASCII letter or low line, and letters, digits and low lines. -/
def IsName (n : List Char) : Prop := ∃ c cs, n = c :: cs ∧ isNameStart c = true ∧ ∀ d ∈ cs, isNameChar d = true

theorem IsName.isNameChar {n : List Char} (h : IsName n) : ∀ c ∈ n, isNameChar c := by
  obtain ⟨c, cs, rfl, hc, hcs⟩ := h
  refine forall_mem_cons.mpr ⟨?_, hcs⟩
  simp only [isNameStart, CodeAtlas.isNameChar, Bool.or_eq_true] at hc ⊢
  exact hc.imp_left .inl

theorem IsName.isWord {n : List Char} (h : IsName n) : IsWord n := by
  refine ⟨?_, fun c hc => not_isBlank_of_isNameChar (h.isNameChar c hc)⟩
  obtain ⟨c, cs, rfl, _⟩ := h
  exact cons_ne_nil c cs

end CodeAtlas.Chars

namespace CodeAtlas.Text

theorem toList_trim (s : String) : (trim s).toList = Chars.trim s.toList := String.toList_ofList

theorem toList_trimEnd (s : String) : (trimEnd s).toList = Chars.trimEnd s.toList := String.toList_ofList

theorem toList_join (sep : String) (parts : List String) :
    (join sep parts).toList = Chars.join sep.toList (parts.map String.toList) := String.toList_ofList

theorem join_cons_cons (sep s t : String) (parts : List String) :
    join sep (s :: t :: parts) = s ++ sep ++ join sep (t :: parts) := by
  rw [← String.toList_inj, String.toList_append, String.toList_append, toList_join, toList_join]
  rfl

theorem map_toList_lines (s : String) : (lines s).map String.toList = Chars.lines s.toList := by
  simp [lines, Function.comp_def]

end CodeAtlas.Text
