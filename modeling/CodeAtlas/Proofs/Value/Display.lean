import CodeAtlas.Proofs.Text.OneLine
import CodeAtlas.Value.Display

/-!
# Values as text stay on one line

Inside a list or a record line breaks are escaped, and numbers are written with a few characters, so that a value other
than a text is always written on one line.
-/

namespace CodeAtlas

open List Text

/-! ### Numbers -/

def numeralChars : List Char := "0123456789abcdef+-.in".toList

theorem isOneLine_numeral {cs : List Char} (h : cs ⊆ numeralChars) : Chars.isOneLine cs :=
  Chars.isOneLine_of_subset (by decide : Chars.isOneLine numeralChars = true) h

theorem digitChar_mem : ∀ k < 16, Nat.digitChar k ∈ numeralChars := by decide

theorem toDigitsCore_subset {b : Nat} (hpos : 0 < b) (hle : b ≤ 16) (fuel n : Nat) {ds : List Char}
    (hds : ds ⊆ numeralChars) : Nat.toDigitsCore b fuel n ds ⊆ numeralChars := by
  induction fuel generalizing n ds with
  | zero => simpa [Nat.toDigitsCore] using hds
  | succ fuel ih =>
    have hdigit : Nat.digitChar (n % b) ∈ numeralChars := digitChar_mem _ ((Nat.mod_lt n hpos).trans_le hle)
    have hmore : Nat.digitChar (n % b) :: ds ⊆ numeralChars := cons_subset.mpr ⟨hdigit, hds⟩
    unfold Nat.toDigitsCore
    dsimp only
    split
    · exact hmore
    · exact ih _ hmore

theorem toDigits_subset {b : Nat} (hpos : 0 < b) (hle : b ≤ 16) (n : Nat) : Nat.toDigits b n ⊆ numeralChars :=
  toDigitsCore_subset hpos hle _ _ (nil_subset _)

theorem int_subset (n : Int) : (toString n).toList ⊆ numeralChars := by
  have hnat : ∀ m : Nat, m.repr.toList ⊆ numeralChars := by
    intro m
    rw [Nat.repr, String.toList_ofList]
    exact toDigits_subset (by decide) (by decide) m
  rw [Int.toString_eq_repr, Int.repr_eq_if]
  split
  · exact hnat _
  · rw [String.toList_append]
    exact append_subset.mpr ⟨by decide, hnat _⟩

namespace Binary64

theorem replicate_subset (n : Nat) : List.replicate n '0' ⊆ numeralChars := by
  intro c hc
  rw [eq_of_mem_replicate hc]
  decide

theorem digitsOf_subset (n : Nat) : digitsOf n ⊆ numeralChars := toDigits_subset (by decide) (by decide) n

theorem exponentText_subset (e : Int) : exponentText e ⊆ numeralChars := by
  have hdigits := digitsOf_subset e.natAbs
  unfold exponentText
  dsimp only
  refine cons_subset.mpr ⟨by decide, cons_subset.mpr ⟨?_, ?_⟩⟩
  · split <;> decide
  · split
    · exact cons_subset.mpr ⟨by decide, hdigits⟩
    · exact hdigits

theorem layout_subset (c : Nat) (e : Int) : layout c e ⊆ numeralChars := by
  have hdigits := digitsOf_subset c
  unfold layout
  dsimp only
  split
  · refine append_subset.mpr ⟨?_, exponentText_subset _⟩
    split
    next h => exact nil_subset _
    next d h =>
      rw [h] at hdigits
      exact hdigits
    next d r _ h =>
      rw [h, cons_subset] at hdigits
      exact cons_subset.mpr ⟨hdigits.1, cons_subset.mpr ⟨by decide, hdigits.2⟩⟩
  · split
    · exact cons_subset.mpr ⟨by decide, cons_subset.mpr ⟨by decide,
        append_subset.mpr ⟨replicate_subset _, hdigits⟩⟩⟩
    · split
      · exact append_subset.mpr ⟨append_subset.mpr ⟨hdigits, replicate_subset _⟩, by decide⟩
      · exact append_subset.mpr ⟨List.Subset.trans (take_subset _ _) hdigits,
          cons_subset.mpr ⟨by decide, List.Subset.trans (drop_subset _ _) hdigits⟩⟩

theorem text_subset (x : Binary64) : x.text.toList ⊆ numeralChars := by
  cases x with
  | nan => decide
  | infinite neg => cases neg <;> decide
  | finite neg m e =>
    have hbody : (if m = 0 then ['0', '.', '0'] else layout (shortest m e).1 (shortest m e).2) ⊆ numeralChars := by
      split
      · decide
      · exact layout_subset _ _
    unfold text
    dsimp only
    rw [String.toList_ofList]
    split
    · exact cons_subset.mpr ⟨by decide, hbody⟩
    · exact hbody

end Binary64

/-! ### Texts in quotes -/

set_option maxRecDepth 20000 in
theorem unprintable_lineBreaks :
    ∀ n ∈ [0x85, 0x2028, 0x2029], CharTable.unprintable.contains (Char.ofNat n) := by
  unfold CharTable.unprintable CharSet.ofText
  rw [String.toList_ofList]
  decide +kernel

theorem isPrintable_of_isLineBreak {c : Char} (h : isLineBreak c) : isPrintable c = false := by
  have hmem := isLineBreak_iff.mp h
  unfold isPrintable
  split
  next hascii =>
    simp only [lineBreaks, mem_cons, not_mem_nil, or_false] at hmem
    simp only [Bool.and_eq_false_iff, decide_eq_false_iff_not]
    omega
  next hwide =>
    have hthree : c.toNat ∈ [0x85, 0x2028, 0x2029] := by
      simp only [lineBreaks, mem_cons, not_mem_nil, or_false] at hmem ⊢
      omega
    have htable := unprintable_lineBreaks c.toNat hthree
    rw [Char.ofNat_toNat] at htable
    rw [htable]
    rfl

theorem hexText_subset (width n : Nat) : hexText width n ⊆ numeralChars :=
  append_subset.mpr ⟨Binary64.replicate_subset _, toDigits_subset (by decide) (by decide) n⟩

theorem isOneLine_quotedChar {quote : Char} (hquote : isLineBreak quote = false) (c : Char) :
    Chars.isOneLine (quotedChar quote c) := by
  have hhex : ∀ x y : Char, Chars.isOneLine [x, y] → ∀ width n,
      Chars.isOneLine (x :: y :: hexText width n) = true := by
    intro x y hxy width n
    rw [show x :: y :: hexText width n = [x, y] ++ hexText width n from rfl, Chars.isOneLine_append, hxy,
      isOneLine_numeral (hexText_subset width n)]
    rfl
  unfold quotedChar
  split
  next h =>
    have hc : isLineBreak c = false := by
      rcases (Bool.or_eq_true _ _).mp h with h | h
      · rwa [beq_iff_eq.mp h]
      · rw [beq_iff_eq.mp h]
        decide
    simp [Chars.isOneLine, hc]
    decide
  · split
    · decide
    · split
      · decide
      · split
        · decide
        · split
          next hprints =>
            have hc : isLineBreak c = false := by
              rw [← Bool.not_eq_true]
              intro hbreak
              rw [isPrintable_of_isLineBreak hbreak] at hprints
              cases hprints
            simp [Chars.isOneLine, hc]
          · split
            · exact hhex _ _ (by decide) _ _
            · split
              · exact hhex _ _ (by decide) _ _
              · exact hhex _ _ (by decide) _ _

theorem isOneLine_quoted (s : String) : Text.isOneLine (quoted s) := by
  have hinner : ∀ {quote : Char}, isLineBreak quote = false →
      Chars.isOneLine (quote :: s.toList.flatMap (quotedChar quote) ++ [quote]) = true := by
    intro quote hquote
    rw [Chars.isOneLine_iff]
    intro c hc
    simp only [cons_append, mem_cons, mem_append, mem_flatMap, not_mem_nil, or_false] at hc
    rcases hc with rfl | ⟨d, _, hdc⟩ | rfl
    · exact hquote
    · exact Chars.isOneLine_iff.mp (isOneLine_quotedChar hquote d) c hdc
    · exact hquote
  unfold quoted
  dsimp only
  rw [isOneLine_ofList]
  split
  · exact hinner (by decide)
  · exact hinner (by decide)

/-! ### Values -/

theorem Atom.isOneLine_quotedText (a : Atom) : Text.isOneLine a.quotedText := by
  cases a with
  | null => decide
  | bool b => cases b <;> decide
  | int n => exact isOneLine_numeral (int_subset n)
  | float x => exact isOneLine_numeral x.text_subset
  | text s => exact isOneLine_quoted s

namespace Value

mutual

theorem isOneLine_nested : ∀ v : Value, Text.isOneLine v.nested
  | .atom a => a.isOneLine_quotedText
  | .list xs => by
    rw [nested, isOneLine_append, isOneLine_append, isOneLine_nestedItems xs]
    decide
  | .record fs => by
    rw [nested, isOneLine_append, isOneLine_append, isOneLine_nestedFields fs]
    decide

theorem isOneLine_nestedItems : ∀ xs : List Value, Text.isOneLine (nestedItems xs)
  | [] => by decide
  | [x] => isOneLine_nested x
  | x :: y :: xs => by
    rw [nestedItems, isOneLine_append, isOneLine_append, isOneLine_nested x, isOneLine_nestedItems (y :: xs)]
    decide

theorem isOneLine_nestedFields : ∀ fs : List (Atom × Value), Text.isOneLine (nestedFields fs)
  | [] => by decide
  | [(k, v)] => by
    rw [nestedFields, isOneLine_append, isOneLine_append, k.isOneLine_quotedText, isOneLine_nested v]
    decide
  | (k, v) :: f :: fs => by
    simp only [nestedFields, isOneLine_append, k.isOneLine_quotedText, isOneLine_nested v,
      isOneLine_nestedFields (f :: fs)]
    decide

end

end Value

end CodeAtlas
