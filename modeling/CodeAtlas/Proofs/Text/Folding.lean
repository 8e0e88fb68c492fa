import CodeAtlas.Proofs.Text.Occurrence
import CodeAtlas.Text.Case

/-!
# Parts of a text in letters of any case

A part is looked for in the lower case of a text.  Lower case depends on context in one place, the form of the small
sigma; a part without that letter is found in the lower case of a text if it is found where every character is lowered
by itself.  So it is found in a text if it is found in one of the pieces that line feeds divide.

* `Text.lower_eq_empty_iff`: only the empty text is empty in lower case;
* `Text.lower_lower_of_ascii`: a text of ASCII characters in lower case is in lower case.
-/

namespace CodeAtlas

theorem lowerChar_ne_nil (c : Char) : lowerChar c ≠ [] := by
  unfold lowerChar
  split
  · simp
  · exact CharMap.apply_ofText_ne_nil _ _ c

theorem lowerAt_ne_nil (before : List Char) (c : Char) (after : List Char) : lowerAt before c after ≠ [] := by
  unfold lowerAt
  split
  · simp
  · exact lowerChar_ne_nil c

theorem lowerAfter_eq_nil_iff {before cs : List Char} : lowerAfter before cs = [] ↔ cs = [] := by
  cases cs with
  | nil => simp [lowerAfter]
  | cons c cs => simp [lowerAfter, lowerAt_ne_nil]

theorem Text.lower_eq_empty_iff {s : String} : Text.lower s = "" ↔ s = "" := by
  rw [Text.lower, String.ofList_eq_empty_iff, lowerAfter_eq_nil_iff, String.toList_eq_nil_iff]

/-! ### ASCII -/

def isAscii (s : String) : Bool := s.toList.all (·.toNat < 128)

def asciiLower (c : Char) : Char := if isAsciiUpper c then Char.ofNat (c.toNat + 32) else c

theorem asciiLower_table : ∀ n < 128, isAsciiUpper (asciiLower (Char.ofNat n)) = false ∧
    (asciiLower (Char.ofNat n)).toNat < 128 := by
  decide

theorem asciiLower_spec {c : Char} (h : c.toNat < 128) :
    isAsciiUpper (asciiLower c) = false ∧ (asciiLower c).toNat < 128 := by
  have htable := asciiLower_table c.toNat h
  rwa [Char.ofNat_toNat] at htable

theorem asciiLower_asciiLower {c : Char} (h : c.toNat < 128) : asciiLower (asciiLower c) = asciiLower c := by
  rw [asciiLower, (asciiLower_spec h).1, if_neg Bool.false_ne_true]

theorem lowerAfter_of_ascii {before cs : List Char} (h : ∀ c ∈ cs, c.toNat < 128) :
    lowerAfter before cs = cs.map asciiLower := by
  induction cs generalizing before with
  | nil => rfl
  | cons c cs ih =>
    have hc : c.toNat < 128 := h c List.mem_cons_self
    have hsigma : (c.toNat == 0x3A3) = false := by
      rw [beq_eq_false_iff_ne]
      omega
    rw [lowerAfter, lowerAt, hsigma, if_neg Bool.false_ne_true, lowerChar, if_pos hc,
      ih fun d hd => h d (List.mem_cons_of_mem _ hd)]
    rfl

theorem Text.lower_lower_of_ascii {s : String} (h : isAscii s) : Text.lower (Text.lower s) = Text.lower s := by
  have hs : ∀ c ∈ s.toList, c.toNat < 128 := by simpa [isAscii] using h
  have hlower : ∀ c ∈ s.toList.map asciiLower, c.toNat < 128 := by
    intro c hc
    obtain ⟨d, hd, rfl⟩ := List.mem_map.mp hc
    exact (asciiLower_spec (hs d hd)).2
  unfold Text.lower
  rw [lowerAfter_of_ascii hs, String.toList_ofList, lowerAfter_of_ascii hlower, List.map_map]
  congr 1
  apply List.map_congr_left
  intro c hc
  exact asciiLower_asciiLower (hs c hc)

open List

def oneSigma (c : Char) : Char := if c.toNat == 0x3C2 then Char.ofNat 0x3C3 else c

/-- Lower case of a character, whatever stands around it. -/
def foldChar (c : Char) : List Char := (lowerAt [] c []).map oneSigma

/-- Whether a text lacks the small sigma in both forms. -/
def lacksSigma (cs : List Char) : Bool := cs.all fun c => c.toNat != 0x3C2 && c.toNat != 0x3C3

namespace Chars

/-! ### Parts of a text in lower case -/

theorem map_oneSigma_lowerAt (before : List Char) (c : Char) (after : List Char) :
    (lowerAt before c after).map oneSigma = foldChar c := by
  unfold foldChar lowerAt
  by_cases hc : (c.toNat == 0x3A3) = true
  · rw [if_pos hc, if_pos hc]
    split <;> rfl
  · rw [if_neg hc, if_neg hc]

theorem map_oneSigma_lowerAfter (before cs : List Char) :
    (lowerAfter before cs).map oneSigma = cs.flatMap foldChar := by
  induction cs generalizing before with
  | nil => rfl
  | cons c cs ih => rw [lowerAfter, map_append, map_oneSigma_lowerAt, ih, flatMap_cons]

theorem oneSigma_eq_self {c : Char} (h : c.toNat ≠ 0x3C2) : oneSigma c = c := by
  rw [oneSigma, if_neg (by simpa using h)]

theorem infix_map_oneSigma_iff {u s : List Char} (hu : lacksSigma u) : u <:+: s.map oneSigma ↔ u <:+: s := by
  have hlacks : ∀ c ∈ u, c.toNat ≠ 0x3C2 ∧ c.toNat ≠ 0x3C3 := by simpa [lacksSigma] using hu
  constructor
  · rintro ⟨a, b, h⟩
    obtain ⟨s₁, b', rfl, h₁, _⟩ := map_eq_append_iff.mp h.symm
    obtain ⟨a', v, rfl, _, hv⟩ := map_eq_append_iff.mp h₁
    have hself : v.map oneSigma = v := by
      refine (map_congr_left fun c hc => ?_).trans (map_id v)
      refine oneSigma_eq_self fun hsigma => ?_
      have hmem : oneSigma c ∈ u := hv ▸ mem_map_of_mem hc
      rw [oneSigma, if_pos (by simp [hsigma])] at hmem
      exact (hlacks _ hmem).2 rfl
    rw [← hv, hself]
    exact ⟨a', b', rfl⟩
  · intro h
    have hself : u.map oneSigma = u := (map_congr_left fun c hc => oneSigma_eq_self (hlacks c hc).1).trans (map_id u)
    rw [← hself]
    exact h.map oneSigma

/-- **A part without the small sigma is found in the lower case of a text if it is found where every character is
lowered by itself.** -/
theorem infix_lowerAfter_iff {u : List Char} (hu : lacksSigma u) (before cs : List Char) :
    u <:+: lowerAfter before cs ↔ u <:+: cs.flatMap foldChar := by
  rw [← map_oneSigma_lowerAfter before, infix_map_oneSigma_iff hu]

theorem flatMap_isInfix {a b : List Char} (f : Char → List Char) (h : a <:+: b) : a.flatMap f <:+: b.flatMap f := by
  obtain ⟨s, t, rfl⟩ := h
  exact ⟨s.flatMap f, t.flatMap f, by rw [flatMap_append, flatMap_append]⟩

theorem fold_append_break (a b : List Char) :
    (a ++ '\n' :: b).flatMap foldChar = a.flatMap foldChar ++ '\n' :: b.flatMap foldChar := by
  have hbreak : foldChar '\n' = ['\n'] := by decide
  rw [flatMap_append, flatMap_cons, hbreak]
  rfl

theorem infix_fold_join_iff {u : List Char} (hu : '\n' ∉ u) (hne : u ≠ []) (ls : List (List Char)) :
    u <:+: (join ['\n'] ls).flatMap foldChar ↔ ∃ l ∈ ls, u <:+: l.flatMap foldChar := by
  induction ls with
  | nil => simpa [join] using hne
  | cons l ls ih =>
    cases ls with
    | nil => simp [join]
    | cons m ls =>
      rw [join_cons ['\n'] l (cons_ne_nil m ls), append_assoc, singleton_append, fold_append_break,
        infix_append_cons_iff hu, ih]
      simp

/-! ### The ends of a text in lower case -/

theorem exists_lowerAfter_append (before a b : List Char) :
    ∃ a', lowerAfter before (a ++ b) = a' ++ lowerAfter (a.reverse ++ before) b ∧ a.length ≤ a'.length := by
  induction a generalizing before with
  | nil => exact ⟨[], rfl, le_rfl⟩
  | cons c a ih =>
    obtain ⟨a', ha', hlength⟩ := ih (c :: before)
    have hne := length_pos_iff.mpr (lowerAt_ne_nil before c (a ++ b))
    refine ⟨lowerAt before c (a ++ b) ++ a', ?_, ?_⟩
    · rw [cons_append, lowerAfter, ha', reverse_cons, append_assoc, append_assoc, singleton_append]
    · rw [length_append, length_cons]
      omega

theorem length_le_lowerAfter (before cs : List Char) : cs.length ≤ (lowerAfter before cs).length := by
  obtain ⟨a', ha', hlength⟩ := exists_lowerAfter_append before cs []
  rw [append_nil] at ha'
  rw [ha', length_append]
  omega

/-- Whether a text holds only ASCII characters that are not upper-case letters. -/
def isLowAscii (cs : List Char) : Bool := cs.all fun c => decide (c.toNat < 128) && !isAsciiUpper c

theorem lowerAt_of_isLowAscii {c : Char} (h : (decide (c.toNat < 128) && !isAsciiUpper c))
    (before after : List Char) : lowerAt before c after = [c] := by
  rw [Bool.and_eq_true, decide_eq_true_iff, Bool.not_eq_true'] at h
  have hsigma : (c.toNat == 0x3A3) = false := by
    rw [beq_eq_false_iff_ne]
    omega
  rw [lowerAt, hsigma, if_neg Bool.false_ne_true, lowerChar, if_pos h.1, h.2, if_neg Bool.false_ne_true]

theorem lowerAfter_append_of_isLowAscii {a : List Char} (h : isLowAscii a) (before b : List Char) :
    lowerAfter before (a ++ b) = a ++ lowerAfter (a.reverse ++ before) b := by
  induction a generalizing before with
  | nil => rfl
  | cons c a ih =>
    rw [isLowAscii, all_cons, Bool.and_eq_true] at h
    rw [cons_append, lowerAfter, lowerAt_of_isLowAscii h.1, ih h.2, reverse_cons, append_assoc,
      singleton_append, singleton_append, cons_append]

theorem prefix_lowerAfter {w cs : List Char} (hw : isLowAscii w) (h : w <+: cs) (before : List Char) :
    w <+: lowerAfter before cs := by
  obtain ⟨rest, rfl⟩ := h
  rw [lowerAfter_append_of_isLowAscii hw]
  exact prefix_append ..

theorem suffix_lowerAfter {w cs : List Char} (hw : isLowAscii w) (h : w <:+ cs) (before : List Char) :
    w <:+ lowerAfter before cs := by
  obtain ⟨rest, rfl⟩ := h
  obtain ⟨a', ha', _⟩ := exists_lowerAfter_append before rest w
  have hlower := lowerAfter_append_of_isLowAscii hw (rest.reverse ++ before) []
  rw [append_nil] at hlower
  rw [ha', hlower, lowerAfter, append_nil]
  exact suffix_append ..

end Chars

theorem Text.toList_lower (s : String) : (Text.lower s).toList = lowerAfter [] s.toList := String.toList_ofList

end CodeAtlas
