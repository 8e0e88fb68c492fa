import CodeAtlas.Text.ComposeTable

/-!
# Compatibility composition of identifiers

Two spellings of an identifier that differ only in compatibility variants of characters, or in whether an
accent is a character of its own, are one identifier. `composed` gives the common spelling: every character
is taken apart, marks are put in the order of their combining classes, and neighbours are joined again
where a single character exists for them.
-/

namespace CodeAtlas

def decomposeMap : CharMap := CharMap.ofText ComposeTable.decomposeRuns ComposeTable.decomposeExpansions

def readMarked (cs : List Char) : List (Nat × Nat × Nat) :=
  match readNumbers 0 cs with
  | [] => []
  | k :: ns => (CharSet.readRanges 0 ns).map fun r => (r.1, r.2, k)

def combiningClasses : List (Nat × Nat × Nat) := (tableEntries ComposeTable.classes).flatMap readMarked

def combiningClass (c : Char) : Nat :=
  if c.toNat < 0x300 then 0
  else match combiningClasses.find? (fun e => e.1 ≤ c.toNat && c.toNat ≤ e.2.1) with
    | some e => e.2.2
    | none => 0

def compositions : List (Nat × Nat × Nat) :=
  let seconds := (tableEntries ComposeTable.pairs).flatMap fun cs =>
    (readMarked cs).flatMap fun r => (codePoints [(r.1, r.2.1)]).map fun c => (r.2.2, c)
  (tableLetters ComposeTable.pairLetters).map Char.toNat |>.zip seconds

def pairOf? (c : Char) : Option (Char × Char) :=
  (compositions.find? (fun e => e.2.2 == c.toNat)).map fun e => (Char.ofNat e.1, Char.ofNat e.2.1)

def takeApart : Nat → Char → List Char
  | 0, c => decomposeMap.apply c
  | n + 1, c => (pairOf? c).elim (decomposeMap.apply c) fun p => takeApart n p.1 ++ [p.2]

def decompose (c : Char) : List Char :=
  let n := c.toNat
  if n < 128 then [c]
  else if 0xAC00 ≤ n ∧ n ≤ 0xD7A3 then
    let s := n - 0xAC00
    let l := Char.ofNat (0x1100 + s / 588)
    let v := Char.ofNat (0x1161 + s % 588 / 28)
    if s % 28 = 0 then [l, v] else [l, v, Char.ofNat (0x11A7 + s % 28)]
  else takeApart 3 c

theorem takeApart_ne_nil (n : Nat) (c : Char) : takeApart n c ≠ [] := by
  cases n with
  | zero => exact CharMap.apply_ofText_ne_nil _ _ c
  | succ n =>
    rw [takeApart]
    cases pairOf? c with
    | none =>
      rw [Option.elim_none]
      exact CharMap.apply_ofText_ne_nil _ _ c
    | some p => exact List.append_ne_nil_of_right_ne_nil _ (List.cons_ne_nil _ _)

theorem decompose_ne_nil (c : Char) : decompose c ≠ [] := by
  simp only [decompose]
  split
  · simp
  · split
    · split <;> simp
    · exact takeApart_ne_nil 3 c

def composePair? (a b : Char) : Option Char :=
  let x := a.toNat
  let y := b.toNat
  if 0x1100 ≤ x ∧ x ≤ 0x1112 ∧ 0x1161 ≤ y ∧ y ≤ 0x1175 then
    some (Char.ofNat (0xAC00 + ((x - 0x1100) * 21 + (y - 0x1161)) * 28))
  else if 0xAC00 ≤ x ∧ x ≤ 0xD7A3 ∧ (x - 0xAC00) % 28 = 0 ∧ 0x11A8 ≤ y ∧ y ≤ 0x11C2 then
    some (Char.ofNat (x + (y - 0x11A7)))
  else match compositions.find? (fun e => e.1 == x && e.2.1 == y) with
    | some e => some (Char.ofNat e.2.2)
    | none => none

def insertMark (c : Char) : List Char → List Char
  | [] => [c]
  | d :: ds => if combiningClass c < combiningClass d then c :: d :: ds else d :: insertMark c ds

def orderMarks (marks : List Char) : List Char → List Char
  | [] => marks
  | c :: cs =>
    if combiningClass c = 0 then marks ++ c :: orderMarks [] cs else orderMarks (insertMark c marks) cs

def composeFrom (starter : Option Char) (left : List Char) : List Char → List Char
  | [] => starter.toList ++ left.reverse
  | c :: cs =>
    let k := combiningClass c
    let free := match left with
      | [] => true
      | m :: _ => decide (combiningClass m < k)
    match (if free then starter.bind (composePair? · c) else none) with
    | some d => composeFrom (some d) left cs
    | none =>
      if k = 0 then starter.toList ++ left.reverse ++ composeFrom (some c) [] cs
      else composeFrom starter (c :: left) cs

def composed (s : List Char) : List Char :=
  if s.all (fun c => c.toNat < 128) then s
  else composeFrom none [] (orderMarks [] (s.flatMap decompose))

theorem insertMark_ne_nil (c : Char) (ds : List Char) : insertMark c ds ≠ [] := by
  cases ds with
  | nil => simp [insertMark]
  | cons d ds => simp only [insertMark]; split <;> simp

theorem orderMarks_ne_nil {marks cs : List Char} (h : marks ≠ [] ∨ cs ≠ []) : orderMarks marks cs ≠ [] := by
  induction cs generalizing marks with
  | nil => simpa [orderMarks] using h
  | cons c cs ih =>
    simp only [orderMarks]
    split
    · simp
    · exact ih (.inl (insertMark_ne_nil c marks))

theorem composeFrom_ne_nil {starter : Option Char} {left cs : List Char}
    (h : starter.isSome ∨ left ≠ [] ∨ cs ≠ []) : composeFrom starter left cs ≠ [] := by
  induction cs generalizing starter left with
  | nil =>
    rcases h with h | h | h
    · simp [composeFrom, Option.isSome_iff_ne_none.mp h]
    · simp [composeFrom, h]
    · exact absurd rfl h
  | cons c cs ih =>
    simp only [composeFrom]
    split
    · exact ih (.inl rfl)
    · split
      · have := @ih (some c) [] (.inl rfl)
        simp [this]
      · exact ih (.inr (.inl (by simp)))

theorem composed_ne_nil {s : List Char} (h : s ≠ []) : composed s ≠ [] := by
  unfold composed
  split
  · exact h
  · refine composeFrom_ne_nil (.inr (.inr (orderMarks_ne_nil (.inr ?_))))
    intro e
    cases s with
    | nil => exact h rfl
    | cons c s => exact decompose_ne_nil c (List.append_eq_nil_iff.mp e).1

end CodeAtlas
