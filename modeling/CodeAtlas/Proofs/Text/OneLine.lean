import CodeAtlas.Proofs.Text.Trim
import CodeAtlas.Text.Case

/-!
# Texts on one line

A text without line breaks stays on one line, and so does what is made of it.

* `Text.isOneLine_of_mem_lines`: the lines of a text are such texts;
* `Text.lines_of_isOneLine`: a text on one line, with a line break after it, is one line;
* `Text.isOneLine_join`, **`Text.isOneLine_upper`**: no line breaks come in.
-/

namespace CodeAtlas

open List Chars

namespace Chars

def isOneLine (cs : List Char) : Bool := cs.all fun c => !isLineBreak c

@[simp] theorem isOneLine_append (a b : List Char) : isOneLine (a ++ b) = (isOneLine a && isOneLine b) := all_append

variable {a cs acc : List Char}

theorem isOneLine_iff : isOneLine cs ↔ ∀ c ∈ cs, isLineBreak c = false := by
  simp [isOneLine]

theorem isOneLine_of_subset {b : List Char} (hb : isOneLine b) (h : a ⊆ b) : isOneLine a :=
  isOneLine_iff.mpr fun c hc => isOneLine_iff.mp hb c (h hc)

theorem trim_subset (cs : List Char) : trim cs ⊆ cs := by
  intro c hc
  have hstart : c ∈ (trimStart cs).reverse := dropWhile_subset _ (mem_reverse.mp hc)
  exact dropWhile_subset _ (mem_reverse.mp hstart)

theorem isOneLine_join {sep : List Char} {parts : List (List Char)} (hsep : isOneLine sep)
    (h : ∀ p ∈ parts, isOneLine p) : isOneLine (join sep parts) := by
  fun_induction join sep parts with
  | case1 => rfl
  | case2 p => exact h p mem_cons_self
  | case3 p q ps ih =>
    rw [isOneLine_append, isOneLine_append, h p mem_cons_self, hsep, ih fun r hr => h r (mem_cons_of_mem p hr)]
    rfl

/-! ### Lines -/

theorem linesFrom_cons {c : Char} (h : c = '\r' → cs.head? ≠ some '\n') :
    linesFrom acc (c :: cs) = if isLineBreak c then acc.reverse :: linesFrom [] cs else linesFrom (c :: acc) cs := by
  rw [linesFrom]
  intro ds hc hcs
  rw [hcs] at h
  exact h hc rfl

theorem linesFrom_append_break (acc a b : List Char) :
    linesFrom acc (a ++ '\n' :: b) = linesFrom acc (a ++ ['\n']) ++ linesFrom [] b := by
  have hfeed : ∀ acc, linesFrom acc ('\n' :: b) = linesFrom acc ['\n'] ++ linesFrom [] b := fun _ => rfl
  fun_induction linesFrom acc a with
  | case1 acc => exact hfeed acc
  | case2 acc => exact hfeed acc
  | case3 acc cs ih => exact congrArg (acc.reverse :: ·) ih
  | case4 acc c cs hother hbreak ih =>
    by_cases hreturn : c = '\r' ∧ cs = []
    · -- the line feed belongs to the carriage return before it
      obtain ⟨rfl, rfl⟩ := hreturn
      rfl
    · have hhead : ∀ t, c = '\r' → (cs ++ '\n' :: t).head? ≠ some '\n' := by
        intro t hc hhead
        cases cs with
        | nil => exact hreturn ⟨hc, rfl⟩
        | cons d ds => exact hother ds hc (by rw [Option.some.inj hhead])
      rw [cons_append, cons_append, linesFrom_cons (hhead b), linesFrom_cons (hhead []), if_pos hbreak,
        if_pos hbreak, ih]
      rfl
  | case5 acc c cs hother hbreak ih =>
    have hhead : ∀ t, c = '\r' → (cs ++ '\n' :: t).head? ≠ some '\n' := by
      rintro t rfl
      exact absurd rfl hbreak
    rw [cons_append, cons_append, linesFrom_cons (hhead b), linesFrom_cons (hhead []), if_neg hbreak,
      if_neg hbreak, ih]

theorem linesFrom_append_of_isOneLine (h : isOneLine a) (acc rest : List Char) :
    linesFrom acc (a ++ rest) = linesFrom (a.reverse ++ acc) rest := by
  induction a generalizing acc with
  | nil => rfl
  | cons c cs ih =>
    have hc : isLineBreak c = false := isOneLine_iff.mp h c mem_cons_self
    have hcs : isOneLine cs := isOneLine_of_subset h (subset_cons_self c cs)
    have hhead : c = '\r' → (cs ++ rest).head? ≠ some '\n' := by
      rintro rfl
      cases hc
    rw [cons_append, linesFrom_cons hhead, hc, if_neg Bool.false_ne_true, ih hcs, reverse_cons, append_assoc]
    rfl

theorem linesFrom_of_isOneLine (h : isOneLine a) : linesFrom [] (a ++ ['\n']) = [a] := by
  rw [linesFrom_append_of_isOneLine h, append_nil]
  exact congrArg ([·]) (reverse_reverse a)

theorem linesFrom_last (h : isOneLine a) (hne : a ≠ []) : linesFrom [] a = [a] := by
  have hlines := linesFrom_append_of_isOneLine h [] []
  rw [append_nil, append_nil] at hlines
  simp [hlines, linesFrom, hne]

theorem isOneLine_of_mem_linesFrom {s l : List Char} (hacc : isOneLine acc) (h : l ∈ linesFrom acc s) :
    isOneLine l := by
  have hreverse : ∀ {a : List Char}, isOneLine a → isOneLine a.reverse := by
    intro a ha
    rw [isOneLine, all_reverse]
    exact ha
  fun_induction linesFrom acc s with
  | case1 => cases h
  | case2 acc =>
    rw [mem_singleton.mp h]
    exact hreverse hacc
  | case3 acc cs ih =>
    rcases mem_cons.mp h with rfl | h
    · exact hreverse hacc
    · exact ih rfl h
  | case4 acc c cs _ _ ih =>
    rcases mem_cons.mp h with rfl | h
    · exact hreverse hacc
    · exact ih rfl h
  | case5 acc c cs _ hbreak ih =>
    refine ih ?_ h
    rw [isOneLine, all_cons, Bool.and_eq_true]
    exact ⟨by simpa using hbreak, hacc⟩

end Chars

/-! ### Texts -/

namespace Text

def isOneLine (s : String) : Bool := Chars.isOneLine s.toList

variable {s l : String} (a b : String)

@[simp] theorem isOneLine_append : isOneLine (a ++ b) = (isOneLine a && isOneLine b) := by
  rw [isOneLine, String.toList_append, Chars.isOneLine_append]
  rfl

theorem isOneLine_ofList (cs : List Char) : isOneLine (String.ofList cs) = Chars.isOneLine cs := by
  rw [isOneLine, String.toList_ofList]

theorem isOneLine_join {sep : String} {parts : List String} (hsep : isOneLine sep)
    (h : ∀ p ∈ parts, isOneLine p) : isOneLine (join sep parts) := by
  rw [isOneLine, toList_join]
  refine Chars.isOneLine_join hsep fun p hp => ?_
  obtain ⟨q, hq, rfl⟩ := mem_map.mp hp
  exact h q hq

theorem isOneLine_of_mem_lines (h : l ∈ lines s) : isOneLine l := by
  obtain ⟨cs, hcs, rfl⟩ := mem_map.mp h
  rw [isOneLine_ofList]
  exact isOneLine_of_mem_linesFrom rfl hcs

theorem lines_append_break : lines (a ++ "\n" ++ b) = lines (a ++ "\n") ++ lines b := by
  have hbreak : (a ++ "\n" ++ b).toList = a.toList ++ '\n' :: b.toList := by simp
  rw [lines, hbreak, Chars.lines, linesFrom_append_break, map_append, ← Chars.lines, ← Chars.lines, lines,
    lines, String.toList_append]
  rfl

theorem lines_of_isOneLine (h : isOneLine s) : lines (s ++ "\n") = [s] := by
  rw [lines, String.toList_append]
  show (linesFrom [] (s.toList ++ ['\n'])).map String.ofList = [s]
  rw [linesFrom_of_isOneLine h]
  simp

theorem lines_singleton (h : isOneLine s) (hne : s ≠ "") : lines s = [s] := by
  have hlast : linesFrom [] s.toList = [s.toList] := linesFrom_last h (by simpa using hne)
  rw [lines, Chars.lines, hlast]
  simp

theorem lines_join {ls : List String} (h : ∀ m ∈ ls, isOneLine m) (hlast : ls.getLast? = some l)
    (hne : l ≠ "") : lines (join "\n" ls) = ls := by
  induction ls with
  | nil => cases hlast
  | cons m ls ih =>
    rw [forall_mem_cons] at h
    cases ls with
    | nil =>
      cases hlast
      rw [show join "\n" [m] = m from String.ofList_toList, lines_singleton h.1 hne]
    | cons k ls =>
      rw [getLast?_cons_cons] at hlast
      rw [join_cons_cons, lines_append_break, lines_of_isOneLine h.1, ih h.2 hlast, singleton_append]

end Text

/-! ### Upper case -/

def lineBreaks : List Nat := [10, 11, 12, 13, 28, 29, 30, 0x85, 0x2028, 0x2029]

theorem isLineBreak_iff {c : Char} : isLineBreak c ↔ c.toNat ∈ lineBreaks := by
  simp only [isLineBreak, lineBreaks, Bool.or_eq_true, Bool.and_eq_true, decide_eq_true_eq, beq_iff_eq,
    mem_cons, not_mem_nil, or_false]
  omega

namespace CharRun

/-- No character of a run is mapped to the code point `n`. -/
def avoids (r : CharRun) (n : Nat) : Bool :=
  if r.up then !(r.first + r.distance ≤ n && n ≤ r.last + r.distance)
  else !(r.first ≤ n + r.distance && n + r.distance ≤ r.last)

end CharRun

namespace CharMap

theorem toNat_ofNat (n : Nat) : (Char.ofNat n).toNat = n ∨ (Char.ofNat n).toNat = 0 := by
  by_cases hvalid : n.isValidChar
  · rw [Char.ofNat, dif_pos hvalid]
    exact .inl rfl
  · rw [Char.ofNat, dif_neg hvalid]
    exact .inr rfl

theorem mem_of_findRun {rs : Array CharRun} {n fuel lo hi : Nat} {r : CharRun}
    (h : findRun rs n fuel lo hi = some r) : r ∈ rs ∧ r.first ≤ n ∧ n ≤ r.last := by
  fun_induction findRun rs n fuel lo hi with
  | case1 => cases h
  | case2 => cases h
  | case3 fuel lo hi hlt mid q hq hlow ih => exact ih h
  | case4 fuel lo hi hlt mid q hq hlow hhigh ih => exact ih h
  | case5 fuel lo hi hlt mid q hq hlow hhigh hstep =>
    cases h
    exact ⟨Array.mem_of_getElem? hq, by omega, by omega⟩
  | _ => cases h

theorem isOneLine_apply {runs : String} {expansions : Expansions}
    (hruns : (readRuns 0 (readNumbers 0 runs.toList)).all (fun r => lineBreaks.all r.avoids) = true)
    (hexpansions : expansions.read.all (fun e => Chars.isOneLine e.2) = true)
    {c : Char} (hc : isLineBreak c = false) : Chars.isOneLine ((ofText runs expansions).apply c) := by
  unfold apply
  split
  next r hr =>
    obtain ⟨hmem, hfirst, hlast⟩ := mem_of_findRun hr
    have havoids := all_eq_true.mp (all_eq_true.mp hruns r (by simpa [ofText] using hmem))
    rw [isOneLine_iff]
    intro d hd
    cases mem_singleton.mp hd
    by_contra hbreak
    have hbreaks := isLineBreak_iff.mp ((Bool.not_eq_false _).mp hbreak)
    rcases toNat_ofNat (if r.up then c.toNat + r.distance else c.toNat - r.distance) with hn | hn
    · rw [hn] at hbreaks
      have hrange := havoids _ hbreaks
      have hzero : 0 ∉ lineBreaks := by decide
      unfold CharRun.avoids at hrange
      split at hrange
      · simp only [Bool.not_eq_true', Bool.and_eq_false_iff, decide_eq_false_iff_not] at hrange
        omega
      next hup =>
        rw [if_neg hup] at hbreaks
        by_cases hle : r.distance ≤ c.toNat
        · simp only [Bool.not_eq_true', Bool.and_eq_false_iff, decide_eq_false_iff_not] at hrange
          omega
        · rw [show c.toNat - r.distance = 0 by omega] at hbreaks
          exact hzero hbreaks
    · rw [hn] at hbreaks
      exact absurd hbreaks (by decide)
  · split
    next e he => exact all_eq_true.mp hexpansions e (mem_of_find?_eq_some he)
    next => simp [Chars.isOneLine, hc]

end CharMap

set_option maxRecDepth 20000 in
theorem upperRuns_avoid : (CharMap.readRuns 0 (readNumbers 0 CaseTable.upperRuns.toList)).all
    (fun r => lineBreaks.all r.avoids) = true := by
  unfold CaseTable.upperRuns
  rw [String.toList_ofList]
  decide +kernel

set_option maxRecDepth 20000 in
theorem upperExpansions_avoid : CaseTable.upperExpansions.read.all (fun e => Chars.isOneLine e.2) = true := by
  unfold Expansions.read tableLetters tableEntries CaseTable.upperExpansions
  rw [String.toList_ofList, String.toList_ofList, String.toList_ofList]
  decide +kernel

theorem asciiUpper_table : ∀ n < 128, isLineBreak (Char.ofNat n) = false → Chars.isOneLine
    [if 'a' ≤ Char.ofNat n ∧ Char.ofNat n ≤ 'z' then Char.ofNat ((Char.ofNat n).toNat - 32) else Char.ofNat n] := by
  decide

theorem isOneLine_upperChar {c : Char} (hc : isLineBreak c = false) : Chars.isOneLine (upperChar c) := by
  unfold upperChar
  split
  next hascii =>
    have htable := asciiUpper_table c.toNat hascii
    rw [Char.ofNat_toNat] at htable
    exact htable hc
  · exact CharMap.isOneLine_apply upperRuns_avoid upperExpansions_avoid hc

theorem Text.isOneLine_upper {s : String} (h : isOneLine s) : isOneLine (upper s) := by
  rw [upper, isOneLine_ofList, isOneLine_iff]
  intro c hc
  obtain ⟨d, hd, hdc⟩ := mem_flatMap.mp hc
  exact isOneLine_iff.mp (isOneLine_upperChar (isOneLine_iff.mp h d hd)) c hdc

end CodeAtlas
