/-!
# Sets and mappings of characters by ranges

A property of characters that a standard lists is kept as ascending ranges of code points. They are written as a row of
numbers with nothing between them: letters and digits are last digits of numbers, the signs of `highDigits` the digits
before them. `CharSet.ofText` reads such a row and `CharSet.contains` looks a character up by bisection.

A mapping is kept as runs of characters that are all moved by one distance, and a list of characters that
become several; a character that the tables do not name stays as it is.
-/

namespace CodeAtlas

def hexDigit? (c : Char) : Option Nat :=
  if '0' ≤ c ∧ c ≤ '9' then some (c.toNat - 48)
  else if 'A' ≤ c ∧ c ≤ 'F' then some (c.toNat - 55)
  else if 'a' ≤ c ∧ c ≤ 'f' then some (c.toNat - 87)
  else none

def splitWhere {α : Type} (p : α → Bool) : List α → List (List α)
  | [] => [[]]
  | c :: cs =>
    if p c then [] :: splitWhere p cs
    else match splitWhere p cs with
      | [] => [[c]]
      | w :: ws => (c :: w) :: ws

theorem splitWhere_ne_nil {α : Type} (p : α → Bool) (l : List α) : splitWhere p l ≠ [] := by
  cases l with
  | nil => simp [splitWhere]
  | cons c cs =>
    simp only [splitWhere]
    split
    · simp
    · split <;> simp

def tableEntries (s : String) : List (List Char) :=
  (splitWhere (fun c => c == ' ' || c == '\n') s.toList).filter (· ≠ [])

def hexNumber (cs : List Char) : Nat :=
  cs.foldl (fun n c => n * 16 + (hexDigit? c).getD 0) 0

def highDigits : List Char := "!$%&()*+,./:;<=>?^_|~".toList

def lastDigit? (c : Char) : Option Nat :=
  if '0' ≤ c ∧ c ≤ '9' then some (c.toNat - 48)
  else if 'A' ≤ c ∧ c ≤ 'Z' then some (c.toNat - 55)
  else if 'a' ≤ c ∧ c ≤ 'z' then some (c.toNat - 61)
  else none

def readNumbers (high : Nat) : List Char → List Nat
  | [] => []
  | c :: cs =>
    match lastDigit? c with
    | some d => (high * 62 + d) :: readNumbers 0 cs
    | none => readNumbers (if highDigits.contains c then high * 21 + highDigits.idxOf c else high) cs

structure CharSet where
  ranges : Array (Nat × Nat)

namespace CharSet

def readRanges (last : Nat) : List Nat → List (Nat × Nat)
  | 0 :: n :: rest =>
    (List.range n).map (fun i => (last + 2 * (i + 1), last + 2 * (i + 1))) ++ readRanges (last + 2 * n) rest
  | a :: n :: rest => (last + a, last + a + n) :: readRanges (last + a + n) rest
  | _ => []

def ofText (s : String) : CharSet := ⟨(readRanges 0 (readNumbers 0 s.toList)).toArray⟩

def search (rs : Array (Nat × Nat)) (n : Nat) : Nat → Nat → Nat → Bool
  | 0, _, _ => false
  | fuel + 1, lo, hi =>
    if lo < hi then
      let mid := (lo + hi) / 2
      match rs[mid]? with
      | none => false
      | some (a, b) =>
        if n < a then search rs n fuel lo mid
        else if b < n then search rs n fuel (mid + 1) hi
        else true
    else false

def contains (s : CharSet) (c : Char) : Bool :=
  search s.ranges c.toNat (Nat.log2 s.ranges.size + 2) 0 s.ranges.size

end CharSet

def codePoints (ranges : List (Nat × Nat)) : List Nat := ranges.flatMap fun r => List.range' r.1 (r.2 + 1 - r.1)

def tableLetters (s : String) : List Char := (tableEntries s).flatten

/-- Characters that become other ones: their ranges, how many letters each becomes, and all letters in a row. -/
structure Expansions where
  codes : String
  lengths : String
  letters : String

namespace Expansions

def readLengths : List Nat → List Nat
  | n :: k :: rest => List.replicate k n ++ readLengths rest
  | _ => []

def cut : List Nat → List Char → List (List Char)
  | [], _ => []
  | n :: ns, cs => cs.take n :: cut ns (cs.drop n)

def read (x : Expansions) : List (Nat × List Char) :=
  let codes := codePoints (CharSet.readRanges 0 (readNumbers 0 x.codes.toList))
  let pieces := cut (readLengths (readNumbers 0 x.lengths.toList)) (tableLetters x.letters)
  (codes.zip pieces).filter (·.2 ≠ [])

end Expansions

structure CharRun where
  first : Nat
  last : Nat
  step : Nat
  up : Bool
  distance : Nat

structure CharMap where
  runs : Array CharRun
  expansions : List (Nat × List Char)

namespace CharMap

def readRuns (last : Nat) : List Nat → List CharRun
  | a :: n :: d :: rest =>
    let r : CharRun := ⟨last + a, last + a + n / 2 * (n % 2 + 1), n % 2 + 1, d % 2 == 0, d / 2⟩
    r :: readRuns r.last rest
  | _ => []

def ofText (runs : String) (expansions : Expansions) : CharMap where
  runs := (readRuns 0 (readNumbers 0 runs.toList)).toArray
  expansions := expansions.read

def findRun (rs : Array CharRun) (n : Nat) : Nat → Nat → Nat → Option CharRun
  | 0, _, _ => none
  | fuel + 1, lo, hi =>
    if lo < hi then
      let mid := (lo + hi) / 2
      match rs[mid]? with
      | none => none
      | some r =>
        if n < r.first then findRun rs n fuel lo mid
        else if r.last < n then findRun rs n fuel (mid + 1) hi
        else if (n - r.first) % r.step = 0 then some r else none
    else none

def apply (m : CharMap) (c : Char) : List Char :=
  match findRun m.runs c.toNat (Nat.log2 m.runs.size + 2) 0 m.runs.size with
  | some r => [Char.ofNat (if r.up then c.toNat + r.distance else c.toNat - r.distance)]
  | none =>
    match m.expansions.find? (fun e => e.1 == c.toNat) with
    | some e => e.2
    | none => [c]

/-- A mapping without empty expansions maps no character to the empty text. -/
theorem apply_ne_nil {m : CharMap} (h : ∀ e ∈ m.expansions, e.2 ≠ []) (c : Char) : m.apply c ≠ [] := by
  unfold apply
  split
  · simp
  · split
    next e he => exact h e (List.mem_of_find?_eq_some he)
    next => simp

theorem apply_ofText_ne_nil (runs : String) (expansions : Expansions) (c : Char) :
    (ofText runs expansions).apply c ≠ [] :=
  apply_ne_nil (fun e he => by simpa using (List.mem_filter.mp he).2) c

end CharMap

end CodeAtlas
