import CodeAtlas.Model.Identifier
import CodeAtlas.Text.Alphabet
import CodeAtlas.Text.Search

/-!
# Tokens of Python source text

Names, numbers, strings and operators, with the ends of logical lines and the changes of indentation as
tokens of their own. A formatted string carries the tokens of the expressions inside its braces; each of
them may have a format with expressions of its own.

This module reads the tokens that need no look at their surroundings: numbers and the bodies of strings.
-/

namespace CodeAtlas.Python

mutual

inductive Token where
  | name (s : Identifier)
  | number (imaginary : Bool)
  | string (bytes : Bool)
  | formatted (fields : List Field)
  | op (s : String)
  | newline
  | indent
  | dedent
  | finish

/-- An expression of a formatted string, with the expressions of its format. -/
inductive Field where
  | mk (tokens : List Token) (spec : List Field)

end

def isIdentChar (c : Char) : Bool := isNameChar c || 128 ≤ c.toNat

def isIdentStart (c : Char) : Bool := isNameStart c || 128 ≤ c.toNat

def isIdentifier : List Char → Bool
  | [] => false
  | c :: cs =>
    (if c.toNat < 128 then isNameStart c else CharTable.identifierStart.contains c) &&
      cs.all fun d => if d.toNat < 128 then isNameChar d else CharTable.isIdentifierPart d

theorem ne_nil_of_isIdentifier {cs : List Char} (h : isIdentifier cs = true) : cs ≠ [] := by
  rintro rfl
  simp [isIdentifier] at h

/-! ### Numbers -/

def digitGroups (p : Char → Bool) : List Char → Option (List Char)
  | [] => none
  | c :: cs =>
    if p c then
      match cs with
      | '_' :: d :: r => if p d then digitGroups p (d :: r) else none
      | ['_'] => none
      | d :: r => if p d then digitGroups p (d :: r) else some (d :: r)
      | [] => some []
    else none

def endsNumber (cs : List Char) : Bool :=
  ["and", "else", "for", "if", "in", "is", "or", "not"].any (fun w => w.toList.isPrefixOf cs) ||
    !(cs.head?.map isIdentChar).getD false

def imaginaryTail (cs : List Char) : Option (Bool × List Char) :=
  match cs with
  | 'j' :: r => if endsNumber r then some (true, r) else none
  | 'J' :: r => if endsNumber r then some (true, r) else none
  | _ => if endsNumber cs then some (false, cs) else none

def exponentTail (cs : List Char) : Option (Bool × List Char) :=
  match cs with
  | e :: r =>
    if e == 'e' || e == 'E' then
      match r with
      | s :: d :: t =>
        if s == '+' || s == '-' then
          if isAsciiDigit d then (digitGroups isAsciiDigit (d :: t)).bind imaginaryTail else none
        else if isAsciiDigit s then (digitGroups isAsciiDigit r).bind imaginaryTail
        else if endsNumber cs then some (false, cs) else none
      | [s] => if isAsciiDigit s then (digitGroups isAsciiDigit r).bind imaginaryTail
        else if s == '+' || s == '-' then none
        else if endsNumber cs then some (false, cs) else none
      | [] => if endsNumber cs then some (false, cs) else none
    else imaginaryTail cs
  | [] => imaginaryTail cs

def fractionTail (cs : List Char) : Option (Bool × List Char) :=
  match cs with
  | d :: _ => if isAsciiDigit d then (digitGroups isAsciiDigit cs).bind exponentTail
    else exponentTail cs
  | [] => exponentTail cs

def wholeTail (cs : List Char) : Option (Bool × List Char) :=
  match cs with
  | '.' :: r => fractionTail r
  | _ => exponentTail cs

def taken (cs rest : List Char) : Nat := cs.length - rest.length

def basedNumber (p : Char → Bool) (cs : List Char) : Option (Bool × List Char) := do
  let body := match cs with
    | '_' :: r => r
    | _ => cs
  let rest ← digitGroups p body
  if endsNumber rest then some (false, rest) else none

def maxDigits : Nat := 4300

def scanNumber (cs : List Char) : Option (Bool × List Char) :=
  match cs with
  | '0' :: c :: r =>
    if c == 'x' || c == 'X' then basedNumber (fun d => (hexDigit? d).isSome) r
    else if c == 'o' || c == 'O' then basedNumber (fun d => '0' ≤ d && d ≤ '7') r
    else if c == 'b' || c == 'B' then basedNumber (fun d => d == '0' || d == '1') r
    else do
      let rest ← digitGroups isAsciiDigit cs
      let read := (cs.take (taken cs rest)).filter isAsciiDigit
      let res ← wholeTail rest
      if read.all (· == '0') || res.1 || taken cs res.2 != taken cs rest then some res else none
  | _ => do
    let rest ← digitGroups isAsciiDigit cs
    let res ← wholeTail rest
    let plain := !res.1 && taken cs res.2 == taken cs rest
    if plain && maxDigits < ((cs.take (taken cs rest)).filter isAsciiDigit).length then none
    else some res

/-! ### Strings -/

structure Intro where
  raw : Bool
  bytes : Bool
  format : Bool
  deriving DecidableEq

def intros : List (List Char × Intro) :=
  [([], ⟨false, false, false⟩), (['r'], ⟨true, false, false⟩), (['u'], ⟨false, false, false⟩),
    (['b'], ⟨false, true, false⟩), (['f'], ⟨false, false, true⟩),
    (['b', 'r'], ⟨true, true, false⟩), (['r', 'b'], ⟨true, true, false⟩),
    (['f', 'r'], ⟨true, false, true⟩), (['r', 'f'], ⟨true, false, true⟩)]

def stringIntro? (cs : List Char) : Option (Intro × Char × List Char) :=
  let letters := cs.takeWhile fun c => isAsciiLetter c
  match cs.drop letters.length with
  | q :: rest =>
    if isQuote q then
      match intros.find? (fun i => i.1 == letters.map Char.toLower) with
      | some i => some (i.2, q, rest)
      | none => none
    else none
  | [] => none

def shortBody (q : Char) : List Char → Option (List Char × List Char)
  | [] => none
  | '\\' :: d :: r => (shortBody q r).map fun p => ('\\' :: d :: p.1, p.2)
  | c :: r =>
    if c == q then some ([], r)
    else if c == '\n' then none
    else (shortBody q r).map fun p => (c :: p.1, p.2)

def longBody (q : Char) : List Char → Option (List Char × List Char)
  | [] => none
  | '\\' :: d :: r => (longBody q r).map fun p => ('\\' :: d :: p.1, p.2)
  | c :: r =>
    if c == q && r.take 2 == [q, q] then some ([], r.drop 2)
    else (longBody q r).map fun p => (c :: p.1, p.2)

def stringBody (q : Char) (cs : List Char) : Option (List Char × List Char) :=
  match cs with
  | a :: b :: r =>
    if a == q && b == q then longBody q r
    else if a == q then some ([], b :: r)
    else shortBody q cs
  | [a] => if a == q then some ([], []) else none
  | [] => none

def hasHex (n : Nat) (cs : List Char) : Bool :=
  (cs.take n).length == n && (cs.take n).all fun c => (hexDigit? c).isSome

def namedLength? (cs : List Char) : Option Nat :=
  match cs with
  | '\x7b' :: r =>
    let name := r.takeWhile (· != '\x7d')
    if name.isEmpty || name.length == r.length then none
    else if name.all (fun c => isAsciiLetter c || isAsciiDigit c || c == ' ' || c == '-') then
      some (name.length + 2)
    else none
  | _ => none

def validEscapes (bytes : Bool) : Nat → List Char → Bool
  | 0, _ => true
  | _, [] => true
  | fuel + 1, '\\' :: c :: r =>
    if c == 'x' then hasHex 2 r && validEscapes bytes fuel (r.drop 2)
    else if bytes then validEscapes bytes fuel r
    else if c == 'u' then hasHex 4 r && validEscapes bytes fuel (r.drop 4)
    else if c == 'U' then
      hasHex 8 r && decide (hexNumber (r.take 8) ≤ 0x10FFFF) && validEscapes bytes fuel (r.drop 8)
    else if c == 'N' then
      match namedLength? r with
      | some n => validEscapes bytes fuel (r.drop n)
      | none => false
    else validEscapes bytes fuel r
  | fuel + 1, _ :: r => validEscapes bytes fuel r

def validBody (i : Intro) (body : List Char) : Bool :=
  (!i.bytes || body.all (·.toNat < 128)) && (i.raw || validEscapes i.bytes body.length body)

/-! ### Operators -/

def operators3 : List String := ["**=", "//=", "<<=", ">>="]

def operators2 : List String :=
  ["!=", "%=", "&=", "**", "*=", "+=", "-=", "->", "//", "/=", ":=", "<<", "<=", "<>", "==", ">=", ">>",
    "@=", "^=", "|="]

def operators1 : List Char :=
  ['(', ')', '[', ']', '\x7b', '\x7d', ':', ',', ';', '+', '-', '*', '/', '|', '&', '<', '>', '=', '.',
    '%', '~', '^', '@']

def scanOperator (cs : List Char) : Option (String × List Char) :=
  match operators3.find? (fun o => o.toList.isPrefixOf cs) with
  | some o => some (o, cs.drop 3)
  | none =>
    match operators2.find? (fun o => o.toList.isPrefixOf cs) with
    | some o => some (o, cs.drop 2)
    | none =>
      match cs with
      | c :: r => if operators1.contains c then some (String.singleton c, r) else none
      | [] => none

end CodeAtlas.Python
