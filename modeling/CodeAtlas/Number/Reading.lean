import CodeAtlas.Number.Binary64
import CodeAtlas.Text.Lines

/-!
# Reading numbers

* `Number.readInt?`: an integer is written with an optional sign and with blanks around it; single low lines may
  stand between digits, and the decimal digits of every script count. In base sixteen a prefix may stand before
  the digits.
* `Number.readFloat?`: a binary number is written as a decimal with an optional point and exponent, or by one of
  the words for what is infinite or no number. Blanks, signs, low lines and digits are as for integers.
-/

namespace CodeAtlas.Number

def digitIn? (base : Nat) (c : Char) : Option Nat :=
  match (digitValue? c).or (hexDigit? c) with
  | some v => if v < base then some v else none
  | none => none

def digits? (base : Nat) (acc : Nat) : List Char → Option Nat
  | [] => none
  | [c] => (digitIn? base c).map (acc * base + ·)
  | c :: d :: cs =>
    match digitIn? base c with
    | none => none
    | some v =>
      if d == '_' then digits? base (acc * base + v) cs else digits? base (acc * base + v) (d :: cs)

def prefixed? (base : Nat) (cs : List Char) : Option Nat :=
  match base, cs with
  | 16, '0' :: x :: r =>
    if x == 'x' || x == 'X' then
      match r with
      | '_' :: t => digits? base 0 t
      | _ => digits? base 0 r
    else digits? base 0 cs
  | _, _ => digits? base 0 cs

def readInt? (base : Nat) (s : List Char) : Option Int :=
  match Chars.trim s with
  | '-' :: r => (prefixed? base r).map fun n => -(n : Int)
  | '+' :: r => (prefixed? base r).map Int.ofNat
  | r => (prefixed? base r).map Int.ofNat

def plainDigits (s : List Char) : List Char :=
  s.map fun c =>
    match digitValue? c with
    | some v => Char.ofNat (48 + v)
    | none => c

def dropLowLines? (before : Option Char) : List Char → Option (List Char)
  | [] => if before == some '_' then none else some []
  | c :: cs =>
    if c == '_' then
      if (before.map isAsciiDigit).getD false then dropLowLines? (some c) cs else none
    else if before == some '_' && !isAsciiDigit c then none
    else (dropLowLines? (some c) cs).map (c :: ·)

def decimalValue (ds : List Char) : Nat := ds.foldl (fun n c => n * 10 + (c.toNat - 48)) 0

def exponent? : List Char → Option Int
  | [] => some 0
  | e :: r =>
    if e == 'e' || e == 'E' then
      let (neg, ds) := match r with
        | '-' :: t => (true, t)
        | '+' :: t => (false, t)
        | t => (false, t)
      if ds.isEmpty || !ds.all isAsciiDigit then none
      else some (if neg then -(decimalValue ds : Int) else decimalValue ds)
    else none

def unsigned? (neg : Bool) (s : List Char) : Option Binary64 :=
  let whole := s.takeWhile isAsciiDigit
  let (fraction, rest) := match s.dropWhile isAsciiDigit with
    | '.' :: t => (t.takeWhile isAsciiDigit, t.dropWhile isAsciiDigit)
    | t => ([], t)
  if whole.isEmpty && fraction.isEmpty then none
  else (exponent? rest).map fun e =>
    Binary64.ofDecimal neg (decimalValue (whole ++ fraction)) (e - fraction.length)

def float? (s : List Char) : Option Binary64 :=
  let (neg, body) := match s with
    | '-' :: r => (true, r)
    | '+' :: r => (false, r)
    | r => (false, r)
  let word := String.ofList (body.map Char.toLower)
  if word == "inf" || word == "infinity" then some (.infinite neg)
  else if word == "nan" then some .nan
  else unsigned? neg body

def readFloat? (s : List Char) : Option Binary64 :=
  (dropLowLines? none (plainDigits (Chars.trim s))).bind float?

end CodeAtlas.Number
