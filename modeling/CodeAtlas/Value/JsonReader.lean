import CodeAtlas.Text.CharSet
import CodeAtlas.Value.Basic

/-!
# Reading JSON documents

`Json.parse` reads one value with optional white space around it. Beyond the standard it accepts the three
words for values that are no finite number; of several fields with one key the last value counts, at the
place of the first. An error carries its cause and the position where it was noticed, and
`Json.Error.message` words it with line and column.

The reader goes through the text once; `readValue` recurses on a depth of brackets and `readParts` on a number of
parts, both of which the length of the text bounds.
-/

namespace CodeAtlas.Json

inductive Cause where
  | expectingValue
  | expectingName
  | expectingColon
  | expectingComma
  | unterminatedString
  | controlCharacter
  | badEscape
  | badUnicodeEscape
  | extraData
  | byteOrderMark
  deriving DecidableEq, Repr

structure Error where
  cause : Cause
  pos : Nat
  deriving DecidableEq, Repr

def Cause.message : Cause → String
  | expectingValue => "Expecting value"
  | expectingName => "Expecting property name enclosed in double quotes"
  | expectingColon => "Expecting ':' delimiter"
  | expectingComma => "Expecting ',' delimiter"
  | unterminatedString => "Unterminated string starting at"
  | controlCharacter => "Invalid control character at"
  | badEscape => "Invalid \\escape"
  | badUnicodeEscape => "Invalid \\uXXXX escape"
  | extraData => "Extra data"
  | byteOrderMark => "Unexpected UTF-8 BOM (decode using utf-8-sig)"

def Error.message (doc : String) (e : Error) : String :=
  let before := doc.toList.take e.pos
  let line := before.count '\n' + 1
  let column := (before.reverse.takeWhile (· ≠ '\n')).length + 1
  s!"{e.cause.message}: line {line} column {column} (char {e.pos})"

/-- A cause, and how many characters were left to read when it was noticed. -/
structure Stop where
  cause : Cause
  left : Nat

/-- What is read off the front of a text, with the rest of the text. -/
abbrev Reading (α : Type) := Except Stop (α × List Char)

def isSpace (c : Char) : Bool := c == ' ' || c == '\t' || c == '\n' || c == '\r'

def skipSpace (t : List Char) : List Char := t.dropWhile isSpace

def isDigit (c : Char) : Bool := '0' ≤ c && c ≤ '9'

def decimal (ds : List Char) : Nat := ds.foldl (fun n c => n * 10 + (c.toNat - 48)) 0

def hex4? : List Char → Option Nat
  | a :: b :: c :: d :: _ => do
    let a ← hexDigit? a
    let b ← hexDigit? b
    let c ← hexDigit? c
    let d ← hexDigit? d
    return ((a * 16 + b) * 16 + c) * 16 + d
  | _ => none

def escape? : Char → Option Char
  | '"' => some '"'
  | '\\' => some '\\'
  | '/' => some '/'
  | 'b' => some '\x08'
  | 'f' => some '\x0c'
  | 'n' => some '\n'
  | 'r' => some '\r'
  | 't' => some '\t'
  | _ => none

def joinHalves (high low : Nat) : Char := Char.ofNat (0x10000 + (high - 0xD800) * 0x400 + (low - 0xDC00))

def unicodeEscape (cs : List Char) : Except Nat (Char × Nat) :=
  match hex4? cs with
  | none => .error 0
  | some n =>
    if 0xD800 ≤ n ∧ n ≤ 0xDBFF then
      match cs.drop 4 with
      | '\\' :: 'u' :: more =>
        if more.length < 5 then .ok (Char.ofNat 0xFFFD, 4)
        else match hex4? more with
          | some low =>
            if 0xDC00 ≤ low ∧ low ≤ 0xDFFF then .ok (joinHalves n low, 10)
            else .ok (Char.ofNat 0xFFFD, 4)
          | none => .error 6
      | _ => .ok (Char.ofNat 0xFFFD, 4)
    else if 0xDC00 ≤ n ∧ n ≤ 0xDFFF then .ok (Char.ofNat 0xFFFD, 4)
    else .ok (Char.ofNat n, 4)

def readChars (start : Nat) : Nat → List Char → List Char → Reading String
  | 0, _, _ => .error ⟨.unterminatedString, start⟩
  | fuel + 1, acc, t =>
    match t with
    | [] => .error ⟨.unterminatedString, start⟩
    | '"' :: t => .ok (String.ofList acc.reverse, t)
    | ['\\'] => .error ⟨.unterminatedString, start⟩
    | '\\' :: 'u' :: t =>
      if t.length < 5 then .error ⟨.badUnicodeEscape, t.length + 1⟩
      else match unicodeEscape t with
        | .ok (c, n) => readChars start fuel (c :: acc) (t.drop n)
        | .error k => .error ⟨.badUnicodeEscape, t.length + 1 - k⟩
    | '\\' :: e :: t =>
      match escape? e with
      | some c => readChars start fuel (c :: acc) t
      | none => .error ⟨.badEscape, t.length + 2⟩
    | c :: t =>
      if c.toNat < 32 then .error ⟨.controlCharacter, t.length + 1⟩
      else readChars start fuel (c :: acc) t

def readString (t : List Char) : Reading String := readChars (t.length + 1) (t.length + 1) [] t

def exponentDigits? (neg : Bool) (size : Nat) (cs : List Char) : Option (Int × Nat) :=
  let ds := cs.takeWhile isDigit
  if ds.isEmpty then none
  else some (if neg then -(decimal ds : Int) else (decimal ds : Int), size + ds.length)

def exponentPart? (cs : List Char) : Option (Int × Nat) :=
  match cs with
  | e :: cs =>
    if e == 'e' || e == 'E' then
      match cs with
      | '-' :: cs => exponentDigits? true 2 cs
      | '+' :: cs => exponentDigits? false 2 cs
      | cs => exponentDigits? false 1 cs
    else none
  | [] => none

def wholePart (cs : List Char) : List Char :=
  match cs with
  | '0' :: _ => ['0']
  | cs => cs.takeWhile isDigit

def fractionPart (cs : List Char) : List Char :=
  match cs with
  | '.' :: cs => cs.takeWhile isDigit
  | _ => []

def mantissaSize (whole fraction : List Char) : Nat :=
  whole.length + (if fraction.isEmpty then 0 else fraction.length + 1)

def unsigned? (neg : Bool) (cs : List Char) : Option (Value × Nat) :=
  let whole := wholePart cs
  if whole.isEmpty then none
  else
    let fraction := fractionPart (cs.drop whole.length)
    let size := mantissaSize whole fraction
    match exponentPart? (cs.drop size) with
    | some (e, n) => some (.float (.ofDecimal neg (decimal (whole ++ fraction)) (e - fraction.length)), size + n)
    | none =>
      if fraction.isEmpty then
        let n : Int := decimal whole
        some (.int (if neg then -n else n), size)
      else some (.float (.ofDecimal neg (decimal (whole ++ fraction)) (-(fraction.length : Int))), size)

def number? (cs : List Char) : Option (Value × Nat) :=
  match cs with
  | '-' :: cs => (unsigned? true cs).map fun x => (x.1, x.2 + 1)
  | cs => unsigned? false cs

def constants : List (List Char × Value) :=
  [("null".toList, .null), ("true".toList, .bool true), ("false".toList, .bool false),
    ("NaN".toList, .float .nan), ("Infinity".toList, .float (.infinite false)),
    ("-Infinity".toList, .float (.infinite true))]

def plain? (cs : List Char) : Option (Value × Nat) :=
  match constants.find? (fun k => k.1.isPrefixOf cs) with
  | some k => some (k.2, k.1.length)
  | none => number? cs

def isPlain (c : Char) : Bool := isDigit c || c == '.' || c == '+' || c == 'E' || constants.any fun k => k.1.contains c

def readPlain (t : List Char) : Reading Value :=
  match plain? (t.takeWhile isPlain) with
  | some (v, n) => .ok (v, (t.takeWhile isPlain).drop n ++ t.dropWhile isPlain)
  | none => .error ⟨.expectingValue, t.length⟩

def afterSpace {α : Type} (cause : Cause) (go : Char → List Char → Reading α) (t : List Char) : Reading α :=
  match skipSpace t with
  | [] => .error ⟨cause, 0⟩
  | c :: t => go c t

def readMore {α : Type} (close : Char) (more : α → List Char → Reading α) (acc : α) : List Char → Reading α :=
  afterSpace .expectingComma fun c t =>
    if c == close then .ok (acc, t)
    else if c == ',' then more acc (skipSpace t)
    else .error ⟨.expectingComma, t.length + 1⟩

def readParts {α : Type} (close : Char) (read : α → List Char → Reading α) : Nat → α → List Char → Reading α
  | 0, _, t => .error ⟨.expectingComma, t.length⟩
  | fuel + 1, acc, t => (read acc t).bind fun x => readMore close (readParts close read fuel) x.1 x.2

def readBracketed {α : Type} (close : Char) (read : α → List Char → Reading α) (none : α) (t : List Char) : Reading α :=
  if (skipSpace t).head? == some close then .ok (none, (skipSpace t).drop 1)
  else readParts close read (t.length + 1) none (skipSpace t)

def readItem (read : List Char → Reading Value) (acc : List Value) (t : List Char) : Reading (List Value) :=
  (read t).map fun x => (x.1 :: acc, x.2)

def readFieldValue (read : List Char → Reading Value) (acc : Record) (k : String) : List Char → Reading Record :=
  afterSpace .expectingColon fun c t =>
    if c == ':' then (read (skipSpace t)).map fun v => (acc.put (.text k) v.1, v.2)
    else .error ⟨.expectingColon, t.length + 1⟩

def readField (read : List Char → Reading Value) (acc : Record) : List Char → Reading Record
  | '"' :: t => (readString t).bind fun k => readFieldValue read acc k.1 k.2
  | t => .error ⟨.expectingName, t.length⟩

def readValue : Nat → List Char → Reading Value
  | 0, t => .error ⟨.expectingValue, t.length⟩
  | depth + 1, t =>
    match t with
    | '"' :: t => (readString t).map fun s => (.text s.1, s.2)
    | '\x7b' :: t => (readBracketed '\x7d' (readField (readValue depth)) [] t).map fun x => (.record x.1, x.2)
    | '[' :: t => (readBracketed ']' (readItem (readValue depth)) [] t).map fun x => (.list x.1.reverse, x.2)
    | t => readPlain t

def parse (doc : String) : Except Error Value :=
  let cs := doc.toList
  if cs.head? == some (Char.ofNat 0xFEFF) then .error ⟨.byteOrderMark, 0⟩
  else
    match readValue (cs.length + 1) (skipSpace cs) with
    | .error e => .error ⟨e.cause, cs.length - e.left⟩
    | .ok (v, t) =>
      let t := skipSpace t
      if t.isEmpty then .ok v else .error ⟨.extraData, cs.length - t.length⟩

end CodeAtlas.Json
