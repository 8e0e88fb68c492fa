import CodeAtlas.Text.Lines

/-!
# Encodings of text

An encoding turns octets into text; what it cannot read is dropped. Encodings have many names, which are compared
in lower case with low lines for all other signs.

* `Octets.text`: UTF-8, where a sequence that breaks off is dropped as far as it was read, and the octet that broke it
  is read afresh;
* `Encoding.ofName?`: the encoding of a name.
-/

namespace CodeAtlas

namespace Octets

/-- A character that is being read: how many octets are missing, the bounds of the next one, and the code
so far. -/
structure Partial where
  missing : Nat
  low : Nat
  high : Nat
  code : Nat

def lead? (b : Nat) : Option Partial :=
  if 0xC2 ≤ b && b ≤ 0xDF then some ⟨1, 0x80, 0xBF, b - 0xC0⟩
  else if b == 0xE0 then some ⟨2, 0xA0, 0xBF, 0⟩
  else if b == 0xED then some ⟨2, 0x80, 0x9F, 0xD⟩
  else if 0xE1 ≤ b && b ≤ 0xEF then some ⟨2, 0x80, 0xBF, b - 0xE0⟩
  else if b == 0xF0 then some ⟨3, 0x90, 0xBF, 0⟩
  else if 0xF1 ≤ b && b ≤ 0xF3 then some ⟨3, 0x80, 0xBF, b - 0xF0⟩
  else if b == 0xF4 then some ⟨3, 0x80, 0x8F, 4⟩
  else none

def fresh (b : Nat) : List Char × Option Partial :=
  if b < 0x80 then ([Char.ofNat b], none) else ([], lead? b)

def step (b : Nat) : Option Partial → List Char × Option Partial
  | none => fresh b
  | some p =>
    if p.low ≤ b && b ≤ p.high then
      let code := p.code * 64 + (b - 0x80)
      if p.missing ≤ 1 then ([Char.ofNat code], none)
      else ([], some ⟨p.missing - 1, 0x80, 0xBF, code⟩)
    else fresh b

def textFrom : Option Partial → List Nat → List Char
  | _, [] => []
  | p, b :: bs =>
    let r := step b p
    r.1 ++ textFrom r.2 bs

def text (bs : List Nat) : List Char := textFrom none bs

def ofHex : List Char → List Nat
  | a :: b :: cs => ((hexDigit? a).getD 0 * 16 + (hexDigit? b).getD 0) :: ofHex cs
  | _ => []

end Octets

inductive Encoding where
  | utf8
  | utf8Marked
  | ascii
  | latin1
  | windows1252
  /-- UTF-16 whose order of octets a mark at the start tells. -/
  | utf16
  | utf16Little
  | utf16Big
  deriving DecidableEq, Repr

namespace Encoding

def names : List (Encoding × List String) :=
  [(utf8, ["utf_8", "u8", "utf", "utf8", "utf8_ucs2", "utf8_ucs4", "cp65001"]),
    (utf8Marked, ["utf_8_sig"]),
    (ascii, ["ascii", "646", "ansi_x3.4_1968", "ansi_x3_4_1968", "ansi_x3.4_1986", "cp367", "csascii", "ibm367",
      "iso646_us", "iso_646.irv_1991", "iso_ir_6", "us", "us_ascii"]),
    (latin1, ["latin_1", "8859", "cp819", "csisolatin1", "ibm819", "iso8859", "iso8859_1", "iso_8859_1",
      "iso_8859_1_1987", "iso_ir_100", "l1", "latin", "latin1"]),
    (windows1252, ["cp1252", "1252", "windows_1252"]),
    (utf16, ["utf_16", "u16", "utf16"]),
    (utf16Little, ["utf_16_le", "unicodelittleunmarked", "utf_16le"]),
    (utf16Big, ["utf_16_be", "unicodebigunmarked", "utf_16be"])]

def plainName (s : String) : String :=
  let isPart := fun c : Char => isAsciiLetter c || isAsciiDigit c || c == '.'
  let parts := (splitWhere (fun c => !isPart c) s.toList).filter (· ≠ [])
  String.ofList (Chars.join ['_'] (parts.map fun p => p.map Char.toLower))

def ofName? (s : String) : Option Encoding := (names.find? fun n => n.2.contains (plainName s)).map (·.1)

def upperControls : List Nat :=
  [0x20AC, 0, 0x201A, 0x0192, 0x201E, 0x2026, 0x2020, 0x2021, 0x02C6, 0x2030, 0x0160, 0x2039, 0x0152, 0, 0x017D, 0,
    0, 0x2018, 0x2019, 0x201C, 0x201D, 0x2022, 0x2013, 0x2014, 0x02DC, 0x2122, 0x0161, 0x203A, 0x0153, 0, 0x017E,
    0x0178]

def windowsChar? (b : Nat) : Option Char :=
  if 0x80 ≤ b && b ≤ 0x9F then
    match upperControls[b - 0x80]? with
    | some 0 => none
    | some n => some (Char.ofNat n)
    | none => none
  else some (Char.ofNat b)

def units (big : Bool) : List Nat → List Nat
  | a :: b :: r => (if big then a * 256 + b else b * 256 + a) :: units big r
  | _ => []

def unitText : Option Nat → List Nat → List Char
  | _, [] => []
  | high, u :: us =>
    if 0xDC00 ≤ u && u ≤ 0xDFFF then
      match high with
      | some h => Char.ofNat (0x10000 + (h - 0xD800) * 0x400 + (u - 0xDC00)) :: unitText none us
      | none => unitText none us
    else if 0xD800 ≤ u && u ≤ 0xDBFF then unitText (some u) us
    else Char.ofNat u :: unitText none us

def decode? (e : Encoding) (bs : List Nat) : Option (List Char) :=
  match e with
  | utf8 => some (Octets.text bs)
  | utf8Marked =>
    some (Octets.text (match bs with
      | 0xEF :: 0xBB :: 0xBF :: r => r
      | r => r))
  | ascii => some ((bs.filter (· < 0x80)).map Char.ofNat)
  | latin1 => some (bs.map Char.ofNat)
  | windows1252 => some (bs.filterMap windowsChar?)
  | utf16 =>
    match bs with
    | 0xFF :: 0xFE :: r => some (unitText none (units false r))
    | 0xFE :: 0xFF :: r => some (unitText none (units true r))
    | _ :: _ :: _ => none
    | _ => some []
  | utf16Little => some (unitText none (units false bs))
  | utf16Big => some (unitText none (units true bs))

end Encoding

end CodeAtlas
