import CodeAtlas.Value.Display

/-!
# Writing JSON documents

`Json.write` lays a value out on one line or on indented lines, with the keys as they are or in ascending
order, and with the characters beyond ASCII kept or escaped. `Json.canonical` is the form that hashes are
taken of: no blanks, ascending keys, ASCII only.
-/

namespace CodeAtlas.Json

structure Style where
  comma : String := ", "
  colon : String := ": "
  /-- Width of one level, for a document of several lines. -/
  indent : Option Nat := none
  ascii : Bool := true
  /-- Write keys in ascending order. -/
  sorted : Bool := false

def unicodeText (n : Nat) : List Char := '\\' :: 'u' :: hexText 4 n

def stringChar (ascii : Bool) (c : Char) : List Char :=
  if c == '"' then ['\\', '"']
  else if c == '\\' then ['\\', '\\']
  else if c == '\n' then ['\\', 'n']
  else if c == '\r' then ['\\', 'r']
  else if c == '\t' then ['\\', 't']
  else if c == '\x0c' then ['\\', 'f']
  else if c == '\x08' then ['\\', 'b']
  else if c.toNat < 32 then unicodeText c.toNat
  else if ascii && 127 ≤ c.toNat then
    if c.toNat < 0x10000 then unicodeText c.toNat
    else
      let n := c.toNat - 0x10000
      unicodeText (0xD800 + n / 0x400) ++ unicodeText (0xDC00 + n % 0x400)
  else [c]

def stringText (ascii : Bool) (s : String) : String :=
  String.ofList ('"' :: s.toList.flatMap (stringChar ascii) ++ ['"'])

def floatText : Binary64 → String
  | .nan => "NaN"
  | .infinite neg => if neg then "-Infinity" else "Infinity"
  | x => x.text

def atomText (ascii : Bool) : Atom → String
  | .null => "null"
  | .bool b => if b then "true" else "false"
  | .int n => toString n
  | .float x => floatText x
  | .text s => stringText ascii s

def keyText (ascii : Bool) : Atom → String
  | .text s => stringText ascii s
  | a => "\"" ++ atomText ascii a ++ "\""

def keyLe (a b : Atom × Value) : Bool :=
  match a.1, b.1 with
  | .text s, .text t => s ≤ t
  | _, _ => true

def lineStart (style : Style) (n : Nat) : String :=
  match style.indent with
  | none => ""
  | some w => "\n" ++ String.ofList (List.replicate (w * n) ' ')

def between (style : Style) (n : Nat) : String :=
  match style.indent with
  | none => style.comma
  | some _ => "," ++ lineStart style n

mutual

def writeAt (style : Style) (n : Nat) : Value → String
  | .atom a => atomText style.ascii a
  | .list [] => "[]"
  | .list (x :: xs) =>
    "[" ++ lineStart style (n + 1) ++ writeAt style (n + 1) x ++ writeItems style (n + 1) xs ++
      lineStart style n ++ "]"
  | .record [] => "\x7b\x7d"
  | .record (f :: fs) =>
    let texts := fieldTexts style (n + 1) (f :: fs)
    let ordered := if style.sorted then texts.mergeSort (fun a b => keyLe (a.1, .null) (b.1, .null))
      else texts
    "\x7b" ++ lineStart style (n + 1) ++ String.intercalate (between style (n + 1))
      (ordered.map Prod.snd) ++ lineStart style n ++ "\x7d"

def writeItems (style : Style) (n : Nat) : List Value → String
  | [] => ""
  | x :: xs => between style n ++ writeAt style n x ++ writeItems style n xs

def fieldTexts (style : Style) (n : Nat) : List (Atom × Value) → List (Atom × String)
  | [] => []
  | (k, v) :: fs =>
    (k, keyText style.ascii k ++ style.colon ++ writeAt style n v) :: fieldTexts style n fs

end

def write (style : Style) (v : Value) : String := writeAt style 0 v

def plain : Style := { ascii := false }

def pretty : Style := { ascii := false, indent := some 2 }

def ordered : Style := { sorted := true }

def compact : Style := { comma := ",", colon := ":", sorted := true }

def canonical (v : Value) : String := write compact v

end CodeAtlas.Json
