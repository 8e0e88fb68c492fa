import CodeAtlas.Text.Alphabet
import CodeAtlas.Value.Basic

/-!
# Values as text

`Value.display` is the text of a value where it stands by itself: a text is shown as it is. Inside a list
or a record texts are quoted by `quoted`: single quotes unless the text holds a single quote and no double
one; the quote, the backslash and the characters that do not print are escaped.
-/

namespace CodeAtlas

def hexText (width n : Nat) : List Char :=
  let ds := Nat.toDigits 16 n
  List.replicate (width - ds.length) '0' ++ ds

def quotedChar (quote c : Char) : List Char :=
  if c == quote || c == '\\' then ['\\', c]
  else if c == '\t' then ['\\', 't']
  else if c == '\n' then ['\\', 'n']
  else if c == '\r' then ['\\', 'r']
  else if isPrintable c then [c]
  else if c.toNat < 0x100 then '\\' :: 'x' :: hexText 2 c.toNat
  else if c.toNat < 0x10000 then '\\' :: 'u' :: hexText 4 c.toNat
  else '\\' :: 'U' :: hexText 8 c.toNat

def quoted (s : String) : String :=
  let cs := s.toList
  let quote := if cs.contains '\x27' && !cs.contains '"' then '"' else '\x27'
  String.ofList (quote :: cs.flatMap (quotedChar quote) ++ [quote])

def Atom.quotedText : Atom → String
  | .null => "None"
  | .bool b => if b then "True" else "False"
  | .int n => toString n
  | .float x => x.text
  | .text s => quoted s

namespace Value

mutual

def nested : Value → String
  | .atom a => a.quotedText
  | .list xs => "[" ++ nestedItems xs ++ "]"
  | .record fs => "\x7b" ++ nestedFields fs ++ "\x7d"

def nestedItems : List Value → String
  | [] => ""
  | [x] => nested x
  | x :: y :: xs => nested x ++ ", " ++ nestedItems (y :: xs)

def nestedFields : List (Atom × Value) → String
  | [] => ""
  | [(k, v)] => k.quotedText ++ ": " ++ nested v
  | (k, v) :: f :: fs => k.quotedText ++ ": " ++ nested v ++ ", " ++ nestedFields (f :: fs)

end

def display : Value → String
  | .atom (.text s) => s
  | v => v.nested

end Value

def Atom.display (a : Atom) : String := (Value.atom a).display

def Fault.message : Fault → String
  | .noOperation kind name => s!"'{kind}' object has no attribute '{name}'"
  | .notIndexable kind => s!"'{kind}' object is not subscriptable"
  | .notIterable kind => s!"'{kind}' object is not iterable"
  | .noLength kind => s!"object of type '{kind}' has no len()"
  | .notKey kind => s!"unhashable type: '{kind}'"
  | .mismatch m => m
  | .missingKey k => k.quotedText
  | .outOfRange kind => kind ++ " index out of range"
  | .invalid m => m
  | .badNumber m => m
  | .reservedField name => quoted s!"Attempt to overwrite {quoted name} in LogRecord"
  | .divisionByZero => "division by zero"
  | .badDocument m => m

end CodeAtlas
