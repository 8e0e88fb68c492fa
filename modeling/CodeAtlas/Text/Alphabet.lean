import CodeAtlas.Text.CharTable

/-!
# Classes of characters

The classes that the rest of the library tests characters by. The ASCII characters are decided here, the
others by the tables of `CodeAtlas.Text.CharTable`.

* `isUpper`, `isLower`, `isCased`: letters by case;
* `digitValue?`: the value of a decimal digit of any script.
-/

namespace CodeAtlas

def isBlank (c : Char) : Bool :=
  let n := c.toNat
  (9 ≤ n && n ≤ 13) || (28 ≤ n && n ≤ 32) || n == 0x85 || n == 0xA0 || n == 0x1680 ||
    (0x2000 ≤ n && n ≤ 0x200A) || n == 0x2028 || n == 0x2029 || n == 0x202F || n == 0x205F ||
    n == 0x3000

def isLineBreak (c : Char) : Bool :=
  let n := c.toNat
  (10 ≤ n && n ≤ 13) || (28 ≤ n && n ≤ 30) || n == 0x85 || n == 0x2028 || n == 0x2029

def isAsciiDigit (c : Char) : Bool := '0' ≤ c && c ≤ '9'

def isAsciiLetter (c : Char) : Bool := ('a' ≤ c && c ≤ 'z') || ('A' ≤ c && c ≤ 'Z')

def isAsciiUpper (c : Char) : Bool := 'A' ≤ c && c ≤ 'Z'

def isNameStart (c : Char) : Bool := isAsciiLetter c || c == '_'

def isNameChar (c : Char) : Bool := isAsciiLetter c || isAsciiDigit c || c == '_'

def isQuote (c : Char) : Bool := c == '"' || c == '\x27'

def isAlnum (c : Char) : Bool :=
  if c.toNat < 128 then isAsciiLetter c || isAsciiDigit c else CharTable.isAlphanumeric c

def isWordChar (c : Char) : Bool := isAlnum c || c == '_'

def isPrintable (c : Char) : Bool :=
  if c.toNat < 128 then 32 ≤ c.toNat && c.toNat < 127 else !CharTable.unprintable.contains c

def isUpper (c : Char) : Bool :=
  if c.toNat < 128 then isAsciiUpper c else CharTable.uppercase.contains c

def isLower (c : Char) : Bool :=
  if c.toNat < 128 then 'a' ≤ c && c ≤ 'z' else CharTable.lowercase.contains c

def isTitlecase (c : Char) : Bool := CharTable.titlecase.contains c

def isCased (c : Char) : Bool := isUpper c || isLower c || isTitlecase c

def isCaseIgnorable (c : Char) : Bool :=
  if c.toNat < 128 then
    c == '\x27' || c == '.' || c == ':' || c == '^' || c == '\x60'
  else CharTable.caseIgnorable.contains c

def isDigitChar (c : Char) : Bool :=
  if c.toNat < 128 then isAsciiDigit c else CharTable.zeros.contains c || CharTable.otherDigits.contains c

def digitValue? (c : Char) : Option Nat :=
  if c.toNat < 128 then if isAsciiDigit c then some (c.toNat - 48) else none
  else
    match CharTable.zeros.ranges.toList.find? (fun r => r.1 ≤ c.toNat && c.toNat ≤ r.2) with
    | some r => some (c.toNat - r.1)
    | none => none

def isLowerText (cs : List Char) : Bool :=
  cs.any isLower && cs.all (fun c => !isUpper c && !isTitlecase c)

end CodeAtlas
