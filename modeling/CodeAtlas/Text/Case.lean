import CodeAtlas.Text.Alphabet
import CodeAtlas.Text.CaseTable

/-!
# Lower, upper and title case of texts

The mappings are those of the character database, expansions included: the sharp s becomes two letters
in upper case. In lower case the capital sigma takes its final form after a letter that no further
letter follows. In title case a letter is raised unless a letter stands before it, and lowered then.
-/

namespace CodeAtlas

def lowerMap : CharMap := CharMap.ofText CaseTable.lowerRuns CaseTable.lowerExpansions

def upperMap : CharMap := CharMap.ofText CaseTable.upperRuns CaseTable.upperExpansions

def titleExceptions : List (Nat × List Char) := CaseTable.titleExceptions.read

def lowerChar (c : Char) : List Char :=
  if c.toNat < 128 then [if isAsciiUpper c then Char.ofNat (c.toNat + 32) else c]
  else lowerMap.apply c

def upperChar (c : Char) : List Char :=
  if c.toNat < 128 then [if 'a' ≤ c ∧ c ≤ 'z' then Char.ofNat (c.toNat - 32) else c]
  else upperMap.apply c

def titleChar (c : Char) : List Char :=
  match titleExceptions.find? (fun e => e.1 == c.toNat) with
  | some e => e.2
  | none => upperChar c

def letterAhead (cs : List Char) : Bool :=
  match cs.dropWhile isCaseIgnorable with
  | [] => false
  | c :: _ => isCased c

def lowerAt (before : List Char) (c : Char) (after : List Char) : List Char :=
  if c.toNat == 0x3A3 then
    [Char.ofNat (if letterAhead before && !letterAhead after then 0x3C2 else 0x3C3)]
  else lowerChar c

def lowerAfter (before : List Char) : List Char → List Char
  | [] => []
  | c :: cs => lowerAt before c cs ++ lowerAfter (c :: before) cs

def titleAfter (inWord : Bool) (before : List Char) : List Char → List Char
  | [] => []
  | c :: cs =>
    (if inWord then lowerAt before c cs else titleChar c) ++ titleAfter (isCased c) (c :: before) cs

namespace Text

def lower (s : String) : String := String.ofList (lowerAfter [] s.toList)

def upper (s : String) : String := String.ofList (s.toList.flatMap upperChar)

def title (s : String) : String := String.ofList (titleAfter false [] s.toList)

end Text

end CodeAtlas
