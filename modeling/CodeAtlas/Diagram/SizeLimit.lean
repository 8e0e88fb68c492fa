import CodeAtlas.Diagram.Line

/-!
# The size limit of diagrams

A diagram that has too many lines or octets is cut, so that a renderer takes it. Lines may be of any type that has a
text. The limits may be any integers; below zero there is no line and no octet.

* `shrink`: with too many octets, lines before the note (or before the last two lines) are dropped one by
  one; the first two lines stay.
-/

namespace CodeAtlas

namespace SizeLimit

variable {α : Type} (text : α → String) (plain : String → α)

def closes (line : String) : Bool := Text.lower (Text.trim line) == "@enduml"

def cutNote : List String :=
  ["note as WARNING", "Diagram truncated to 2000 lines for compatibility.", "end note"]

def cutLines (maxLines : Int) (lines : List α) : List α :=
  lines.take (maxLines - 4).toNat ++ cutNote.map plain ++
    [(lines.find? fun l => closes (text l)).getD (plain "@enduml")]

def closed (lines : List α) : List α :=
  if (lines.getLast?.map fun l => closes (text l)).getD false then lines else lines ++ [plain "@enduml"]

def firstLines (maxLines : Int) (lines : List α) : List α :=
  closed text plain (if maxLines < lines.length then cutLines text plain maxLines lines else lines)

def octets (lines : List String) : Nat := (Text.join "\n" lines).utf8ByteSize

def startsNote (line : String) : Bool := Text.startsWith (Text.trim line) "note as WARNING"

def headLength (lines : List α) : Nat := (lines.findIdx? fun l => startsNote (text l)).getD (lines.length - 2)

def shrinkHead (maxOctets : Int) (size count : Nat) : List α → List α
  | l :: m :: n :: rest =>
    if maxOctets < size ∧ 5 < count then
      shrinkHead maxOctets (size - ((text l).utf8ByteSize + 1)) (count - 1) (m :: n :: rest)
    else l :: m :: n :: rest
  | head => head

def shrink (maxOctets : Int) (lines : List α) : List α :=
  let k := headLength text lines
  (shrinkHead text maxOctets (octets (lines.map text)) lines.length (lines.take k).reverse).reverse ++ lines.drop k

def tooLarge (theme : String) (maxOctets : Int) : List String :=
  ["@startuml", "!theme " ++ theme, "note as WARNING",
    s!"Diagram too large to render (exceeds {maxOctets} bytes after truncation).", "end note", "@enduml"]

def limited? (theme : String) (maxLines maxOctets : Int) (lines : List α) : Option (List α) :=
  let kept := firstLines text plain maxLines lines
  let small := shrink text maxOctets kept
  if maxOctets < octets (small.map text) then some ((tooLarge theme maxOctets).map plain)
  else if maxLines < lines.length || small.length < kept.length then some small
  else none

end SizeLimit

/-- A diagram of at most so many lines and octets. -/
def limitSize (theme : String) (text : String) (maxLines : Int := 2000) (maxOctets : Int := 8000) : String :=
  match SizeLimit.limited? id id theme maxLines maxOctets (Text.lines text) with
  | some lines => Text.join "\n" lines
  | none => text

end CodeAtlas
