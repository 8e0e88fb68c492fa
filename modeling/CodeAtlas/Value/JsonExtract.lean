import CodeAtlas.Value.Access
import CodeAtlas.Value.JsonReader

/-!
# Documents inside chat text

A model may answer with a document, or with a document between two fences. `Json.extract` reads the text as a
document; failing that, it reads what stands between the first and the last fence, without the rest of the line
of the first fence. What cannot be read counts as absent.
-/

namespace CodeAtlas.Json

def fence : List Char := ['\x60', '\x60', '\x60']

def afterFirstLine (s : List Char) : List Char :=
  match s.dropWhile (· != '\n') with
  | [] => s
  | _ :: r => r

def fenced? (s : List Char) : Option (List Char) :=
  match Chars.find? fence s, Chars.findLast? fence s with
  | some start, some stop =>
    if start < stop then some (afterFirstLine ((s.drop (start + 3)).take (stop - (start + 3)))) else none
  | _, _ => none

def extract (text : String) : Value :=
  match parse text with
  | .ok v => v
  | .error _ =>
    match fenced? text.toList with
    | none => .null
    | some inner =>
      match parse (String.ofList inner) with
      | .ok v => v
      | .error _ => .null

def extractFrom (v : Value) : Loose Value :=
  match v with
  | .atom (.text s) => .ok (extract s)
  | v => do
    if ← v.holdsText (String.ofList fence) then throw (.noOperation v.kindName "find")
    return .null

end CodeAtlas.Json
