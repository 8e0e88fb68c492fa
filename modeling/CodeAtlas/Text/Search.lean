/-!
# Finding, replacing and counting texts in a text

The functions on `List Char` carry the definitions; those in `Text` are the same on `String`. A set of texts is kept as
an ascending list without repetition.

* `Chars.after? p s`: the rest of `s` after the part `p` that it starts with.
-/

namespace CodeAtlas

namespace Chars

/-- What holds of all characters of a text is decided along the text. -/
instance (priority := high) decidableAll (p : Char → Prop) [DecidablePred p] (s : List Char) :
  Decidable (∀ c ∈ s, p c) :=
  List.decidableBAll p s

def after? : List Char → List Char → Option (List Char)
  | [], s => some s
  | _ :: _, [] => none
  | p :: ps, c :: cs => if p = c then after? ps cs else none

def startsWith (p s : List Char) : Bool := (after? p s).isSome

def endsWith (p s : List Char) : Bool := startsWith p.reverse s.reverse

def contains (p : List Char) : List Char → Bool
  | [] => p.isEmpty
  | c :: cs => startsWith p (c :: cs) || contains p cs

def findFrom (p : List Char) (start : Nat) : List Char → Option Nat
  | [] => if p.isEmpty then some start else none
  | c :: cs => if startsWith p (c :: cs) then some start else findFrom p (start + 1) cs

def find? (p s : List Char) : Option Nat := findFrom p 0 s

def findLast? (p s : List Char) : Option Nat :=
  (find? p.reverse s.reverse).map fun k => s.length - k - p.length

def splitOnFrom (sep : List Char) (acc : List Char) : Nat → List Char → List (List Char)
  | _, [] => [acc.reverse]
  | skip + 1, _ :: cs => splitOnFrom sep acc skip cs
  | 0, c :: cs =>
    if startsWith sep (c :: cs) then acc.reverse :: splitOnFrom sep [] (sep.length - 1) cs
    else splitOnFrom sep (c :: acc) 0 cs

def splitOn (sep s : List Char) : List (List Char) := splitOnFrom sep [] 0 s

def join (sep : List Char) : List (List Char) → List Char
  | [] => []
  | [p] => p
  | p :: q :: ps => p ++ sep ++ join sep (q :: ps)

def replace (old new s : List Char) : List Char := join new (splitOn old s)

end Chars

namespace Text

def startsWith (s p : String) : Bool := Chars.startsWith p.toList s.toList

def endsWith (s p : String) : Bool := Chars.endsWith p.toList s.toList

def contains (s p : String) : Bool := Chars.contains p.toList s.toList

def find? (s p : String) : Option Nat := Chars.find? p.toList s.toList

def findLast? (s p : String) : Option Nat := Chars.findLast? p.toList s.toList

def splitOn (s sep : String) : List String := (Chars.splitOn sep.toList s.toList).map String.ofList

def replace (s old new : String) : String :=
  String.ofList (Chars.replace old.toList new.toList s.toList)

def join (sep : String) (parts : List String) : String :=
  String.ofList (Chars.join sep.toList (parts.map String.toList))

def slice (s : String) (a b : Nat) : String := String.ofList ((s.toList.drop a).take (b - a))

def drop (s : String) (a : Nat) : String := String.ofList (s.toList.drop a)

def take (s : String) (n : Nat) : String := String.ofList (s.toList.take n)


def dropRepeats : List String → List String
  | a :: b :: r => if a == b then dropRepeats (b :: r) else a :: dropRepeats (b :: r)
  | l => l

def ascending (l : List String) : List String := l.mergeSort fun a b => decide (a ≤ b)

def ascendingSet (l : List String) : List String := dropRepeats (ascending l)

def insertAscending (s : String) : List String → List String
  | [] => [s]
  | a :: r => if s == a then a :: r else if s < a then s :: a :: r else a :: insertAscending s r

end Text

end CodeAtlas
