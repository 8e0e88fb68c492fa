import CodeAtlas.Text.Case
import CodeAtlas.Text.Lines
import CodeAtlas.Value.Display

/-!
# Operations on loosely typed values

Each operation states which kinds of values it is made for and ends in a fault for the others. Looking a
field up is an operation of records only; iteration goes through the items of a list, the keys of a record
or the characters of a text. Texts are ordered by their characters' codes and numbers by their value; there is no order
between a text and a number, nor between the absent value and anything.
-/

namespace CodeAtlas

abbrev Loose := Except Fault

namespace Value

def fieldsFor (name : String) : Value → Loose Record
  | .record fs => .ok fs
  | v => .error (.noOperation v.kindName name)

def get (v : Value) (key : String) : Loose Value := do
  let fs ← v.fieldsFor "get"
  return (Record.get? (.text key) fs).getD .null

def getD (v : Value) (key : String) (default : Value) : Loose Value := do
  let fs ← v.fieldsFor "get"
  return (Record.get? (.text key) fs).getD default

def firstOf (v : Value) (keys : List String) (default : Value) : Loose Value :=
  match keys with
  | [] => .ok default
  | k :: ks => do
    let w ← v.get k
    if w.truthy then return w else v.firstOf ks default

def field (v : Value) (key : String) : Loose Value :=
  match v with
  | .record fs =>
    match Record.get? (.text key) fs with
    | some w => .ok w
    | none => .error (.missingKey (.text key))
  | .list _ => .error (.mismatch "list indices must be integers or slices, not str")
  | .atom (.text _) => .error (.mismatch "string indices must be integers, not 'str'")
  | v => .error (.notIndexable v.kindName)

def first (v : Value) : Loose Value :=
  match v with
  | .list (x :: _) => .ok x
  | .list [] => .error (.outOfRange "list")
  | .atom (.text s) =>
    match s.toList with
    | c :: _ => .ok (text (String.singleton c))
    | [] => .error (.outOfRange "string")
  | .record fs =>
    match Record.get? (.int 0) fs with
    | some w => .ok w
    | none => .error (.missingKey (.int 0))
  | v => .error (.notIndexable v.kindName)

def items : Value → Loose (List Value)
  | .list xs => .ok xs
  | .record fs => .ok (fs.map fun f => .atom f.1)
  | .atom (.text s) => .ok (s.toList.map fun c => text (String.singleton c))
  | v => .error (.notIterable v.kindName)

def takeFirst (v : Value) (n : Nat) : Loose Value :=
  match v with
  | .list xs => .ok (.list (xs.take n))
  | .atom (.text s) => .ok (text (Text.take s n))
  | .record _ => .error (.notKey "slice")
  | v => .error (.notIndexable v.kindName)

def length : Value → Loose Nat
  | .list xs => .ok xs.length
  | .record fs => .ok fs.length
  | .atom (.text s) => .ok s.length
  | v => .error (.noLength v.kindName)

def key : Value → Loose Atom
  | .atom a => .ok a
  | v => .error (.notKey v.kindName)

def textFor (name : String) : Value → Loose String
  | .atom (.text s) => .ok s
  | v => .error (.noOperation v.kindName name)

def trim (v : Value) : Loose String := do return Text.trim (← v.textFor "strip")

def lower (v : Value) : Loose String := do return Text.lower (← v.textFor "lower")

def upper (v : Value) : Loose String := do return Text.upper (← v.textFor "upper")

def asText (v : Value) : Loose String :=
  match v with
  | .atom (.text s) => .ok s
  | v => .error (.mismatch s!"can only concatenate str (not \"{v.kindName}\") to str")

def holdsText (v : Value) (s : String) : Loose Bool :=
  match v with
  | .atom (.text t) => .ok (Text.contains t s)
  | .list xs => .ok (xs.any (·.isText s))
  | .record fs => .ok (Record.has (.text s) fs)
  | v => .error (.mismatch s!"argument of type '{v.kindName}' is not iterable")

end Value

def Atom.isIn (a : Atom) (set : List Atom) : Bool := set.any (·.same a)

def Atom.insertInto (a : Atom) (set : List Atom) : List Atom := if a.isIn set then set else set ++ [a]

namespace Atom

def compareNumbers? : Int ⊕ Binary64 → Int ⊕ Binary64 → Option Ordering
  | .inl m, .inl n => some (compare m n)
  | .inl m, .inr y => Binary64.compareInt? m y
  | .inr x, .inl n => (Binary64.compareInt? n x).map Ordering.swap
  | .inr x, .inr y => x.compare? y

def numberLe (x y : Int ⊕ Binary64) : Bool := compareNumbers? x y != some .gt

def sorted (atoms : List Atom) : Loose (List Atom) :=
  match atoms with
  | [] => .ok []
  | [a] => .ok [a]
  | a :: b :: rest =>
    let as := a :: b :: rest
    match as.mapM (fun x => (Value.atom x).text?), as.mapM number? with
    | some ts, _ => .ok ((ts.mergeSort fun s t => decide (s ≤ t)).map .text)
    | none, some ns => .ok (((as.zip ns).mergeSort fun p q => numberLe p.2 q.2).map (·.1))
    | none, none => .error (.mismatch "'<' not supported between instances of different kinds")

end Atom

end CodeAtlas
