import CodeAtlas.Number.Decimal

/-!
# Loosely typed values

Analysis schemas, model replies and configuration arrive as values whose shape nobody has promised. A
value is an atom, a list, or a record that keeps the order in which its keys were first put. An operation that a value
does not support ends in a fault, which names its cause.

* `Value.truthy`: whether a value counts as present (nothing, zero and the empty texts, lists and
  records do not);
* `Record.put`, `Record.get?`: insertion-ordered records.
-/

namespace CodeAtlas

/-- A value without parts; atoms are the keys of records. -/
inductive Atom where
  | null
  | bool (b : Bool)
  | int (n : Int)
  | float (x : Binary64)
  | text (s : String)
  deriving DecidableEq, Repr, Inhabited

inductive Value where
  | atom (a : Atom)
  | list (items : List Value)
  | record (fields : List (Atom × Value))
  deriving Repr, Inhabited

/-- The fields of a record in the order of their first insertion. -/
abbrev Record := List (Atom × Value)

namespace Atom

def number? : Atom → Option (Int ⊕ Binary64)
  | bool b => some (.inl (if b then 1 else 0))
  | int n => some (.inl n)
  | float x => some (.inr x)
  | _ => none

def intIsFloat (n : Int) (x : Binary64) : Bool := Binary64.compareInt? n x == some .eq

def sameNumber : Int ⊕ Binary64 → Int ⊕ Binary64 → Bool
  | .inl m, .inl n => m == n
  | .inl m, .inr y => intIsFloat m y
  | .inr x, .inl n => intIsFloat n x
  | .inr x, .inr y => x.eq y || (x == .nan && y == .nan)

def same (a b : Atom) : Bool :=
  match a, b with
  | null, null => true
  | text s, text t => s == t
  | a, b =>
    match a.number?, b.number? with
    | some x, some y => sameNumber x y
    | _, _ => false

instance : BEq Atom := ⟨same⟩

def truthy : Atom → Bool
  | null => false
  | bool b => b
  | int n => n != 0
  | float x => x.nonzero
  | text s => s != ""

end Atom

namespace Record

def get? (key : Atom) : Record → Option Value
  | [] => none
  | (k, v) :: r => if k.same key then some v else get? key r

def put (key : Atom) (value : Value) : Record → Record
  | [] => [(key, value)]
  | (k, v) :: r => if k.same key then (k, value) :: r else (k, v) :: put key value r

def erase (key : Atom) : Record → Record
  | [] => []
  | (k, v) :: r => if k.same key then r else (k, v) :: erase key r

def has (key : Atom) (r : Record) : Bool := (get? key r).isSome

def keys (r : Record) : List Atom := r.map Prod.fst

def merge (r s : Record) : Record := s.foldl (fun acc kv => put kv.1 kv.2 acc) r

end Record

namespace Value

def null : Value := .atom .null

def bool (b : Bool) : Value := .atom (.bool b)

def int (n : Int) : Value := .atom (.int n)

def nat (n : Nat) : Value := .atom (.int n)

def float (x : Binary64) : Value := .atom (.float x)

def text (s : String) : Value := .atom (.text s)

def texts (ss : List String) : Value := .list (ss.map text)

def ofFields (fields : List (String × Value)) : Value :=
  .record (fields.map fun f => (.text f.1, f.2))

def truthy : Value → Bool
  | .atom a => a.truthy
  | .list xs => !xs.isEmpty
  | .record fs => !fs.isEmpty

def isText (v : Value) (s : String) : Bool :=
  match v with
  | .atom (.text t) => t == s
  | _ => false

def text? : Value → Option String
  | .atom (.text s) => some s
  | _ => none

def isNull : Value → Bool
  | .atom .null => true
  | _ => false

def isList : Value → Bool
  | .list _ => true
  | _ => false

def isRecord : Value → Bool
  | .record _ => true
  | _ => false

def orElse (v w : Value) : Value := if v.truthy then v else w

def orText (v : Value) (s : String) : Value := v.orElse (text s)

mutual

def same : Value → Value → Bool
  | .atom a, .atom b => a.same b
  | .list xs, .list ys => sameList xs ys
  | .record fs, .record gs => fs.length == gs.length && sameFields fs gs
  | _, _ => false

def sameList : List Value → List Value → Bool
  | [], [] => true
  | x :: xs, y :: ys => same x y && sameList xs ys
  | _, _ => false

def sameFields : List (Atom × Value) → List (Atom × Value) → Bool
  | [], _ => true
  | (k, v) :: fs, gs =>
    (match Record.get? k gs with
      | some w => same v w
      | none => false) && sameFields fs gs

end

end Value

def Value.kindName : Value → String
  | .atom .null => "NoneType"
  | .atom (.bool _) => "bool"
  | .atom (.int _) => "int"
  | .atom (.float _) => "float"
  | .atom (.text _) => "str"
  | .list _ => "list"
  | .record _ => "dict"

inductive Fault where
  | noOperation (kind name : String)
  | notIndexable (kind : String)
  | notIterable (kind : String)
  | noLength (kind : String)
  | notKey (kind : String)
  /-- Another operation met values of kinds it is not made for. -/
  | mismatch (message : String)
  | missingKey (key : Atom)
  | outOfRange (kind : String)
  | invalid (message : String)
  | badNumber (message : String)
  | reservedField (name : String)
  | divisionByZero
  | badDocument (message : String)
  deriving DecidableEq, Repr, Inhabited

end CodeAtlas
