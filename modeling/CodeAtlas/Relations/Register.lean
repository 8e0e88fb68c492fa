import CodeAtlas.Relations.Cycles
import CodeAtlas.Relations.Kind
import CodeAtlas.Value.Access
import CodeAtlas.Value.Order

/-!
# The register of relations

A register holds relations as loosely typed values, and the names of the classes that are known. Relations
are checked, made distinct, sorted by kind, and searched for cycles; further ones are inferred from the
fields of classes.

* `Register.keepValid`, `Register.distinct`: the check, and the dropping of repetitions;
* `Register.infer`: compositions and implementations that are not declared;
* `Register.cycles`: classes that depend on themselves.

## Scope

Relations and classes are any values.  An operation ends in a fault when one is not of the form it needs.
-/

namespace CodeAtlas

/-- The ends and the kind of a relation, as far as they are there. -/
structure RelationKey where
  source : Value
  target : Value
  kind : Value

namespace RelationKey

def ofValue (r : Value) : Loose RelationKey := do
  return ⟨← r.get "from", ← r.get "to", ← r.get "type"⟩

def atoms (k : RelationKey) : Loose (Atom × Atom × Atom) := do
  return (← k.source.key, ← k.target.key, ← k.kind.key)

def isValid (known : List Atom) (k : RelationKey) : Loose Bool :=
  if !(k.source.truthy && k.target.truthy && k.kind.truthy) then return false
  else match k.kind.text?.bind RelationKind.ofName? with
    | none => return false
    | some .dependency => return true
    | some _ => do
      if !(← k.source.key).isIn known then return false
      else if !(← k.target.key).isIn known then return false
      else return !k.source.same k.target

end RelationKey

structure Register where
  relations : List Value := []
  known : List Atom := []

namespace Register

def classNames (classes : Value) : Loose (List Atom) := do
  (← classes.items).mapM fun c => do (← c.field "class").key

def atomSet (as : List Atom) : List Atom := as.foldl (fun set a => a.insertInto set) []

def ascendingAtoms (as : List Atom) : List Atom := Reordering.ascending.order as

def setClasses (r : Register) (classes : Value) : Loose Register := do
  return { r with known := atomSet (← classNames classes) }

def add (r : Register) (relations : Value) : Loose Register := do
  return { r with relations := r.relations ++ (← relations.items) }

def validate (r : Register) : Loose (List Value) :=
  r.relations.filterM fun v => do (← RelationKey.ofValue v).isValid r.known

def distinctFrom (seen : List (Atom × Atom × Atom)) : List ((Atom × Atom × Atom) × Value) → List Value
  | [] => []
  | (k, v) :: rest =>
    if seen.contains k then distinctFrom seen rest else v :: distinctFrom (k :: seen) rest

/-- The first of each group with the same ends and kind. -/
def distinct (relations : List Value) : Loose (List Value) := do
  let keyed ← relations.mapM fun v => do return (← (← RelationKey.ofValue v).atoms, v)
  return distinctFrom [] keyed

def keepValid (r : Register) : Loose Register := do
  return { r with relations := ← distinct (← r.validate) }

/-! ### Inference -/

def fieldType (field : String) : String :=
  let type := Text.trim ((Text.splitOn field ":")[1]?.getD "")
  let head := fun s sep => (Text.splitOn s sep).headD ""
  Text.trim (head (head type "<") "[")

def fieldType? (field : Value) : Loose (Option String) := do
  if ← field.holdsText ":" then return some (fieldType (← field.textFor "split"))
  else return none

def fieldTypes (cls : Value) : Loose (List String) := do
  let fields ← (← cls.getD "fields" (.list [])).items
  return Text.ascendingSet ((← fields.mapM fieldType?).filterMap id)

def putTypes (name : Atom) (types : List String) :
    List (Atom × List String) → List (Atom × List String)
  | [] => [(name, types)]
  | (n, ts) :: rest => if n == name then (n, types) :: rest else (n, ts) :: putTypes name types rest

def typeTable (classes : List Value) : Loose (List (Atom × List String)) :=
  classes.foldlM (fun table c => do
    let name ← (← c.field "class").key
    return putTypes name (← fieldTypes c) table) []

def inferred (source target : Value) (kind : String) : Value :=
  .ofFields [("from", source), ("to", target), ("type", .text kind), ("source", .text "inferred")]

def inferCompositions (known : List Atom) (table : List (Atom × List String)) : List Value :=
  table.flatMap fun (name, types) =>
    (types.filter fun t => (Atom.text t).isIn known && !(Atom.text t).same name).map fun t =>
      inferred (.atom name) (.text t) "composition"

def classNamed? (name : Value) : List Value → Loose (Option Value)
  | [] => return none
  | c :: cs => do
    if (← c.field "class").same name then return some c else classNamed? name cs

def inferImplementations (r : Register) (classes : List Value) (cls : Value) : Loose (List Value) := do
  let name ← cls.field "class"
  if (← cls.getD "abstract" (.bool false)).truthy then return []
  else
    let found ← r.relations.mapM fun v => do
      if (← v.get "to").same name && (← v.get "type").isText "extends" then
        let base ← v.get "from"
        match ← classNamed? base classes with
        | some c =>
          if c.truthy && (← c.getD "abstract" (.bool false)).truthy then
            return [inferred base name "implements"]
          else return []
        | none => return []
      else return []
    return found.flatten

def infer (r : Register) (classes : Value) : Loose (List Value) := do
  let cs ← classes.items
  let table ← typeTable cs
  let implementations ← cs.mapM (r.inferImplementations cs)
  return inferCompositions r.known table ++ implementations.flatten

/-! ### Views -/

/-- Relations under the heading that their kind is spelled like. -/
def categorize (relations : List Value) : Loose (List (String × List Value)) := do
  let keyed ← relations.mapM fun v => do return (← (← v.get "type").key, v)
  return RelationKind.all.map fun k =>
    (k.heading, (keyed.filter fun p => p.1.same (.text k.heading)).map (·.2))

def strengthOf (relation : Value) : Loose Strength := do
  match ← (← relation.get "type").key with
  | .text s => return ((RelationKind.ofName? s).map RelationKind.strength).getD .weak
  | _ => return .weak

def filterStrong (relations : Value) (least : Value) : Loose (List Value) := do
  match Strength.all.find? fun s => least.isText s.name with
  | none => throw (.invalid (least.nested ++ " is not in list"))
  | some l => (← relations.items).filterM fun v => do return (← strengthOf v).rank ≤ l.rank

def ofClass (r : Register) (name : Value) : Loose (List Value × List Value) := do
  let keyed ← r.relations.mapM fun v => do return (← v.get "from", ← v.get "to", v)
  return ((keyed.filter fun p => p.2.1.same name).map (·.2.2),
    (keyed.filter fun p => p.1.same name).map (·.2.2))

def arrow? (relation : Value) : Loose (Option (Atom × Value)) := do
  let kind ← relation.get "type"
  if ((kind.text?.bind RelationKind.ofName?).map RelationKind.binds).getD false then
    return some (← (← relation.get "from").key, ← relation.get "to")
  else return none

def cycles (r : Register) : Loose (List (List Atom)) := do
  let arrows := (← r.relations.mapM arrow?).filterMap id
  match Graph.cycles? (← arrows.mapM fun a => do return (a.1, ← a.2.key)) with
  | some cs => return cs
  | none => throw (.invalid "a class is not in list")

def statistics (r : Register) : Loose Value := do
  let groups ← categorize r.relations
  let cycles ← r.cycles
  return .ofFields [
    ("total_relationships", .nat r.relations.length),
    ("by_type", .ofFields ((groups.filter (!·.2.isEmpty)).map fun g => (g.1, .nat g.2.length))),
    ("total_classes", .nat r.known.length),
    ("circular_dependencies", .nat cycles.length)]

end Register

end CodeAtlas
