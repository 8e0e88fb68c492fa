import CodeAtlas.Value.Access
import CodeAtlas.Value.JsonWriter

/-!
# Merging two schemas

A schema that was read from source text is merged with one that a model inferred.

* `Merge.classes`: one entry for each class of a language, in the order in which the names first occur;
* `Merge.relations`, `Merge.itemsOf`: relations and other items, those of the first schema first;
* `Merge.schemas`: the whole.

## Scope

Both schemas are any values, and the merge ends in a fault where they lack the form it needs.
-/

namespace CodeAtlas

structure ClassSum where
  name : Atom
  fields : List Atom := []
  methods : List Atom := []
  stereotype : Option String := none
  isAbstract : Bool := false
  package : Value := .null

namespace ClassSum

def membersOf (entry : Value) (name : String) : Loose (List Atom) := do
  (← ((← entry.getD name (.list [])).orElse (.list [])).items).mapM Value.key

def stereotypeOf (entry : Value) : Loose (Option String) := do
  let s ← ((← entry.get "stereotype").orText "").lower
  return if s == "" then none else some s

def absorb (c : ClassSum) (entry : Value) : Loose ClassSum := do
  let fields ← membersOf entry "fields"
  let methods ← membersOf entry "methods"
  let stereotype ← stereotypeOf entry
  let isAbstract := match ← entry.get "abstract" with
    | .atom (.bool b) => b
    | _ => false
  let package := (← entry.get "package").orElse (← entry.get "namespace")
  return { c with
    fields := fields.foldl (fun set a => a.insertInto set) c.fields
    methods := methods.foldl (fun set a => a.insertInto set) c.methods
    stereotype := stereotype.or c.stereotype
    isAbstract := c.isAbstract || isAbstract
    package := package.orElse c.package }

def toEntry (c : ClassSum) (hasNamespaces : Bool) : Loose Value := do
  let fields ← Atom.sorted c.fields
  let methods ← Atom.sorted c.methods
  return .ofFields ([("class", .atom c.name), ("fields", .list (fields.map .atom)),
      ("methods", .list (methods.map .atom))] ++
    (match c.stereotype with
      | some s => [("stereotype", .text s)]
      | none => []) ++
    (if c.isAbstract then [("abstract", .bool true)] else []) ++
    (if c.package.truthy then
      [("package", c.package)] ++ (if hasNamespaces then [("namespace", c.package)] else [])
    else []))

def absorbInto (name : Atom) (entry : Value) : List ClassSum → Loose (List ClassSum)
  | [] => do return [← absorb { name } entry]
  | c :: cs => do
    if c.name.same name then return (← c.absorb entry) :: cs
    else return c :: (← absorbInto name entry cs)

end ClassSum

/-- What tells items of a list apart: one value, or several parts some of which have parts themselves. -/
inductive ItemKey where
  | whole (v : Value)
  | parts (vs : List Value) (more : List Value)

namespace ItemKey

def same : ItemKey → ItemKey → Bool
  | whole v, whole w => v.same w
  | parts vs ms, parts ws ns => Value.sameList vs ws && Value.sameList ms ns
  | _, _ => false

def values : ItemKey → List Value
  | whole v => [v]
  | parts vs ms => vs ++ ms

def ofText (item : Value) : ItemKey := whole (.text (Json.write Json.ordered item))

def recordOf (item : Value) : Value := item.orElse (.record [])

def either (item : Value) (a b : String) : Loose Value := do return (← item.get a).orElse (← item.get b)

def ofEndpoint (item : Value) : Loose ItemKey := do
  let r := recordOf item
  return parts [← r.get "method", ← r.get "path", ← either r "controller" "class"] []

def ofUseCase (item : Value) : Loose ItemKey := do
  let r := recordOf item
  return parts [← either r "name" "action", ← either r "actor" "actors", ← r.get "goal"] []

def ofFlow (item : Value) : Loose ItemKey := do
  let r := recordOf item
  return parts [← either r "from" "initiator", ← either r "to" "receiver", ← either r "message" "action"] []

def ofStep (item : Value) : Loose ItemKey := do return whole (← either (recordOf item) "step" "name")

def ofStates (item : Value) : Loose ItemKey := do return whole (← either (recordOf item) "context" "class")

def ofGroup (name : String) (item : Value) : Loose ItemKey := do
  let r := recordOf item
  let title ← r.get name
  let members ← ((← r.get "classes").orElse (.list [])).items
  return parts [title] members

end ItemKey

namespace Merge

def absorbEntry (sums : List ClassSum) (entry : Value) : Loose (List ClassSum) := do
  let name ← entry.get "class"
  if name.truthy then ClassSum.absorbInto (← name.key) entry sums else return sums

def absorbAll (sums : List ClassSum) (entries : Value) : Loose (List ClassSum) := do
  (← entries.items).foldlM absorbEntry sums

def listIn (schema : Value) (name : String) : Loose Value := do
  return (← schema.getD name (.list [])).orElse (.list [])

def sums (ast ai : Value) (language : String) : Loose (List ClassSum) := do
  let first ← listIn ast language
  let second ← listIn ai language
  absorbAll (← absorbAll [] first) second

def languages : List String := ["python", "java", "csharp", "javascript", "typescript", "cpp", "c"]

def isComplete (r : Value) : Loose Bool := do
  if !r.truthy then return false
  return (← r.get "from").truthy && (← r.get "to").truthy && (← r.get "type").truthy

def tagged (source : String) (r : Value) : Loose Value := do
  let fs ← r.fieldsFor "get"
  return .record (Record.put (.text "source") ((← r.get "source").orText source) fs)

def isAmong (known : List Atom) (r : Value) : Loose Bool := do
  if (← (← r.get "from").key).isIn known then return (← (← r.get "to").key).isIn known
  else return false

def relationKey (r : Value) : Loose (List Atom) :=
  ["from", "to", "type", "source"].mapM fun k => do (← r.get k).key

def sameKey (a b : List Atom) : Bool := a.length == b.length && (a.zip b).all fun p => p.1.same p.2

def distinctFrom (seen : List (List Atom)) : List Value → Loose (List Value)
  | [] => return []
  | r :: rs => do
    let k ← relationKey r
    if seen.any (sameKey k) then distinctFrom seen rs
    else return r :: (← distinctFrom (k :: seen) rs)

/-- Those of the second schema only between known classes. -/
def relations (known : List Atom) (ast ai : Value) : Loose (List Value) := do
  let first ← (← (← listIn ast "relations").items).filterM isComplete
  let first ← first.mapM (tagged "heuristic")
  let second ← (← (← listIn ai "relations").items).filterM fun r => do
    if ← isComplete r then isAmong known r else return false
  let second ← second.mapM (tagged "ai")
  distinctFrom [] (first ++ second)

def keyOf (key : Value → Loose ItemKey) (item : Value) : ItemKey :=
  match key item with
  | .ok k => k
  | .error _ => .ofText item

def distinctItems (key : Value → Loose ItemKey) (seen : List ItemKey) : List Value → Loose (List Value)
  | [] => return []
  | item :: items => do
    if item.isNull then distinctItems key seen items
    else
      let k := keyOf key item
      let _ ← k.values.mapM Value.key
      if seen.any (·.same k) then distinctItems key seen items
      else return item :: (← distinctItems key (k :: seen) items)

def distinctTexts (items : List Value) : Loose (List Value) :=
  distinctItems (fun i => .ok (.ofText i)) [] items

def itemsIn (schema : Value) (names : List String) : Loose (List Value) := do
  let lists ← names.mapM fun n => do
    match ← schema.get n with
    | .list xs => return xs
    | _ => return []
  return lists.flatten

def itemsOf (key : Value → Loose ItemKey) (names : List String) (ast ai : Value) : Loose Value := do
  return .list (← distinctItems key [] ((← itemsIn ast names) ++ (← itemsIn ai names)))

def addNote (notes : Record) (name : Atom) (value : Value) : Loose Record :=
  match value, Record.get? name notes with
  | .list xs, some (.list ys) => do return Record.put name (.list (← distinctTexts (ys ++ xs))) notes
  | .list xs, none => do return Record.put name (.list (← distinctTexts xs)) notes
  | .record fs, some (.record gs) => return Record.put name (.record (Record.merge gs fs)) notes
  | v, _ => return Record.put name v notes

def addNotes (notes : Record) (schema : Value) : Loose Record := do
  match (← schema.get "meta").orElse (.record []) with
  | .record fs => fs.foldlM (fun acc f => addNote acc f.1 f.2) notes
  | _ => return notes

def pages (name : String) (ast ai : Value) : Loose (List (String × Value)) := do
  let first ← ast.get name
  match first, ← ai.get name with
  | .list xs, .list ys => return [(name, .list (← distinctTexts (xs ++ ys)))]
  | .list xs, _ => return [(name, .list xs)]
  | .record _, .list _ => throw (.noOperation "dict" "extend")
  | .record fs, _ => return [(name, .record fs)]
  | _, .list ys => return [(name, .list (← distinctTexts ys))]
  | _, _ => return []

def schemas (ast ai : Value) : Loose Value := do
  let groups ← languages.mapM fun l => do return (l, ← sums ast ai l)
  let classes ← groups.mapM fun (l, cs) => do
    return (l, Value.list (← cs.mapM fun c => c.toEntry (l == "csharp")))
  let known := (groups.flatMap (·.2)).map (·.name)
  let rs ← relations known ast ai
  let notes ← addNotes (← addNotes [] ast) ai
  return .ofFields (classes ++ [
    ("relations", .list rs),
    ("endpoints", ← itemsOf ItemKey.ofEndpoint ["endpoints"] ast ai),
    ("usecases", ← itemsOf ItemKey.ofUseCase ["usecases"] ast ai),
    ("sequence_flows", ← itemsOf ItemKey.ofFlow ["sequence_flows", "sequenceFlows"] ast ai),
    ("activity", ← itemsOf ItemKey.ofStep ["activity", "activity_flows"] ast ai),
    ("states", ← itemsOf ItemKey.ofStates ["states"] ast ai),
    ("patterns", ← itemsOf (ItemKey.ofGroup "type") ["patterns"] ast ai),
    ("layers", ← itemsOf (ItemKey.ofGroup "name") ["layers"] ast ai),
    ("meta", .record notes)] ++ (← pages "html" ast ai) ++ (← pages "css" ast ai))

end Merge

end CodeAtlas
