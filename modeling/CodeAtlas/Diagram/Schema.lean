import CodeAtlas.Value.Access

/-!
# Analysis schemas as diagrams read them

A schema is a loosely typed record: a list of classes for each language, relations, endpoints and more. The
functions here gather from it what several diagrams need, and end in a fault where a part of the schema is not
of the form that they need.

* `Identifier.ofValue`: the identifier of a name;
* `Schema.check`, `Schema.statistics`.
-/

namespace CodeAtlas

namespace Identifier

def plain (s : String) : String := String.ofList (s.toList.map fun c => if isAlnum c then c else '_')

def part (item : Value) : Loose String := do
  let s ← item.textFor "isalnum"
  return if s != "" && s.toList.all isAlnum then s else "_"

def ofValue (v : Value) : Loose String := do
  return Text.join "" (← (← v.items).mapM part)

def marked (mark : String) (fallback : String) (v : Value) : Loose String := do
  return mark ++ "_" ++ (← ofValue (v.orText fallback))

end Identifier

namespace Label

def openRuns (inRun : Bool) : List Char → List Char
  | [] => []
  | c :: cs =>
    if c == '_' || c == '-' then if inRun then openRuns true cs else ' ' :: openRuns true cs
    else c :: openRuns false cs

def openCapitals (cs : List Char) : List Char :=
  cs.flatMap fun c => if isAsciiUpper c then [' ', c] else [c]

def openInnerCapitals : List Char → List Char
  | [] => []
  | c :: cs => c :: openCapitals cs

def spaced (s : String) : String :=
  let words := Text.title (String.ofList (Chars.trim (openInnerCapitals (openRuns false s.toList))))
  if words == "" then "Item" else words

def ofValue (v : Value) : String := if v.truthy then spaced v.display else "Item"

end Label

namespace Schema

def languages : List String := ["python", "java", "csharp", "javascript", "typescript", "cpp", "c"]

def namedIn (entries : Value) : Loose (List (Atom × Value)) :=
  match entries with
  | .list es => do
    let found ← es.mapM fun e => do
      if !e.isRecord then return none
      let name ← e.get "class"
      if name.truthy then return some (← name.key, e) else return none
    return found.filterMap id
  | _ => return []

def firstNamed (seen : List Atom) : List (Atom × Value) → List Value
  | [] => []
  | (n, e) :: rest => if n.isIn seen then firstNamed seen rest else e :: firstNamed (n :: seen) rest

def classes (schema : Value) : Loose (List Value) := do
  let lists ← (languages ++ ["classes"]).mapM fun l => do namedIn (← schema.get l)
  return firstNamed [] lists.flatten

/-! ### Names by relations -/

def tally (name : String) : List (String × Nat) → List (String × Nat)
  | [] => [(name, 1)]
  | (n, k) :: rest => if n == name then (n, k + 1) :: rest else (n, k) :: tally name rest

def mentions (relations : Value) : Loose (List String) := do
  let found ← (← (relations.orElse (.list [])).items).mapM fun r => do
    if !r.isRecord then return []
    let ends := [← r.get "from", ← r.get "to"]
    return (ends.filter Value.truthy).map Value.display
  return found.flatten

def busiest (relations : Value) (limit : Nat) : Loose (List String) := do
  let counts := (← mentions relations).foldl (fun t n => tally n t) []
  return ((counts.mergeSort fun a b => decide (b.2 ≤ a.2)).map (·.1)).take limit

/-! ### Use cases -/

structure UseCaseNote where
  label : String
  system : Value

def UseCaseNote.toValue (u : UseCaseNote) : Value :=
  .ofFields [("label", .text u.label), ("system", u.system)]

def pick (names : List String) (classes : List Value) : Loose (List Value) := do
  let named ← classes.mapM fun c => do return (← c.get "class", c)
  return names.filterMap fun n => (named.find? fun p => p.1.isText n).map (·.2)

def useCaseOfClass (cls : Value) : Loose UseCaseNote := do
  let name ← cls.get "class"
  let methods ← cls.firstOf ["methods"] (.list [])
  let label ←
    if methods.truthy then do
      let primary := (Text.splitOn (← methods.first).display "(").headD ""
      pure (Label.ofValue name ++ ": " ++ Label.ofValue (.text primary))
    else pure ("Use " ++ Label.ofValue name)
  return ⟨label, ← cls.firstOf ["package", "namespace"] (.text "System")⟩

def useCaseOfEndpoint (endpoint : Value) : Loose UseCaseNote := do
  let method ← endpoint.getD "method" (.text "GET")
  let path ← endpoint.getD "path" (.text "/")
  let label := Text.trim ((← method.upper) ++ " " ++ path.display)
  return ⟨label, ← endpoint.firstOf ["controller", "class"] (.text "API")⟩

def useCases (schema : Value) (limit : Nat) : Loose (List UseCaseNote) := do
  let all ← classes schema
  let relations ← schema.firstOf ["relations"] (.list [])
  let selected ← pick (← busiest relations (limit * 2)) all
  let chosen := if selected.isEmpty then all.take limit else selected
  let derived ← chosen.mapM useCaseOfClass
  let derived ←
    if derived.isEmpty then
      match ← schema.get "endpoints" with
      | .list es => (es.take limit).mapM useCaseOfEndpoint
      | _ => pure []
    else pure derived
  let derived := if derived.isEmpty then [⟨"Interact With System", .text "System"⟩] else derived
  return derived.take limit

/-! ### State -/

def sameLetter (p c : Char) : Bool := lowerChar c == [p] || (p == 's' && c.toNat == 0x17F)

def startsWithWord : List Char → List Char → Bool
  | [], _ => true
  | _ :: _, [] => false
  | p :: ps, c :: cs => sameLetter p c && startsWithWord ps cs

def holdsWord (word : List Char) : List Char → Bool
  | [] => word.isEmpty
  | c :: cs => startsWithWord word (c :: cs) || holdsWord word cs

def stateWords : List String := ["state", "status", "phase", "mode"]

def tellsState (field : Value) : Bool :=
  stateWords.any fun w => holdsWord w.toList field.display.toList

def stateful (classes : List Value) : Loose (List Value) :=
  classes.filterM fun c => do
    return (← (← c.firstOf ["fields"] (.list [])).items).any tellsState

/-! ### Relations in words -/

def relationWords (relation : Value) : Loose String := do
  let kind ← relation.firstOf ["type"] (.text "interacts")
  return Text.title (Text.replace (← kind.textFor "replace") "_" " ")

/-! ### Checking -/

inductive Defect where
  | empty
  | notRecord
  | nothingListed
  deriving DecidableEq

def Defect.message : Defect → String
  | .empty => "Schema is empty"
  | .notRecord => "Schema must be a dictionary"
  | .nothingListed => "Schema must contain at least classes, relations, or endpoints"

def lists (fields : Record) (key : String) : Bool :=
  match Record.get? (.text key) fields with
  | some (.list (_ :: _)) => true
  | _ => false

def check (schema : Value) : Option Defect :=
  if !schema.truthy then some .empty
  else match schema with
    | .record fs =>
      if (languages ++ ["relations", "endpoints"]).any (lists fs) then none else some .nothingListed
    | _ => some .notRecord

def statistics (schema : Value) : Loose Value := do
  let relations ← (← schema.getD "relations" (.list [])).length
  let endpoints ← (← schema.getD "endpoints" (.list [])).length
  let counts ← languages.mapM fun l => do
    let cs ← schema.getD l (.list [])
    if cs.truthy then return some (l, ← cs.length) else return none
  let counts := counts.filterMap id
  return .ofFields [
    ("total_classes", .nat ((counts.map (·.2)).foldl (· + ·) 0)),
    ("total_relations", .nat relations),
    ("total_endpoints", .nat endpoints),
    ("languages", .texts (counts.map (·.1)))]

end Schema

end CodeAtlas
