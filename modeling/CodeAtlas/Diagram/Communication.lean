import CodeAtlas.Diagram.Line
import CodeAtlas.Diagram.Schema
import CodeAtlas.Relations.Register

/-!
# Communication diagrams

A communication diagram numbers the messages between participants: along the relations of a schema, or else
from class to class, or else between a client, an interface and a database.
-/

namespace CodeAtlas.Communication

def participantLimit : Nat := 8

def relationLimit : Nat := 15

def classLimit : Nat := 6

def ends (relation : Value) : Loose (List Atom) := do
  let source ← relation.get "from"
  let source ← if source.truthy then do pure [← source.key] else pure []
  let target ← relation.get "to"
  let target ← if target.truthy then do pure [← target.key] else pure []
  return source ++ target

def participants (style : Style) (relations : List Value) : Loose (List Atom) := do
  let found ← relations.mapM ends
  return (style.setOrder.order (Register.atomSet found.flatten)).take participantLimit

def takesPart (names : List Atom) (v : Value) : Bool := names.any fun a => (Value.atom a).same v

def messageLines (names : List Atom) (n : Nat) : List Value → Loose (List Line)
  | [] => return []
  | r :: rs => do
    let source ← r.get "from"
    let target ← r.get "to"
    if takesPart names source && takesPart names target then
      let words ← Schema.relationWords r
      let message := Line.joins source.display " -> " target.display (s!" : {n}. " ++ words)
      let response := Line.joins target.display " --> " source.display s!" : {n}. response"
      return message :: (if (n + 1) % 3 == 0 then [response] else []) ++ (← messageLines names (n + 1) rs)
    else messageLines names n rs

def ofRelations (style : Style) (relations : Value) : Loose (List Line) := do
  let names ← participants style (← relations.items)
  let messages ← messageLines names 1 (← (← relations.takeFirst relationLimit).items)
  return names.map (fun a => .declares .participant a.display "") ++ [.empty] ++ messages

def chainLines (n : Nat) : List String → List Line
  | a :: b :: rest =>
    .joins a " -> " b s!" : {n}. interacts" ::
      (if n % 2 == 0 then [.joins b " --> " a s!" : {n}. response"] else []) ++ chainLines (n + 1) (b :: rest)
  | _ => []

def ofClasses (classes : List Value) : Loose (List Line) := do
  let names ← (classes.take classLimit).mapM fun c => do return (← c.get "class").display
  return names.map (fun n => .declares .participant n "") ++ [.empty] ++ chainLines 1 names

def plainExchange : List Line :=
  [.declares .participant "Client" "", .declares .participant "API" "", .declares .participant "Database" "", .empty,
    .joins "Client" " -> " "API" " : 1. call endpoint", .joins "API" " -> " "Database" " : 2. query",
    .joins "Database" " --> " "API" " : 3. result", .joins "API" " --> " "Client" " : 4. response"]

def lines (style : Style) (schema : Value) : Loose (List Line) := do
  let relations ← schema.firstOf ["relations"] (.list [])
  let classes ← Schema.classes schema
  let body ←
    if relations.truthy then ofRelations style relations
    else if !classes.isEmpty then ofClasses classes
    else pure plainExchange
  return style.opening ++ [.plain "' Communication Diagram", .empty] ++ body ++ [.close]

end CodeAtlas.Communication
