import CodeAtlas.Diagram.Line
import CodeAtlas.Diagram.Schema

/-!
# Sequence diagrams

A sequence diagram shows who calls whom: the flows that a schema lists, or else calls of its endpoints, or
else a request to the system.
-/

namespace CodeAtlas.Sequence

def flowLimit : Nat := 25

def endpointLimit : Nat := 20

structure Flow where
  source : Value
  target : Value
  message : Value
  response : Value
  note : Value
  kind : Value

namespace Flow

def ofValue (v : Value) : Loose Flow := do
  return {
    source := ← v.firstOf ["from", "initiator", "actor"] (.text "User")
    target := ← v.firstOf ["to", "receiver", "component"] (.text "System")
    message := ← v.firstOf ["message", "action"] (.text "interact")
    response := ← v.get "response"
    note := ← v.get "note"
    kind := ← v.firstOf ["type"] (.text "sync") }

end Flow

def flows (schema : Value) : Loose (List Value) := do
  let found ← ["sequence_flows", "sequenceFlows"].mapM fun k => do
    match ← schema.get k with
    | .list fs => return fs.filter Value.isRecord
    | _ => return []
  return found.flatten

def isActor (name : String) : Bool := ["user", "actor", "client"].contains (Text.lower name)

def identifier (name : String) : String :=
  (if isActor name then "ACT" else "P") ++ "_" ++ Identifier.plain name

def participant (label : Value) : Loose String := do
  let _ ← label.key
  label.textFor "lower"

def declaration (name : String) : Line :=
  .declares (if isActor name then .actor else .participant) (identifier name) (" as \"" ++ name ++ "\"")

def flowLines (flow : Flow) : Loose (List Line) := do
  let kind ← flow.kind.lower
  let source := identifier (← participant flow.source)
  let target := identifier (← participant flow.target)
  let arrow := if kind == "sync" || kind == "synchronous" then "->>" else "-)"
  let note := if flow.note.truthy then
    [Line.plain ("note over " ++ source ++ "," ++ target ++ ": " ++ flow.note.display)] else []
  let response := if flow.response.truthy then
    [Line.joins target "-->>" source (": " ++ flow.response.display)] else []
  return [.joins source arrow target (": " ++ flow.message.display)] ++ note ++ response ++ [.empty]

def ofFlows (fs : List Value) : Loose (List Line) := do
  let drawn ← (fs.take flowLimit).mapM Flow.ofValue
  let names ← drawn.mapM fun f => do return [← participant f.source, ← participant f.target]
  let messages ← drawn.mapM flowLines
  return names.flatten.eraseDups.map declaration ++ [.empty] ++ messages.flatten

def answerer (endpoint : Value) : Loose Value := do
  endpoint.getD "class" (← endpoint.getD "controller" (.text "Controller"))

def callLines (endpoint : Value) : Loose (List Line) := do
  let method ← endpoint.getD "method" (.text "GET")
  let path ← endpoint.getD "path" (.text "/")
  let name := (← answerer endpoint).display
  return [.joins "User" " -> " name (": " ++ method.display ++ " " ++ path.display), .plain ("activate " ++ name),
    .joins name " --> " "User" ": Response", .plain ("deactivate " ++ name), .empty]

def ofEndpoints (endpoints : Value) : Loose (List Line) := do
  let names ← (← endpoints.items).mapM fun e => do (← answerer e).key
  let ordered ← Atom.sorted (names.foldl (fun set a => a.insertInto set) [])
  let calls ← (← (← endpoints.takeFirst endpointLimit).items).mapM callLines
  return [.declares .actor "User" "", .empty] ++ ordered.map (fun a => .declares .participant a.display "") ++
    [.empty] ++ calls.flatten

def plainRequest : List Line :=
  [.declares .actor "User" "", .declares .participant "System" "", .joins "User" " -> " "System" ": Request",
    .joins "System" " --> " "User" ": Response", .empty]

def lines (style : Style) (schema : Value) : Loose (List Line) := do
  let fs ← flows schema
  let endpoints ← schema.getD "endpoints" (.list [])
  let body ←
    if !fs.isEmpty then ofFlows fs
    else if endpoints.truthy then ofEndpoints endpoints
    else pure plainRequest
  return style.opening ++ [.plain "' Sequence Diagram", .empty] ++ body ++ [.close]

end CodeAtlas.Sequence
