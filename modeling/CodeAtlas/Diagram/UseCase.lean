import CodeAtlas.Diagram.Line
import CodeAtlas.Diagram.Schema

/-!
# Use case diagrams

A use case diagram shows what actors do with the system: the use cases that a schema lists, or else its
endpoints, or else use cases made up from its classes.

Use cases that are only included or extended by others are declared where they are first mentioned, one line
above the line that was written last.
-/

namespace CodeAtlas.UseCaseDiagram

def listedLimit : Nat := 30

def endpointLimit : Nat := 20

def derivedLimit : Nat := 8

/-- Identifiers by label, in order of first mention. -/
abbrev Names := List (Atom × String)

def Names.find? (names : Names) (label : Atom) : Option String :=
  (List.find? (fun n : Atom × String => n.1.same label) names).map (·.2)

def Names.add (names : Names) (label : Atom) (identifier : String) : Names :=
  if (Names.find? names label).isSome then names else names ++ [(label, identifier)]

def actorId (v : Value) : Loose String := Identifier.marked "ACT" "UseCase" v

def caseId (v : Value) : Loose String := Identifier.marked "UC" "UseCase" v

def actorOf (useCase : Value) : Loose Value := useCase.firstOf ["actor"] (.text "User")

def labelOf (useCase : Value) : Loose Value := useCase.firstOf ["name", "action", "goal"] (.text "Use Case")

def listed (useCase : Value) (key : String) : Loose (List Value) := do
  (← useCase.firstOf [key] (.list [])).items

def addActor (names : Names) (actor : Value) : Loose Names := do
  let identifier ← actorId actor
  return names.add (← actor.key) identifier

structure Declared where
  actors : Names := []
  cases : Names := []

def declare (d : Declared) (useCase : Value) : Loose Declared := do
  let actors ← addActor d.actors (← actorOf useCase)
  let actors ← (← listed useCase "supportingActors").foldlM addActor actors
  let label ← labelOf useCase
  let identifier ← caseId label
  return ⟨actors, d.cases.add (← label.key) identifier⟩

def caseLine (identifier label : String) : Line := .inner (.declares .useCase identifier (" as \"" ++ label ++ "\""))

def systemName (schema : Value) : Loose String := do
  return (← (← schema.getD "meta" (.record [])).firstOf ["system"] (.text "System")).display

structure Draft where
  lines : List Line
  cases : Names

namespace Draft

def add (d : Draft) (line : Line) : Draft := { d with lines := d.lines ++ [line] }

def addAboveLast (d : Draft) (line : Line) : Draft :=
  { d with lines := d.lines.dropLast ++ [line] ++ d.lines.drop (d.lines.length - 1) }

def refer (d : Draft) (label : Value) : Loose (String × Draft) := do
  let key ← label.key
  match d.cases.find? key with
  | some identifier => return (identifier, d)
  | none =>
    let identifier ← caseId label
    let d := d.addAboveLast (caseLine identifier label.display)
    return (identifier, { d with cases := d.cases.add key identifier })

def link (source word : String) (d : Draft) (label : Value) : Loose Draft := do
  let (target, d) ← d.refer label
  return d.add (.joins source " ..> " target (" : <<" ++ word ++ ">>"))

def addCase (actors : Names) (d : Draft) (useCase : Value) : Loose Draft := do
  let source := (d.cases.find? (← (← labelOf useCase).key)).getD ""
  let taking := (← actorOf useCase) :: (← listed useCase "supportingActors")
  let ids := (← taking.mapM Value.key).filterMap actors.find?
  let d := ids.foldl (fun d a => d.add (.joins a " --> " source "")) d
  let d ← (← listed useCase "includes").foldlM (link source "include") d
  (← listed useCase "extends").foldlM (link source "extends") d

end Draft

def ofListed (start : List Line) (schema : Value) (useCases : List Value) : Loose (List Line) := do
  let d ← useCases.foldlM declare {}
  let system ← systemName schema
  let lines := start ++ d.actors.map (fun n => .declares .actor n.2 (" as \"" ++ n.1.display ++ "\"")) ++
    [.empty, .plain ("rectangle \"" ++ system ++ "\" \x7b")] ++ d.cases.map (fun n => caseLine n.2 n.1.display) ++
    [.plain "\x7d"]
  return (← useCases.foldlM (Draft.addCase d.actors) ⟨lines, d.cases⟩).lines

def action (endpoint : Value) : Loose String := do
  let method ← endpoint.getD "method" (.text "GET")
  let path ← endpoint.getD "path" (.text "/")
  return Text.trim (method.display ++ " " ++ path.display)

def ofEndpoints (endpoints : List Value) : Loose (List Line) := do
  let actions ← endpoints.mapM action
  return [.declares .actor "User" "", .empty] ++ actions.eraseDups.flatMap fun a =>
    [.declares .action a ")", .joins "User" " --> (" a ")"]

def ofDerived (schema : Value) : Loose (List Line) := do
  let derived ← Schema.useCases schema derivedLimit
  let system ← systemName schema
  let cases := derived.zipIdx.flatMap fun (u, i) =>
    [caseLine (s!"UC_{i}") u.label, .inner (.joins "User" " --> " (s!"UC_{i}") "")]
  return [.declares .actor "User" "", .empty, .plain ("rectangle \"" ++ system ++ "\" \x7b")] ++ cases ++
    [.plain "\x7d"]

def lines (style : Style) (schema : Value) : Loose (List Line) := do
  let start := style.opening ++ [.plain "left to right direction", .plain "' Use Case Diagram", .empty]
  let useCases ← schema.firstOf ["usecases"] (.list [])
  let endpoints ← schema.firstOf ["endpoints"] (.list [])
  let lines ←
    if useCases.truthy then do
      ofListed start schema (← (← useCases.takeFirst listedLimit).items)
    else if endpoints.truthy then do
      pure (start ++ (← ofEndpoints (← (← endpoints.takeFirst endpointLimit).items)))
    else do
      pure (start ++ (← ofDerived schema))
  return lines ++ [.close]

end CodeAtlas.UseCaseDiagram
