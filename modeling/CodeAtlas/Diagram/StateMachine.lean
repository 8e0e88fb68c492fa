import CodeAtlas.Diagram.Line
import CodeAtlas.Diagram.Schema

/-!
# State machine diagrams

A state machine diagram shows the states that a schema lists, or else the usual life of its stateful classes,
or else of its first classes.
-/

namespace CodeAtlas.StateMachine

def machineLimit : Nat := 10

def classLimit : Nat := 4

def nameAndLabel (state : Value) : Loose (String × String) :=
  match state with
  | .atom (.text s) => return (s, s)
  | v => do
    let name ← v.getD "name" (.text "State")
    return (name.display, (← v.getD "label" name).display)

def stateLine (state : Value) : Loose Line := do
  let (name, label) ← nameAndLabel state
  let identifier := if name == "" then "State" else Identifier.plain name
  return .inner (.declares .state identifier (" : " ++ label))

def stateLines (states : Value) : Loose (List Line) :=
  match states with
  | .list (s :: rest) => do
    let (first, _) ← nameAndLabel s
    return .inner (.joins "[*]" " --> " (Identifier.plain first) "") :: (← (s :: rest).mapM stateLine)
  | _ => return []

def transitionLine (transition : Value) : Loose Line := do
  let source ← transition.getD "from" (.text "State")
  let target ← transition.getD "to" (.text "State")
  let trigger ← transition.firstOf ["trigger", "event"] .null
  return .inner (.joins (Identifier.plain source.display) " --> " (Identifier.plain target.display)
    (if trigger.truthy then " : " ++ trigger.display else ""))

def transitionLines (transitions : Value) : Loose (List Line) :=
  match transitions with
  | .list ts => (ts.filter Value.isRecord).mapM transitionLine
  | _ => return []

def openLine (context : Value) : Loose Line := do
  return .plain ("state \"" ++ context.display ++ "\" as " ++ (← Identifier.ofValue context) ++ " \x7b")

def machineLines (machine : Value) : Loose (List Line) := do
  let opened ← openLine (← machine.firstOf ["context", "class"] (.text "Component"))
  let states ← stateLines (← machine.firstOf ["states", "state_fields"] (.list []))
  let transitions ← transitionLines (← machine.firstOf ["transitions"] (.list []))
  return [opened] ++ states ++ transitions ++ [.plain "\x7d"]

def statefulLife : List Line :=
  [.inner (.joins "[*]" " --> " "Initialized" ""), .inner (.joins "Initialized" " --> " "Active" " : setState()"),
    .inner (.joins "Active" " --> " "Suspended" " : pause()"),
    .inner (.joins "Suspended" " --> " "Active" " : resume()"),
    .inner (.joins "Active" " --> " "Completed" " : complete()"), .inner (.joins "Completed" " --> " "[*]" ""),
    .plain "\x7d"]

def plainLife : List Line :=
  [.inner (.joins "[*]" " --> " "Created" ""), .inner (.joins "Created" " --> " "Active" " : initialize()"),
    .inner (.joins "Active" " --> " "Completed" " : finalize()"),
    .inner (.joins "Completed" " --> " "Archived" " : archive()"), .inner (.joins "Archived" " --> " "[*]" ""),
    .plain "\x7d"]

def classLines (life : List Line) (cls : Value) : Loose (List Line) := do
  return (← openLine (← cls.getD "class" (.text "Component"))) :: life

def ofClasses (schema : Value) : Loose (List Line) := do
  let classes ← Schema.classes schema
  let stateful ← Schema.stateful classes
  if !stateful.isEmpty then
    return (← (stateful.take classLimit).mapM (classLines statefulLife)).flatten
  else if !classes.isEmpty then
    return (← (classes.take classLimit).mapM (classLines plainLife)).flatten
  else return [.joins "Initial" " --> " "Processing" "", .joins "Processing" " --> " "Complete" "",
    .joins "Complete" " --> " "[*]" ""]

def lines (style : Style) (schema : Value) : Loose (List Line) := do
  let body ← match ← schema.getD "states" (.list []) with
    | .list (s :: rest) => do
      pure (← (((s :: rest).take machineLimit).filter Value.isRecord).mapM machineLines).flatten
    | _ => ofClasses schema
  return style.opening ++ [.plain "' State Machine Diagram", .empty, .joins "[*]" " --> " "Initial" ""] ++
    body ++ [.close]

end CodeAtlas.StateMachine
