import CodeAtlas.Diagram.Line
import CodeAtlas.Diagram.Schema

/-!
# Activity diagrams

An activity diagram shows the steps that a schema lists, or else the first methods of its first classes.
-/

namespace CodeAtlas.Activity

def activityLimit : Nat := 30

def nextLimit : Nat := 5

def methodLimit : Nat := 10

def listed (schema : Value) : Loose (List Value) := do
  let found ← ["activity", "activity_flows"].mapM fun k => do
    match ← schema.get k with
    | .list xs => return xs.filter Value.isRecord
    | _ => return []
  return found.flatten

def label (step role cls : Value) : Loose String := do
  if !role.truthy && !cls.truthy then return step.display
  let s ← step.asText
  return s ++ (if role.truthy then "\\n(" ++ role.display ++ ")" else "") ++
    (if cls.truthy then "\\nin " ++ cls.display else "")

def nextLines (step : Value) (activity : Value) : Loose (List Line) := do
  match ← activity.get "next" with
  | .list ns =>
    let guard ← activity.firstOf ["condition", "trigger"] .null
    let suffix := if guard.truthy then " : " ++ guard.display else ""
    return (ns.take nextLimit).map fun n =>
      .joins (":" ++ step.display ++ ";") " --> " (":" ++ n.display ++ ";") suffix
  | _ => return []

def activityLines (seen : List Atom) : List Value → Loose (List Line)
  | [] => return []
  | a :: as => do
    let step ← a.firstOf ["step", "name"] (.text "Activity")
    let text ← label step (← a.get "role") (← a.get "class")
    let key ← step.key
    let own := if key.isIn seen then [] else [.plain (":" ++ text ++ ";")]
    let next ← nextLines step a
    return own ++ next ++ (← activityLines (key :: seen) as)

def methodsOf (schema : Value) (lang : String) : Loose (List Value) := do
  let classes ← (← (← schema.getD lang (.list [])).takeFirst 3).items
  let methods ← classes.mapM fun c => do (← (← c.getD "methods" (.list [])).takeFirst 3).items
  return methods.flatten

def methodLines (schema : Value) : Loose (List Line) := do
  let methods ← ["python", "java", "csharp", "javascript", "typescript"].mapM (methodsOf schema)
  (methods.flatten.take methodLimit).mapM fun m => do
    return .plain (":" ++ Text.trim ((Text.splitOn (← m.textFor "split") "(").headD "") ++ ";")

def lines (style : Style) (schema : Value) : Loose (List Line) := do
  let activities ← listed schema
  let body ←
    if activities.isEmpty then methodLines schema else activityLines [] (activities.take activityLimit)
  return style.opening ++ [.plain "' Activity Diagram", .empty, .plain "start"] ++ body ++ [.plain "stop", .close]

end CodeAtlas.Activity
