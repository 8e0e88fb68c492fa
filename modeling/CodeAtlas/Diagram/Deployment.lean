import CodeAtlas.Diagram.Line
import CodeAtlas.Diagram.Schema

/-!
# Deployment diagrams

A deployment diagram shows the machines that a system runs on: a web server in front of a database when the
schema has endpoints, an application server with its first classes, or else the machines of any system.
-/

namespace CodeAtlas.Deployment

def classLimit : Nat := 3

def node (name : String) (parts : List Line) : List Line :=
  [.plain ("node \"" ++ name ++ "\" \x7b")] ++ parts.map .inner ++ [.plain "\x7d", .empty]

def databaseNode : List Line := node "Database Server" [.declares .database "Database" ""]

def webServer : List Line :=
  node "Web Server" [.declares .component "API" ""] ++ databaseNode ++ [.joins "API" " --> " "Database" " : queries"]

def ofClasses (classes : List Value) : Loose (List Line) := do
  let names ← (classes.take classLimit).mapM fun c => do
    return (← c.getD "class" (.text "Component")).display
  return node "Application Server" (names.map fun n => .declares .component n "") ++ databaseNode ++
    names.map fun n => .joins n " --> " "Database" " : data access"

def plainMachines : List Line :=
  node "Client Machine" [.declares .artifact "App" ""] ++ node "Web Server" [.declares .component "Frontend" ""] ++
    node "API Server" [.declares .component "API" "", .declares .component "AuthService" ""] ++ databaseNode ++
    [.joins "App" " --> " "Frontend" " : HTTP", .joins "Frontend" " --> " "API" " : REST",
      .joins "API" " --> " "AuthService" " : Auth", .joins "API" " --> " "Database" " : queries"]

def lines (style : Style) (schema : Value) : Loose (List Line) := do
  let classes ← Schema.classes schema
  let endpoints ← schema.firstOf ["endpoints"] (.list [])
  let body ←
    if endpoints.truthy then pure webServer
    else if !classes.isEmpty then ofClasses classes
    else pure plainMachines
  return style.opening ++ [.plain "' Deployment Diagram", .empty] ++ body ++ [.close]

end CodeAtlas.Deployment
