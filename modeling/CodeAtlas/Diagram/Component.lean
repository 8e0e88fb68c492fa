import CodeAtlas.Diagram.Line
import CodeAtlas.Diagram.Schema
import CodeAtlas.Relations.Register

/-!
# Component diagrams

A component diagram shows classes by package with the relations between them, or else the controllers behind
the endpoints of a schema, or else the parts of any system.
-/

namespace CodeAtlas.Component

def packageLimit : Nat := 5

def relationLimit : Nat := 10

def controllerLimit : Nat := 3

abbrev Packages := List (Atom × List Value)

def Packages.put (package : Atom) (cls : Value) : Packages → Packages
  | [] => [(package, [cls])]
  | (p, cs) :: rest =>
    if p.same package then (p, cs ++ [cls]) :: rest else (p, cs) :: Packages.put package cls rest

def packageOf (cls : Value) : Loose Atom := do (← cls.firstOf ["package", "namespace"] (.text "Default")).key

def packages (classes : List Value) : Loose Packages :=
  classes.foldlM (fun ps c => do return Packages.put (← packageOf c) c ps) []

def nameOf (cls : Value) : Loose String := do return (← cls.getD "class" (.text "Component")).display

def packageLines (package : Atom × List Value) : Loose (List Line) := do
  match package.2 with
  | _ :: _ :: _ =>
    let names ← (package.2.take packageLimit).mapM nameOf
    return [.plain ("package \"" ++ package.1.display ++ "\" \x7b")] ++
      names.map (fun n => .inner (.declares .component n "")) ++ [.plain "\x7d"]
  | classes => return (← classes.mapM nameOf).map fun n => .declares .component n ""

def relationLine? (relation : Value) : Loose (Option Line) := do
  let source ← relation.get "from"
  let target ← relation.get "to"
  if source.truthy && target.truthy then
    let kind ← relation.getD "type" (.text "uses")
    return some (.joins source.display " --> " target.display (" : " ++ kind.display))
  else return none

def ofClasses (classes : List Value) (relations : Value) : Loose (List Line) := do
  let drawn ← (← packages classes).mapM packageLines
  let lines ← (← (← relations.takeFirst relationLimit).items).mapM relationLine?
  return drawn.flatten ++ [.empty] ++ lines.filterMap id

def ofEndpoints (style : Style) (endpoints : Value) : Loose (List Line) := do
  let found ← (← endpoints.items).mapM fun e => do
    (← e.firstOf ["controller", "class"] (.text "API")).key
  let names := (style.setOrder.order (Register.atomSet found)).map Atom.display
  return names.map (fun n => .declares .component n "") ++
    [.empty, .declares .component "Database" "", .empty] ++
    (names.take controllerLimit).map fun n => .joins n " --> " "Database" " : queries"

def plainParts : List Line :=
  [.declares .component "Frontend" "", .declares .component "API" "", .declares .component "AuthService" "",
    .declares .component "Database" "", .empty, .joins "Frontend" " --> " "API" " : HTTP",
    .joins "API" " --> " "AuthService" " : Auth", .joins "API" " --> " "Database" " : queries"]

def lines (style : Style) (schema : Value) : Loose (List Line) := do
  let classes ← Schema.classes schema
  let relations ← schema.firstOf ["relations"] (.list [])
  let endpoints ← schema.firstOf ["endpoints"] (.list [])
  let body ←
    if !classes.isEmpty then ofClasses classes relations
    else if endpoints.truthy then ofEndpoints style endpoints
    else pure plainParts
  return style.opening ++ [.plain "' Component Diagram", .empty] ++ body ++ [.close]

end CodeAtlas.Component
