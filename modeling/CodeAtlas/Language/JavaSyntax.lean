import CodeAtlas.Model.Identifier

/-!
# Trees of Java programs

`Node` keeps the declarations whose members count, the statements that hold an expression, and the
expressions that may name a member; all else is only the list of its parts. Types are kept by the first part
of their name.

`Node.visits` gives all parts of a tree, each before its own parts, with the class and the interface that
surround it most closely.

Programs are read by a tool of its own. `Parser` binds one such tool, and all that is said about classes of Java
programs is said for any of them.
-/

namespace CodeAtlas.Java

inductive Node where
  | classDecl (modifiers : List String) (marks : List Node) (name : Identifier) (body : List Node)
      (base : Option String) (interfaces : List String)
  | interfaceDecl (marks : List Node) (name : Identifier) (body : List Node) (bases : List String)
  /-- An enumeration or a type of annotations, which is no class and no interface here. -/
  | otherType (name : String) (parts : List Node)
  | method (modifiers : List String) (marks : List Node) (name : String) (params : List String)
      (body : List Node)
  | field (marks : List Node) (type : String) (names : List String) (values : List Node)
  | statement (expression : Option Node) (rest : List Node)
  | primary (qualifier member : Option String) (selectors rest : List Node)
  | other (parts : List Node)

namespace Node

def withSelectors (sels : List Node) : Node → Node
  | primary q m _ rest => primary q m sels rest
  | n => n

/-- A part of a tree with the class and the interface that surround it most closely. -/
structure Visit where
  cls : Option String
  interface : Option String
  node : Node

mutual

def visits (cls interface : Option String) (n : Node) : List Visit :=
  ⟨cls, interface, n⟩ ::
    match n with
    | classDecl _ marks name body _ _ =>
      visitsAll (some name.text) interface marks ++ visitsAll (some name.text) interface body
    | interfaceDecl marks name body _ =>
      visitsAll cls (some name.text) marks ++ visitsAll cls (some name.text) body
    | otherType _ parts => visitsAll cls interface parts
    | method _ marks _ _ body => visitsAll cls interface marks ++ visitsAll cls interface body
    | field marks _ _ values => visitsAll cls interface marks ++ visitsAll cls interface values
    | statement e rest => visitsOption cls interface e ++ visitsAll cls interface rest
    | primary _ _ selectors rest => visitsAll cls interface selectors ++ visitsAll cls interface rest
    | other parts => visitsAll cls interface parts

def visitsOption (cls interface : Option String) : Option Node → List Visit
  | none => []
  | some n => visits cls interface n

def visitsAll (cls interface : Option String) : List Node → List Visit
  | [] => []
  | n :: ns => visits cls interface n ++ visitsAll cls interface ns

end

end Node

structure SourceFile where
  package : Option String
  imports : List String
  types : List Node

def SourceFile.visits (u : SourceFile) : List Node.Visit := Node.visitsAll none none u.types

/-- A reader of programs; a text that is no program gives nothing. -/
class Parser where
  parse : String → Option SourceFile

end CodeAtlas.Java
