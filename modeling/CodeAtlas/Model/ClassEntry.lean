import CodeAtlas.Text.Search
import CodeAtlas.Value.Basic

/-!
# Languages, classes, relations and endpoints

What the analysis of source text in one of the languages finds: `ClassEntry` for a class or interface, `Relation` for
a relation between two of them, `Endpoint` for an address that a program serves. Each has a form as a value of the
schema.
-/

namespace CodeAtlas

inductive Language where
  | python
  | java
  | csharp
  | typescript
  | cpp
  deriving DecidableEq, Inhabited

namespace Language

def all : List Language := [python, java, csharp, typescript, cpp]

def name : Language → String
  | python => "python"
  | java => "java"
  | csharp => "csharp"
  | typescript => "typescript"
  | cpp => "cpp"

def ofName? (s : String) : Option Language := all.find? (·.name == s)

def extensions : List (String × Language) :=
  [(".py", python), (".java", java), (".cs", csharp), (".ts", typescript), (".tsx", typescript),
    (".js", typescript), (".jsx", typescript), (".cpp", cpp), (".cc", cpp), (".cxx", cpp), (".c", cpp),
    (".h", cpp), (".hpp", cpp)]

def ofExtension? (e : String) : Option Language := (extensions.find? (·.1 == e)).map (·.2)

def ownExtensions (l : Language) : List String := (extensions.filter (·.2 == l)).map (·.1)

end Language

inductive Stereotype where
  | concrete
  | abstract
  | interface
  deriving DecidableEq

def Stereotype.name : Stereotype → String
  | concrete => "class"
  | abstract => "abstract"
  | interface => "interface"

structure ClassEntry where
  name : String
  fields : List String := []
  methods : List String := []
  stereotype : Stereotype := .concrete
  isAbstract : Bool := false
  package : String := ""

def hasField (fields : List String) (name : String) : Bool :=
  fields.any fun f => Text.startsWith f (name ++ ":") || f == name

def addMissing (fields names : List String) : List String :=
  names.foldl (fun fs n => if hasField fs n then fs else fs ++ [n]) fields

def ClassEntry.toValue (c : ClassEntry) : Value :=
  .ofFields [("class", .text c.name), ("fields", .texts c.fields), ("methods", .texts c.methods),
    ("stereotype", .text c.stereotype.name), ("abstract", .bool c.isAbstract), ("package", .text c.package)]

/-- A relation between two classes. Its source is how it was found. -/
structure Relation where
  fromClass : String
  toClass : String
  kind : String
  source : Option String := some "heuristic"
  deriving DecidableEq

def Relation.toValue (r : Relation) : Value :=
  .ofFields ([("from", .text r.fromClass), ("to", .text r.toClass), ("type", .text r.kind)] ++
    (r.source.map fun s => ("source", Value.text s)).toList)

def Relation.sameEnds (r s : Relation) : Bool :=
  r.fromClass == s.fromClass && r.toClass == s.toClass && r.kind == s.kind

def Relation.distinctFrom (seen : List Relation) : List Relation → List Relation
  | [] => []
  | r :: rs => if seen.any r.sameEnds then distinctFrom seen rs else r :: distinctFrom (r :: seen) rs

def Relation.distinct (rs : List Relation) : List Relation := distinctFrom [] rs

structure Endpoint where
  path : String
  methods : List String
  framework : String

def Endpoint.toValue (e : Endpoint) : Value :=
  .ofFields [("path", .text e.path), ("methods", .texts e.methods), ("framework", .text e.framework)]

end CodeAtlas
