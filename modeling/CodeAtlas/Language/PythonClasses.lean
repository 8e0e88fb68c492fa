import CodeAtlas.Language.PythonProgram
import CodeAtlas.Model.Findings

/-!
# Classes of Python programs

`classes` reads a source text and gives the classes it defines, together with the findings after it. A text
that is no program has no classes and leaves the findings as they were.

A class has as fields what is assigned or declared in its body and what its methods assign to `self`; it
holds the known classes that its methods call, and it uses those that its methods name.
-/

namespace CodeAtlas.Python

def firstPart (s : String) : String := String.ofList (s.toList.takeWhile (· != '.'))

def importsOf : Node → List String
  | .importStmt ms => ms.map firstPart
  | .importFrom (some m) => [firstPart m]
  | _ => []

def baseName? : Node → Option String
  | .name n => some n
  | .member (.name m) a => some (m ++ "." ++ a)
  | .member _ a => some a
  | _ => none

def typeName : Node → String
  | .name n => n
  | .member (.name m) a => m ++ "." ++ a
  | .member _ a => a
  | .subscript v _ => typeName v
  | _ => "Any"

def typedField (name : String) (hint : Node) : String := name ++ ": " ++ typeName hint

def bodyField? : Node → Option String
  | .name n => some n
  | _ => none

def selfField? : Node → Option String
  | .member (.name "self") a => some a
  | _ => none

def fieldsSet (field? : Node → Option String) : Node → List String
  | .annAssign t hint _ => ((field? t).map fun a => typedField a hint).toList
  | .assign ts _ => ts.filterMap field?
  | _ => []

def called? (counts : String → Bool) : Node → Option String
  | .call (.name f) _ _ => if counts f then some f else none
  | _ => none

def named? (counts : String → Bool) : Node → Option String
  | .name n => if counts n then some n else none
  | _ => none

def methodName? : Node → Option String
  | .functionDef false n _ _ _ _ => some n
  | _ => none

def isAbstractMethod : Node → Bool
  | .functionDef false _ _ _ ds _ => ds.any fun
    | .name "abstractmethod" => true
    | _ => false
  | _ => false

def isAbstractBase : Node → Bool
  | .name n => n == "ABC" || n == "ABCMeta"
  | _ => false

def classEntry (package : String) (f : Findings) (name : String) (bases body : List Node) :
    ClassEntry × Findings :=
  let f := (bases.filterMap baseName?).foldl (fun f b => f.addRelation b name "extends") f
  let counts := fun n => f.knows n && n != name
  let parts := (body.filter fun s => (methodName? s).isSome).flatMap Node.walk
  let f := (parts.filterMap (named? counts)).foldl (fun f n => f.addUsage name n) f
  let held := Text.ascendingSet (parts.filterMap (called? counts))
  let f := held.foldl (fun f n => f.addComposition name n) f
  let abstract := bases.any isAbstractBase || body.any isAbstractMethod
  ({ name
     fields := Text.ascendingSet (body.flatMap (fieldsSet bodyField?) ++ parts.flatMap (fieldsSet selfField?))
     methods := Text.ascendingSet (body.filterMap methodName?)
     stereotype := if abstract then .abstract else .concrete
     isAbstract := abstract
     package := if package == "" then "main" else package }, f)

def classReader? (package : String) : Node → Option (Findings → ClassEntry × Findings)
  | .classDef name bases _ body _ => some fun f =>
    let (c, f) := classEntry package f name.text bases body
    (c, f.addClass name.text)
  | _ => none

def classesOf (package : String) (f : Findings) (ns : List Node) : List ClassEntry × Findings :=
  Findings.readEach (classReader? package) ns f

def classesIn (tree : Node) (package : String) (f : Findings) : List ClassEntry × Findings :=
  let nodes := tree.walk
  classesOf package ((nodes.flatMap importsOf).foldl Findings.addImport f) nodes

def classes (source package : String) (f : Findings) : List ClassEntry × Findings :=
  match parse source with
  | none => ([], f)
  | some tree => classesIn tree package f

end CodeAtlas.Python
