import CodeAtlas.Language.Fragment
import CodeAtlas.Language.JavaProgram
import CodeAtlas.Model.Findings
import CodeAtlas.Text.Case

/-!
# Classes of Java programs

`classes` has a source text read and gives its classes and then its interfaces, with the findings after it. A
text that is no program has none and leaves the findings as they were. Which tool reads the text is a parameter.

Members belong to the class that surrounds them most closely, told by its name; those of an interface inside
a class therefore count for the class too. Beside the tree, the text of a class is searched for objects it
makes, calls and declares (`codeFindings`).
-/

namespace CodeAtlas.Java

/-! ### Searching the text of a class -/

section

open Pattern

def classPattern (name : String) : Pattern :=
  all [boundary, Pattern.word "class", blanks1, Pattern.word name, boundary]

def createdPattern : Pattern :=
  all [boundary, Pattern.word "this.", group 1 ident, blanks, char '=', blanks, Pattern.word "new", blanks1,
    group 2 ident, blanks, char '(']

def newPattern : Pattern := all [boundary, Pattern.word "new", blanks1, group 1 ident, blanks, char '(']

def callPattern : Pattern :=
  all [boundary, group 1 ident, blanks, char '.', blanks, ident, blanks, char '(']

def variablePattern : Pattern :=
  all [boundary, group 1 ident, blanks1, ident, blanks, one fun c => c == '=' || c == ';']

end

def classText? (source name : String) : Option (List Char) :=
  match (classPattern name).findFirst source.toList with
  | none => none
  | some m => Braces.body? m.last.rest

def plainTypes : List String :=
  ["int", "long", "float", "double", "boolean", "char", "byte", "short", "String", "void"]

def ownObjects : List String := ["this", "super"]

def createdFields (text : List Char) : List (String × String) :=
  (createdPattern.findAll text).map fun m => (m.text 1, m.text 2)

def usedNames (text : List Char) : List String :=
  (newPattern.findAll text).map (·.text 1) ++
  ((callPattern.findAll text).map (·.text 1)).filter (fun n => !ownObjects.contains n) ++
  ((variablePattern.findAll text).map (·.text 1)).filter fun n => !plainTypes.contains n

def codeFindings (source cls : String) (f : Findings) : List String × List String × Findings :=
  match classText? source cls with
  | none => ([], [], f)
  | some text =>
    let created := createdFields text
    let held := (created.map (·.2)).filter (· != cls)
    let f := held.foldl (fun f t => f.addComposition cls t) f
    let f := ((usedNames text).filter (· != cls)).foldl (fun f n => f.addUsage cls n) f
    (created.map fun c => c.1 ++ ": " ++ c.2, held, f)

/-! ### Members in the tree -/

def controllerWords : List String := ["Controller", "Main", "Game", "Maze", "Handler", "Manager"]

def isController (cls : String) : Bool := controllerWords.any fun w => Text.contains cls w

def stateWords : List String := ["state", "status", "mode"]

def holdsState (field : String) : Bool := stateWords.any fun w => Text.contains (Text.lower field) w

def fieldsOf (cls : String) (vs : List Node.Visit) : List (String × String) :=
  vs.flatMap fun v => match v.node with
    | .field _ type names _ => if v.cls == some cls then names.map fun n => (n, type) else []
    | _ => []

def memberOf? : Node → Option String
  | .statement (some (.primary _ m _ _)) _ => m
  | _ => none

def qualifierOf? : Node → Option (Option String)
  | .statement (some (.primary q _ _ _)) _ => some q
  | _ => none

def methodFindings (cls : String) (stateFields : List String) (modifiers : List String) (name : String)
    (params : List String) (body : List Node) (f : Findings) : Findings :=
  { f with
    useCases := f.useCases ++
      if modifiers.contains "public" && isController cls then [⟨name, cls⟩] else []
    transitions := f.transitions ++
      ((body.filterMap memberOf?).filter stateFields.contains).map fun m => ⟨cls, m, name⟩
    calls := f.calls ++ (body.filterMap qualifierOf?).map fun q => ⟨cls, q, name⟩
    usages := f.usages ++ params.map fun t => ⟨cls, t, "uses", none⟩ }

def methodsFindings (cls : String) (stateFields : List String) (vs : List Node.Visit) (f : Findings) :
    Findings :=
  vs.foldl (fun f v => match v.node with
    | .method modifiers _ name params body =>
      if v.cls == some cls then methodFindings cls stateFields modifiers name params body f else f
    | _ => f) f

def methodNames (p : Node.Visit → Bool) (vs : List Node.Visit) : List String :=
  Text.ascendingSet (vs.filterMap fun v => match v.node with
    | .method _ _ name _ _ => if p v then some name else none
    | _ => none)

/-! ### Classes and interfaces -/

def classEntry (source package : String) (vs : List Node.Visit) (modifiers : List String) (name : String)
    (base : Option String) (interfaces : List String) (f : Findings) : ClassEntry × Findings :=
  let f := base.toList.foldl (fun f b => f.addRelation b name "extends") f
  let f := interfaces.foldl (fun f i => f.addRelation i name "implements") f
  let fields := fieldsOf name vs
  let f := methodsFindings name ((fields.map (·.1)).filter holdsState) vs f
  let (created, _, f) := codeFindings source name f
  let abstract := modifiers.contains "abstract"
  ({ name
     fields := Text.ascendingSet (fields.map (fun d => d.1 ++ ": " ++ d.2) ++ created)
     methods := methodNames (·.cls == some name) vs
     stereotype := if abstract then .abstract else .concrete
     isAbstract := abstract
     package }, f)

def classReader? (source package : String) (vs : List Node.Visit) (v : Node.Visit) :
    Option (Findings → ClassEntry × Findings) :=
  match v.node with
  | .classDecl modifiers _ name _ base interfaces => some fun f =>
    let (c, f) := classEntry source package vs modifiers name.text base interfaces f
    (c, f.addClass name.text)
  | _ => none

def interfaceReader? (package : String) (vs : List Node.Visit) (v : Node.Visit) :
    Option (Findings → ClassEntry × Findings) :=
  match v.node with
  | .interfaceDecl _ name _ bases => some fun f =>
    ({ name := name.text, methods := methodNames (·.interface == some name.text) vs
       stereotype := .interface, isAbstract := true, package },
      (bases.foldl (fun f b => f.addRelation b name.text "extends") f).addClass name.text)
  | _ => none

def classesIn (u : SourceFile) (source package : String) (f : Findings) : List ClassEntry × Findings :=
  let f := u.package.elim f f.addScope
  let f := u.imports.foldl (fun f i => f.addImport (String.ofList (i.toList.takeWhile (· != '.')))) f
  let package := u.package.getD package
  let vs := u.visits
  let (cs, f) := Findings.readEach (classReader? source package vs) vs f
  let (is, f) := Findings.readEach (interfaceReader? package vs) vs f
  (cs ++ is, f)

def classes [Parser] (source package : String) (f : Findings) : List ClassEntry × Findings :=
  match Parser.parse source with
  | none => ([], f)
  | some u => classesIn u source package f

end CodeAtlas.Java
