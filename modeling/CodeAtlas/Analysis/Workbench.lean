import CodeAtlas.Language.CSharpClasses
import CodeAtlas.Language.CppClasses
import CodeAtlas.Language.Endpoints
import CodeAtlas.Language.JavaClasses
import CodeAtlas.Language.PythonClasses
import CodeAtlas.Language.TypeScriptClasses
import CodeAtlas.Repository.Path

/-!
# The workbench

A workbench reads files one after the other, each in the language its name stands for, and keeps the
findings of each language apart.

* `Workbench.read`: read a file, which adds to the findings of its language;
* `Workbench.relations`: the relations that all findings support among given classes.

## Scope

A file is a path and, if it can be read, a text.  How it is opened, and what is logged, is not described.
-/

namespace CodeAtlas

structure Workbench where
  findings : Language → Findings := fun _ => {}

namespace Workbench

variable [Java.Parser]

def languageOf? (path : String) : Option Language := Language.ofExtension? (Path.extension path)

def claims (l : Language) (path : String) : Bool := l.ownExtensions.any fun e => Text.endsWith path e

def put (w : Workbench) (l : Language) (f : Findings) : Workbench :=
  ⟨fun m => if m = l then f else w.findings m⟩

def classesOf (l : Language) (source package : String) (f : Findings) : List ClassEntry × Findings :=
  match l with
  | .python => Python.classes source package f
  | .java => Java.classes source package f
  | .csharp => CSharp.classes source package f
  | .typescript => TypeScript.classes source package f
  | .cpp => Cpp.classes source package f

def read (w : Workbench) (path : String) (source : Option String) (package : String) :
    List ClassEntry × Workbench :=
  match languageOf? path, source with
  | some l, some s =>
    let (cs, f) := classesOf l s package (w.findings l)
    (cs, w.put l f)
  | _, _ => ([], w)

def endpoints (path : String) (source : Option String) : List Endpoint :=
  match languageOf? path, source with
  | some l, some s => Endpoint.ofSource l s
  | _, _ => []

def anyNamed (name : String) : List Value → Loose Bool
  | [] => return false
  | c :: cs => do
    if (← c.field "class").isText name then return true else anyNamed name cs

def names (classes : List Value) : Loose (List Atom) :=
  classes.mapM fun c => do (← c.field "class").key

def importedClasses (classes : Value) (imports : List String) : Loose (List String) :=
  imports.filterM fun i => do anyNamed i (← classes.items)

def relationsIn (w : Workbench) (l : Language) (classes : Value) : Loose (List Relation) := do
  let f := w.findings l
  match l with
  | .python =>
    let known ← importedClasses classes f.imports
    return f.relationsAmong l known.contains
  | _ =>
    let known ← names (← classes.items)
    return f.relationsAmong l fun n => (Atom.text n).isIn known

def relations (w : Workbench) (classes : Value) : Loose (List Relation) := do
  let rs ← Language.all.mapM fun l => w.relationsIn l classes
  return Relation.distinct rs.flatten

def statistics (w : Workbench) : Value :=
  .ofFields (Language.all.map fun l =>
    (l.name, .ofFields [("classes_found", .nat (w.findings l).classNames.length),
      ("relationships", .nat (w.findings l).relations.length)]))

end Workbench

end CodeAtlas
