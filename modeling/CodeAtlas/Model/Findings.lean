import CodeAtlas.Model.ClassEntry

/-!
# Findings of one language

`Findings` collects what the files of one language showed beside the classes themselves. It grows file by
file: classes of earlier files are known when later ones are read.
-/

namespace CodeAtlas

structure UseCase where
  action : String
  controller : String

structure Transition where
  cls : String
  field : String
  action : String

structure CallMade where
  caller : String
  callee : Option String
  method : String

structure Findings where
  classNames : List String := []
  relations : List Relation := []
  compositions : List Relation := []
  usages : List Relation := []
  imports : List String := []
  scopes : List String := []
  useCases : List UseCase := []
  transitions : List Transition := []
  calls : List CallMade := []

namespace Findings

def knows (f : Findings) (name : String) : Bool := f.classNames.contains name

def addClass (f : Findings) (name : String) : Findings :=
  { f with classNames := Text.insertAscending name f.classNames }

def addRelation (f : Findings) (source target kind : String) : Findings :=
  { f with relations := f.relations ++ [⟨source, target, kind, some "heuristic"⟩] }

def addComposition (f : Findings) (owner part : String) : Findings :=
  { f with compositions := f.compositions ++ [⟨owner, part, "composition", some "heuristic"⟩] }

def addUsage (f : Findings) (user used : String) : Findings :=
  { f with usages := f.usages ++ [⟨user, used, "uses", some "heuristic"⟩] }

def addImport (f : Findings) (name : String) : Findings :=
  { f with imports := Text.insertAscending name f.imports }

def addScope (f : Findings) (name : String) : Findings :=
  { f with scopes := Text.insertAscending name f.scopes }

/-- The classes that some declarations give, each read with the findings after those before it; what declares none is
passed over. -/
def readEach {α : Type} (read? : α → Option (Findings → ClassEntry × Findings)) :
    List α → Findings → List ClassEntry × Findings
  | [], f => ([], f)
  | a :: as, f =>
    match read? a with
    | none => readEach read? as f
    | some read =>
      let (c, f) := read f
      let (cs, f) := readEach read? as f
      (c :: cs, f)

def dependency (name : String) : Relation := ⟨name, name, "dependency", some "heuristic"⟩

def relationsPlain (f : Findings) (isKnown : String → Bool) : List Relation :=
  f.relations ++ f.compositions ++ Relation.distinct f.usages ++
    (f.imports.filter isKnown).map dependency

def relationsKnown (f : Findings) (isKnown : String → Bool) : List Relation :=
  let counts := fun r : Relation => isKnown r.toClass && r.toClass != r.fromClass
  f.relations ++ f.compositions.filter counts ++ Relation.distinct (f.usages.filter counts) ++
    (f.imports.filter isKnown).map dependency

/-- What findings support among the classes that `isKnown` holds of. -/
def relationsAmong (f : Findings) (l : Language) (isKnown : String → Bool) : List Relation :=
  match l with
  | .python => f.relationsPlain isKnown
  | _ => f.relationsKnown isKnown

def toValue (f : Findings) (l : Language) : Value :=
  let relations := fun rs : List Relation => Value.list (rs.map Relation.toValue)
  .ofFields ([("class_names", .texts f.classNames), ("relationships", relations f.relations),
    ("compositions", relations f.compositions), ("usages", relations f.usages),
    (if l == .cpp then "includes" else "imports", .texts f.imports)] ++
    match l with
    | .java =>
      [("java_packages", .texts f.scopes),
        ("usecases", .list (f.useCases.map fun u =>
          .ofFields [("actor", .text "User"), ("action", .text u.action), ("controller", .text u.controller)])),
        ("state_transitions", .list (f.transitions.map fun t =>
          .ofFields [("class", .text t.cls), ("state_field", .text t.field), ("action", .text t.action)])),
        ("sequence_calls", .list (f.calls.map fun c =>
          .ofFields [("caller", .text c.caller), ("callee", (c.callee.map Value.text).getD .null),
            ("method", .text c.method)]))]
    | .csharp => [("namespaces", .texts f.scopes)]
    | .typescript => [("modules", .texts f.scopes)]
    | _ => [])

end Findings

end CodeAtlas
