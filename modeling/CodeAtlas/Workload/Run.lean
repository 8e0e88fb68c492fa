import CodeAtlas.Workload.Upkeep

/-!
# Workloads that relate and draw classes, and all workloads by name

A workload has a name, one parameter that says how large it is, and a result made of counts. Diagrams count with their
lengths.

* `Workload.runNamed`: the results of a number of runs of a named workload, with loosely typed parameters;
* `Workload.fixtureNamed`: a made-up program by its name.
-/

namespace CodeAtlas.Workload

/-! ### Relations -/

def ringClass (n i : Nat) : Value :=
  .ofFields [("class", .text (Fixture.className i)),
    ("fields", .texts ["id: int", "ref: " ++ Fixture.ringName n (i + 1)]),
    ("methods", .texts ["do" ++ toString i]),
    ("abstract", .bool (i % 4 == 0))]

def ringRelations (n i : Nat) : List Value := [
  Fixture.relation (Fixture.className i) (Fixture.ringName n (i + 1)) "extends" [],
  Fixture.relation (Fixture.className i) (Fixture.ringName n (i + 2)) "uses" [],
  Fixture.relation (Fixture.className i) (Fixture.ringName n (i + 3)) "composition" []]

def oddRelations (n : Nat) : List Value :=
  let first := Fixture.className 0
  [Fixture.relation first first "dependency" [], Fixture.relation first "Elsewhere" "uses" [],
    Fixture.relation first (Fixture.ringName n 1) "knows" []]

def relate (n : Nat) : Loose Value := do
  if n = 0 then throw (.outOfRange "list")
  let classes := Value.list ((List.range n).map (ringClass n))
  let held := (List.range n).flatMap (ringRelations n) ++ oddRelations n
  let r ← (← Register.setClasses {} classes).add (.list held)
  let valid ← r.validate
  let distinct ← Register.distinct valid
  let inferred ← r.infer classes
  let strong ← Register.filterStrong (.list valid) (.text "strong")
  let weak ← Register.filterStrong (.list valid) (.text "weak")
  let r ← r.add (.list inferred)
  let (incoming, outgoing) ← r.ofClass (.text (Fixture.className 0))
  let cycles ← r.cycles
  let headings := (← Register.categorize valid).map (·.1)
  return .list ([valid.length, distinct.length, inferred.length, strong.length, weak.length,
    incoming.length + outgoing.length, cycles.length, r.relations.length].map .nat ++
    [.texts (Text.ascending headings)])

/-! ### Diagrams -/

def lengths (kinds : List DiagramKind) (schema : Value) : Loose (List Nat) :=
  kinds.mapM fun k => do return (← k.render {} schema .null).length

def endpointsOnly (n : Nat) : Value :=
  .ofFields [("endpoints", .list ((List.range n).map fun i => Fixture.endpoint (Fixture.className i) i))]

def longDiagram (n : Nat) : String :=
  Text.join "\n" (["@startuml"] ++ (List.range n).map (fun i => "class C" ++ toString i) ++ ["@enduml"])

def draw (n : Int) : Loose Value := do
  let schema ← Fixture.schema n
  let bare := endpointsOnly (n.toNat / 2)
  let pythonOnly := Value.ofFields [("python", ← schema.field "python")]
  let empty := Value.record []
  let rich ← lengths DiagramKind.all schema
  let ofEndpoints ← lengths [.sequence, .usecase, .component, .deployment] bare
  let ofNothing ← lengths [.sequence, .usecase, .state, .activity, .communication, .component, .deployment] empty
  let ofPython ← lengths [.usecase, .state, .communication, .deployment] pythonOnly
  let cut := (limitSize "plain" (longDiagram 100) 50 8000).length
  let drawable := [schema, bare, pythonOnly].countP fun s => (Schema.check s).isNone
  let entries ← (← Schema.statistics schema).length
  let complaints := ([empty, .null].filterMap Schema.check).map fun d => d.message.length
  let complained := complaints.foldl (· + ·) 0
  return .list ((rich ++ ofEndpoints ++ ofNothing ++ ofPython ++ [cut, drawable, entries, complained]).map .nat)

/-! ### Class diagrams -/

def enumeration : Value :=
  .ofFields [("class", .text "Colour"), ("stereotype", .text "enum"), ("values", .texts ["RED", "GREEN"])]

def declarationLength (style : Style) (cls : Value) : Loose Nat := do
  return (Line.render (← ClassDiagram.classLines style cls)).length

def drawClasses (n : Int) : Loose Value := do
  let schema ← Fixture.schema n
  let declared := (Fixture.names n.toNat).map Atom.text
  let relations := Fixture.relations n.toNat
  let whole := Line.render (← ClassDiagram.lines {} schema .null)
  let part := Line.render (← ClassDiagram.lines {} schema (.texts ["python", "java"]))
  let classes ← (Fixture.entriesOf n.toNat 0).mapM fun c => do
    return [← declarationLength {} c, ← declarationLength { showPrivate := false } c]
  let lines ← (relations.take 20).mapM fun r => do
    return [(← ClassDiagram.relationText r none).length, (← ClassDiagram.relationText r (some declared)).length]
  let signs := ["-id: int", "status: str"].map fun m => (String.singleton (ClassDiagram.signOf m)).length
  let known ← ClassDiagram.among declared relations
  return .list (([whole.length, part.length] ++ classes.flatten ++ lines.flatten ++
    [(ClassDiagram.cleanName "List<Order>[0]").length] ++ signs ++
    [known.length, ← declarationLength {} enumeration]).map .nat)

inductive Task where
  | python
  | csharp
  | typescript
  | cpp
  | allLanguages
  | java
  | relations
  | diagrams
  | classDiagrams
  | advice
  | merging
  | replies
  | prompts
  | files
  | addresses
  | paths
  | failures
  | client
  deriving DecidableEq, Repr

namespace Task

def table : List (Task × String × String) := [
  (python, "python_analyzer", "n_files"),
  (csharp, "csharp_analyzer", "n_files"),
  (typescript, "typescript_analyzer", "n_files"),
  (cpp, "cpp_analyzer", "n_files"),
  (allLanguages, "analyzer_factory", "n_files"),
  (java, "java_analyzer", "n_chars"),
  (relations, "relationship_detector", "n_classes"),
  (diagrams, "plantuml_generator", "n_classes"),
  (classDiagrams, "class_diagram_builder", "n_classes"),
  (advice, "ai_enhancer", "n_classes"),
  (merging, "analyze_merge", "n_classes"),
  (replies, "llm_normalize", "n_lines"),
  (prompts, "plantuml_prompt", "n_keys"),
  (files, "file_utils", "n_names"),
  (addresses, "git_utils", "n_urls"),
  (paths, "security", "n_urls"),
  (failures, "error_handler", "n_errors"),
  (client, "groq_client", "n_payloads")]

def run (t : Task) (size : Int) : Loose Value :=
  let n := size.toNat
  match t with
  | python => readSome .python (copies "bank" ".py" SampleProgram.python n)
  | csharp => readFiles .csharp (copies "orders" ".cs" SampleProgram.csharp n)
  | typescript => readFiles .typescript (copies "panels" ".ts" SampleProgram.typescript n)
  | cpp => readSome .cpp (copies "canvas" ".cpp" SampleProgram.cpp n)
  | allLanguages => readAll n
  | java => readJava n
  | relations => relate n
  | diagrams => draw size
  | classDiagrams => drawClasses size
  | advice => advise n
  | merging => merge n
  | replies => return tidyReplies n
  | prompts => Workload.prompts n
  | files => nameFiles n
  | addresses => return findAddresses n
  | paths => return checkPaths n
  | failures => fail n
  | client => keepAnswers n

end Task

def usualSize : Int := 30

def sizeOf (v : Value) : Loose Int :=
  match v with
  | .atom (.int n) => return n
  | .atom (.bool b) => return if b then 1 else 0
  | v => throw (.mismatch ("'" ++ v.kindName ++ "' object cannot be interpreted as an integer"))

def sizeIn (name parameter : String) : Record → Loose Int
  | [] => return usualSize
  | [(k, v)] =>
    if k.same (.text parameter) then sizeOf v
    else throw (.mismatch (name ++ "() got an unexpected keyword argument '" ++ k.display ++ "'"))
  | _ => throw (.mismatch (name ++ "() got an unexpected keyword argument"))

def runNamed (name : String) (params : Record) (runs : Nat) : Loose Value := do
  match Task.table.find? (·.2.1 == name) with
  | none => throw (.noOperation "module" name)
  | some (t, name, parameter) =>
    let result ← t.run (← sizeIn name parameter params)
    return .list (List.replicate runs result)

def fixtureNamed (name : String) (size : Value) : Loose Value := do
  let n ← sizeOf size
  match name with
  | "make_schema" => return .list [← Fixture.schema n, .texts (Fixture.names n.toNat)]
  | "string_classes" => return .list (Fixture.plainClasses n.toNat)
  | _ => throw (.noOperation "module" name)

end CodeAtlas.Workload
