import CodeAtlas.Analysis.Workbench
import CodeAtlas.Relations.Register
import CodeAtlas.Repository.Discovery
import CodeAtlas.Settings.Limits

/-!
# The survey of a repository

A survey reads the source files of a repository, each by itself, and puts together what they show: the classes
of each language, the relations among them, endpoints, and notes on the whole.

* `FileReport.ofFile?`: what a file shows by itself;
* `Survey.registered`: the relations among the classes of all files;
* `Survey.ofRepository`: the whole.

## Scope

Reports are delivered in any order, and what an advisor says is any value.  Workers and logs are not described.
-/

namespace CodeAtlas

variable [Java.Parser]

structure FileReport where
  language : Language
  classes : List ClassEntry
  relations : List Relation

namespace FileReport

def ofFile? (path package : String) (source : Option String) : Option FileReport :=
  (Workbench.languageOf? path).map fun l =>
    let (classes, w) := Workbench.read {} path source package
    let f := w.findings l
    ⟨l, classes, f.relations ++ f.compositions ++ f.usages⟩

def toValue (r : FileReport) : Value :=
  .list [.text r.language.name, .list (r.classes.map ClassEntry.toValue), .list (r.relations.map Relation.toValue)]

end FileReport

/-- What an advisor says about a repository, as far as it comes to say anything. -/
inductive Advisor where
  | silent
  | speaking (relations patterns architecture : Value)

structure SourceFile where
  path : String
  source : Option String

namespace Survey

def headings : List String := ["python", "java", "csharp", "javascript", "typescript", "cpp", "c", "html", "css"]

def reports (directory : String) (files : List SourceFile) : List FileReport :=
  (files.filterMap fun f => FileReport.ofFile? f.path (Discovery.package f.path directory) f.source).filter
    fun r => !r.classes.isEmpty

def classesUnder (rs : List FileReport) (heading : String) : List Value :=
  ((rs.filter fun r => r.language.name == heading).flatMap (·.classes)).map ClassEntry.toValue

def allClasses (rs : List FileReport) : List Value := headings.flatMap (classesUnder rs)

def classCount (rs : List FileReport) : Nat :=
  (Text.ascendingSet (((rs.flatMap (·.classes)).map (·.name)).filter (· != ""))).length

def withClasses (table : Record) (r : FileReport) : Record :=
  let known := match Record.get? (.text r.language.name) table with
    | some (.record fs) => fs
    | _ => []
  let classes := (r.classes.filter (·.name != "")).foldl (fun fs c => Record.put (.text c.name) c.toValue fs) known
  Record.put (.text r.language.name) (.record classes) table

def classTable (rs : List FileReport) : Record := rs.foldl withClasses []

def withSource (r : Value) : Value :=
  match r with
  | .record fs => if Record.has (.text "source") fs then r else
    .record (Record.put (.text "source") (.text "heuristic") fs)
  | v => v

/-- The relations that are valid, each once, and those inferred. -/
def registered (classes relations : List Value) : Loose Register := do
  let r ← Register.setClasses {} (.list classes)
  let r ← r.add (.list relations)
  let r ← r.keepValid
  let r := { r with relations := r.relations.map withSource }
  let inferred ← r.infer (.list classes)
  if inferred.isEmpty then return r
  let r ← r.add (.list inferred)
  return { r with relations := (← Register.distinct r.relations).map withSource }

def perMethod (e : Endpoint) : List Value :=
  match e.toValue with
  | .record fs =>
    if e.methods.isEmpty then [.record fs]
    else e.methods.map fun m =>
      .record (Record.put (.text "method") (.text m) (Record.erase (.text "methods") fs))
  | v => [v]

def leastConfidence : Binary64 := .ofDecimal false 7 (-1)

def isSure (r : Value) : Loose Bool := do
  match ← r.getD "confidence" (.nat 0) with
  | .atom a =>
    match a.number? with
    | some x =>
      let o := Atom.compareNumbers? x (.inr leastConfidence)
      return o == some .gt || o == some .eq
    | none => throw (.mismatch s!"'>=' not supported between instances of '{(Value.atom a).kindName}' and 'float'")
  | v => throw (.mismatch s!"'>=' not supported between instances of '{v.kindName}' and 'float'")

structure Conclusion where
  relations : List Value
  patterns : Value := .list []
  architecture : Value := .null

def suggest (relations : List Value) (suggested : Value) : List Value × Bool :=
  if !suggested.truthy then (relations, true)
  else match (do (← suggested.items).filterM isSure : Loose (List Value)) with
    | .error _ => (relations, false)
    | .ok [] => (relations, true)
    | .ok sure =>
      match Register.distinct (relations ++ sure) with
      | .ok rs => (rs, true)
      | .error _ => (relations ++ sure, false)

def advised (relations : List Value) : Advisor → Conclusion
  | .silent => { relations }
  | .speaking suggested patterns architecture =>
    let (rs, goesOn) := suggest relations suggested
    if goesOn then { relations := rs, patterns := patterns.orElse (.list []), architecture }
    else { relations := rs }

/-- The part of a list that a limit cuts off. -/
def limited {α : Type} (xs : List α) (limit : Value) : Loose (List α) :=
  match limit with
  | .atom .null => .ok xs
  | .atom (.bool b) => .ok (xs.take (if b then 1 else 0))
  | .atom (.int n) => .ok (if n < 0 then xs.take (xs.length - n.natAbs) else xs.take n.natAbs)
  | _ => .error (.mismatch "slice indices must be integers or None or have an __index__ method")

def ofReports (rs : List FileReport) (files : List SourceFile) (groups : Record) (name : String) (advisor : Advisor) :
    Loose Value := do
  let classes := allClasses rs
  let register ← registered classes ((rs.flatMap (·.relations)).map Relation.toValue)
  let cycles ← register.cycles
  let kinds ← Register.categorize register.relations
  let findings := advised register.relations advisor
  let notes : List (String × Value) :=
    (if cycles.isEmpty then [] else [("circular_dependencies", .list (cycles.map fun c => .list (c.map .atom)))]) ++
    [("relationship_stats", .ofFields (kinds.map fun k => (k.1, .list k.2)))] ++
    (if findings.architecture.truthy then [("architecture", findings.architecture)] else []) ++
    [("files_scanned", .nat rs.length), ("classes_found", .nat (classCount rs)),
      ("languages", .list ((Record.keys groups).map .atom)), ("system", .text (Path.base name)),
      ("analyzer_stats", Workbench.statistics {})]
  return .ofFields (headings.map (fun h => (h, Value.list (classesUnder rs h))) ++ [
    ("endpoints", .list ((files.flatMap fun f => Workbench.endpoints f.path f.source).flatMap perMethod)),
    ("relations", .list findings.relations), ("patterns", findings.patterns), ("layers", .list []),
    ("meta", .ofFields notes)])

def found (root : Entry) (maxFiles maxBytes : Value) : List SourceFile :=
  (Discovery.find root "" { maxFiles, maxSize := maxBytes }).map fun p =>
    ⟨p, match root.find? p with
      | some (.file c) => some c.read
      | _ => none⟩

/-- The survey of a repository, with reports in the order of delivery. -/
def ofRepository (root : Entry) (name : String) (limits : Value) (advisor : Advisor)
    (delivery : Reordering SourceFile := .kept) : Loose Value := do
  let maxFiles ← limits.getD "max_files" (.nat 20000)
  let maxBytes ← limits.getD "max_bytes" (.nat 2000000)
  let files := found root maxFiles maxBytes
  let groups ← Discovery.groups (.texts (files.map (·.path))) .null
  let delivered := delivery.order (← limited files maxFiles)
  ofReports (reports "" delivered) files groups name advisor

end Survey

end CodeAtlas
