import CodeAtlas.Advice.Advise
import CodeAtlas.Client.State
import CodeAtlas.Enrichment.Enrich
import CodeAtlas.Failure.Report
import CodeAtlas.Repository.Address
import CodeAtlas.Repository.Discovery
import CodeAtlas.Workload.Fixture
import CodeAtlas.Workload.Reading

/-!
# Workloads on what surrounds a reading

Advice, merged schemas, file names, addresses, paths, failures and kept answers.
-/

namespace CodeAtlas.Workload

/-! ### Schemas -/

def topics : List Topic := [.relations, .patterns, .refactoring, .architecture]

def advise (n : Nat) : Loose Value := do
  if n < 2 then throw (.outOfRange "list")
  let c : Counsellor := { key := .text "k", chat := .replying "[]" }
  let classes := Value.list (Fixture.plainClasses n)
  let results := topics.map fun t => (c.advise t classes (.list (Fixture.relations n)) (.list [])).1
  return counts [results.length, (results.map fun r => r.display.length).foldl (· + ·) 0]

def foundSchema (n : Nat) : Value :=
  .ofFields [("python", .list (Fixture.plainClasses n)),
    ("relations", .list ((List.range n).map fun i =>
      Fixture.relation (Fixture.className i) (Fixture.ringName n (i + 1)) "uses" [])),
    ("meta", .ofFields [("system", .text "Bench")])]

def addedSchema : Value :=
  .ofFields [("python", .list [.ofFields [("class", .text "Added"), ("methods", .texts ["run"])]]),
    ("relations",
      .list [Fixture.relation "Added" "Added" "uses" [], Fixture.relation "Added" "Added" "composition" []]),
    ("endpoints", .list [Fixture.endpoint "Added" 0])]

def merge (n : Nat) : Loose Value := do
  let ast := foundSchema n
  let merged ← Merge.schemas ast addedSchema
  let classes ← (← merged.field "python").length
  let relations ← (← merged.field "relations").length
  let off : Service := { enabled := false, hasKey := false, answer := .error (.disabled "off") }
  let same := match (Enrichment.enrich off true Service.defaultModel ast).1 with
    | .ok (.schema s) => s.same ast
    | _ => false
  return .list [.nat classes, .nat relations, .bool (← merged.field "meta").truthy,
    .bool (← merged.field "endpoints").truthy, .bool same]

/-! ### Names -/

def endings : List String := [".py", ".java", ".min.js", ".txt"]

def fileName (i : Nat) : String := "file" ++ toString i ++ endings.getD (i % endings.length) ""

def fileText : String := "class Order:\n    pass\n"

def nameFiles (n : Nat) : Loose Value := do
  let names := (List.range n).map fileName
  let groups ← Discovery.groups (.texts names) .null
  return .list [.nat (Discovery.package "/work/src/orders.py" "/work").length,
    .texts (Text.ascending (groups.map fun g => g.1.display)), .nat fileText.length,
    .nat (names.countP Skip.folder), .nat (names.countP Skip.file)]

def addresses (n : Nat) : List String :=
  (List.range n).flatMap fun i =>
    let name := "owner/repo" ++ toString i ++ ".git"
    ["https://github.com/" ++ name, "git@github.com:" ++ name]

def findAddresses (n : Nat) : Value :=
  let urls := addresses n
  counts [urls.length, urls.countP Address.isCloneable, urls.countP fun u => (Address.find? u).isSome]

def checkPaths (n : Nat) : Value :=
  let inside := fun (u : String) =>
    match SafePath.confine u "/work" with
    | .ok _ => true
    | .error _ => false
  let accepted := fun (u : String) =>
    match Address.parse u with
    | .ok _ => true
    | .error _ => false
  counts [(addresses n).countP accepted, ((List.range n).map fileName).countP inside]

/-! ### Failures and answers -/

def failures : List Failure := [
  .ofValidation (.text "Invalid input") (.text "url"),
  .ofSecurity (.text "Refused") (.text "traversal"),
  ⟨.text "Not found", .notFound, .record []⟩,
  .ofTimeout (.text "clone") (.nat 30)]

def fail (n : Nat) : Loose Value := do
  let statuses ← (List.range n).mapM fun i =>
    match failures[i % failures.length]? with
    | some f => do return (← (Problem.raised f).handle false []).2
    | none => return 0
  return counts [statuses.length, statuses.foldl (· + ·) 0]

def request (i : Nat) : Value :=
  .ofFields [("model", .text Service.defaultModel), ("messages", .texts ["m" ++ toString i])]

def keepAnswers (n : Nat) : Loose Value := do
  let settings ← ClientSettings.ofEnvironment [("GROQ_CACHE_ENABLED", "true")]
  let c := (List.range n).foldl
    (fun c i => (c.keep? .zero (ClientState.requestKey (request i)) (.nat i)).getD c) ({ settings } : ClientState)
  return counts [n, c.cache.length]

end CodeAtlas.Workload
