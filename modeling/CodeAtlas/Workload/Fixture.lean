import CodeAtlas.Value.Access

/-!
# Made-up programs of any size

Workloads need input that grows with a number.

* `Fixture.plainClasses`: as many classes whose members are all written as text.

A schema names its classes round and round, so it needs at least one class.
-/

namespace CodeAtlas.Fixture

def languages : List String := ["python", "java", "csharp", "typescript", "cpp"]

def className (i : Nat) : String := "Class" ++ toString i

def ringName (n i : Nat) : String := className (i % n)

def packageName (i : Nat) : String := "pkg.sub" ++ toString (i % 3)

def stereotype (i : Nat) : String :=
  if i % 7 == 0 then "interface" else if i % 5 == 0 then "abstract" else "class"

def entry (n i : Nat) : Value :=
  .ofFields [
    ("class", .text (className i)),
    ("package", .text (packageName i)),
    ("stereotype", .text (stereotype i)),
    ("abstract", .bool (stereotype i != "class")),
    ("fields", .list [.text ("-id" ++ toString i ++ ": int"), .text "+status: str",
      .ofFields [("name", .text "flag"), ("type", .text "bool"), ("visibility", .text "private")],
      .text ("ref: " ++ ringName n (i + 1))]),
    ("methods", .list [.text ("+do" ++ toString i), .text "-hidden",
      .ofFields [("name", .text "run"), ("params", .texts ["self", "x"]), ("return_type", .text "void"),
        ("visibility", .text "public")]])]

def relation (source target kind : String) (more : List (String × Value)) : Value :=
  .ofFields ([("from", .text source), ("to", .text target), ("type", .text kind)] ++ more)

def relationsOf (n i : Nat) : List Value := [
  relation (className i) (ringName n (i + 1)) "extends" [("source", .text "heuristic")],
  relation (className i) (ringName n (i + 2)) "uses" [("label", .text "calls"),
    ("multiplicity", .ofFields [("from", .text "1"), ("to", .text "*")])],
  relation (className i) (ringName n (i + 3)) "composition" []]

def relations (n : Nat) : List Value := (List.range n).flatMap (relationsOf n)

def endpoint (controller : String) (i : Nat) : Value :=
  .ofFields [("controller", .text controller), ("method", .text "GET"), ("path", .text ("/r" ++ toString i))]

def flow (n i : Nat) : Value :=
  .ofFields [("from", .text "User"), ("to", .text (ringName n i)), ("message", .text ("m" ++ toString i)),
    ("response", .text "ok"), ("type", .text "sync"), ("note", .text "n")]

def useCase (i : Nat) : Value :=
  let name := fun (k : Nat) => "UC" ++ toString (k % 4)
  .ofFields [("name", .text (name i)), ("actor", .text "User"), ("supportingActors", .texts ["Admin"]),
    ("includes", .texts [name (i + 1)]), ("extends", .texts [name (i + 2)])]

def lifeCycle : Value :=
  .ofFields [("context", .text (className 0)),
    ("states", .list [.text "A", .text "B", .ofFields [("name", .text "C")]]),
    ("transitions", .list [
      .ofFields [("from", .text "A"), ("to", .text "B"), ("trigger", .text "go")],
      .ofFields [("from", .text "B"), ("to", .text "C")]])]

def step (n i : Nat) : Value :=
  .ofFields [("step", .text ("Step" ++ toString i)), ("class", .text (ringName n i)), ("role", .text "User"),
    ("condition", .text "ok"), ("next", .texts ["Step" ++ toString (i + 1)])]

def entriesOf (n place : Nat) : List Value :=
  ((List.range n).filter fun i => i % languages.length == place).map (entry n)

def names (n : Nat) : List String := (List.range n).map className

def ring (n : Nat) : Value :=
  let upTo := fun (k : Nat) (item : Nat → Value) => Value.list ((List.range k).map item)
  .ofFields (languages.zipIdx.map (fun l => (l.1, .list (entriesOf n l.2))) ++ [
    ("classes", .list [.ofFields [("class", .text "Extra"), ("fields", .list []), ("methods", .list [])]]),
    ("relations", .list (relations n)),
    ("meta", .ofFields [("system", .text "Bench"), ("notes", .texts ["x"])]),
    ("endpoints", upTo 4 fun i => endpoint (ringName n i) i),
    ("sequence_flows", upTo 6 (flow n)),
    ("usecases", upTo 4 useCase),
    ("states", .list [lifeCycle]),
    ("activity", upTo 6 (step n))])

def schema (n : Int) : Loose Value :=
  if n = 0 then throw .divisionByZero
  else if n < 0 then throw (.outOfRange "list")
  else return ring n.toNat

def plainEntry (n i : Nat) : Value :=
  let isAbstract := i % 5 == 0
  .ofFields [
    ("class", .text (className i)),
    ("package", .text (packageName i)),
    ("stereotype", .text (if isAbstract then "abstract" else "class")),
    ("abstract", .bool isAbstract),
    ("fields", .texts ["id" ++ toString i ++ ": int", "ref: " ++ ringName n (i + 1), "status: str"]),
    ("methods", .texts (("do" ++ toString i) ::
      ["run", "stop", "configure", "reset", "load", "save", "open", "close", "flush", "sync"]))]

def plainClasses (n : Nat) : List Value := (List.range n).map (plainEntry n)

end CodeAtlas.Fixture
