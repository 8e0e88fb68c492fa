import CodeAtlas.Benchmark.Sample
import CodeAtlas.Text.Search

/-!
# Trials of benchmarks

A benchmark is tried twice as it is and then once with each of its sets of parameters. What it returns is told apart
by fingerprints. A trial that fails ends the row of its benchmark, which keeps what was found before.

* `Benchmark.call`: one call of a benchmark;
* `TrialRow.ofBenchmark`: the row of a benchmark.
-/

namespace CodeAtlas

structure Benchmark where
  returns : Sample := .atom .null
  echo : Option String := none
  /-- Whether the number of earlier calls is returned too. -/
  drifts : Bool := false
  fails : Option String := none
  failsWith : Option String := none
  parameters : Sample := .atom .null

inductive Attribute where
  | plain
  | callable (b : Benchmark)

namespace Benchmark

def call (b : Benchmark) (earlier : Nat) (args : List (String × Sample)) : Except String Sample :=
  match b.fails with
  | some kind => .error kind
  | none =>
    if (b.failsWith.map fun p => args.any (·.1 == p)).getD false then .error "ValueError"
    else
      let value := ((b.echo.bind fun p => args.lookup p)).getD b.returns
      .ok (if b.drifts then .list [value, .atom (.int earlier)] else value)

end Benchmark

structure TrialRow where
  kind : String := "?"
  stable : List String := []
  byParameter : List (String × String) := []
  parameters : List String := []
  timed : List String := []
  deriving Repr

namespace TrialRow

def putPrint (label print : String) : List (String × String) → List (String × String)
  | [] => [(label, print)]
  | p :: ps => if p.1 == label then (label, print) :: ps else p :: putPrint label print ps

def label (args : List (String × Sample)) : String :=
  if args.isEmpty then "-" else Text.join "," (args.map fun a => a.1 ++ "=" ++ a.2.display)

def argsOf : Sample → Except String (List (String × Sample))
  | .record fs => .ok (fs.map fun f => (f.1.display, f.2))
  | _ => .error "AttributeError"

def setsOf (parameters : Sample) : Except String (List Sample) :=
  if !parameters.truthy then .ok []
  else
    match parameters with
    | .list xs => .ok xs
    | .tuple xs => .ok xs
    | .set xs => .ok xs
    | .record fs => .ok (fs.map (·.1))
    | .atom (.text s) => .ok (s.toList.map fun c => .atom (.text (String.singleton c)))
    | .octets _ bs => .ok (bs.map fun (b : Nat) => .atom (.int (b : Int)))
    | _ => .error "TypeError"

def withSets (b : Benchmark) (row : TrialRow) (earlier : Nat) : List Sample → TrialRow
  | [] => row
  | s :: ss =>
    match argsOf s with
    | .error kind => { row with kind := "<" ++ kind ++ ">" }
    | .ok args =>
      match b.call earlier args with
      | .error kind => { row with kind := "<" ++ kind ++ ">" }
      | .ok value =>
        let l := label args
        withSets b { row with
          byParameter := putPrint l value.fingerprint row.byParameter
          parameters := row.parameters ++ args.map fun a => a.2.fingerprint
          timed := if row.timed.contains l then row.timed else row.timed ++ [l] } (earlier + 1) ss

def ofBenchmark (b : Benchmark) : TrialRow :=
  match b.call 0 [], b.call 1 [] with
  | .ok x, .ok y =>
    let row : TrialRow :=
      { kind := x.kindName, stable := [x.fingerprint, y.fingerprint], timed := ["<default>"] }
    match setsOf b.parameters with
    | .ok sets => withSets b row 2 sets
    | .error kind => { row with kind := "<" ++ kind ++ ">" }
  | .error kind, _ => { kind := "<" ++ kind ++ ">" }
  | _, .error kind => { kind := "<" ++ kind ++ ">" }

end TrialRow

def trialRows (attributes : List (String × Attribute)) : List (String × TrialRow) :=
  attributes.filterMap fun a =>
    match a.2 with
    | .callable b => if Text.startsWith a.1 "bench_" then some (a.1, TrialRow.ofBenchmark b) else none
    | .plain => none

def loadFailure (kind message : String) : String := kind ++ ": " ++ message

end CodeAtlas
