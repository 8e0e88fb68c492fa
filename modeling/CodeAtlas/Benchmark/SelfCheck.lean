import CodeAtlas.Settings.Environment

/-!
# Reports on benchmarks

A coverage document tells per file how many statements there are, how many were not reached and which lines those
are, and the totals. `Coverage.table` lays it out, the least covered files first and of equally covered ones those
with the most to reach. Each benchmark should spend most of its time in the measured code; a report gives the share per
benchmark, below zero for one that failed, and for some benchmarks the other code in which the time went.

A benchmark checks itself when what it returns depends on what it did. A report gives per benchmark the kind of
value it returned, fingerprints of the value from repeated runs and from runs with parameters, and timings;
`Verdict.ofRow` judges them.
-/

namespace CodeAtlas

def Text.padEnd (width : Nat) (s : String) : String := s ++ String.ofList (List.replicate (width - s.length) ' ')

def Text.padStart (width : Nat) (s : String) : String := String.ofList (List.replicate (width - s.length) ' ') ++ s

structure FileCoverage where
  name : String
  statements : Int
  missing : Int
  percent : Binary64
  missingLines : List Int

structure Coverage where
  files : List FileCoverage
  percent : Binary64
  covered : Int
  statements : Int
  /-- How many benchmarks failed while coverage was taken. -/
  failures : Nat

namespace Coverage

def root : String := "/repo/"

def shownName (name : String) : String :=
  if Text.startsWith name root then Text.drop name root.length else name

def part (v : Value) (key : String) : Loose Value := do return (← v.get key).orElse (.record [])

def number {α : Type} (v : Value) (key : String) (read : Value → Loose α) : Loose α := do
  read ((← v.get key).orElse (.int 0))

def file (name : Atom) (v : Value) : Loose FileCoverage := do
  let summary ← part v "summary"
  let lines ← (← (← v.get "missing_lines").orElse (.list []) |>.items).mapM Value.toInt
  return {
    name := shownName name.display
    statements := ← number summary "num_statements" Value.toInt
    missing := ← number summary "missing_lines" Value.toInt
    percent := ← number summary "percent_covered" Value.toFloat
    missingLines := lines }

def ofValue (v : Value) : Loose Coverage := do
  let totals ← part v "totals"
  let meta' ← part v "meta"
  let failures ← (← part meta' "_pti_bench_errors").length
  let percent ← number totals "percent_covered" Value.toFloat
  let covered ← number totals "covered_lines" Value.toInt
  let statements ← number totals "num_statements" Value.toInt
  let files ← (← (← part v "files").fieldsFor "items").mapM fun f => file f.1 f.2
  return ⟨files, percent, covered, statements, failures⟩

def fileLe (a b : FileCoverage) : Bool :=
  match a.percent.compare? b.percent with
  | some .lt => true
  | some .eq => decide (b.missing ≤ a.missing)
  | _ => false

def runsFrom (first last : Int) : List Int → List (Int × Int)
  | [] => [(first, last)]
  | n :: ns => if n = last + 1 then runsFrom first n ns else (first, last) :: runsFrom n n ns

def linesText (lines : List Int) : String :=
  match lines with
  | [] => ""
  | n :: ns => Text.join ", " ((runsFrom n n ns).map fun r =>
      if r.1 = r.2 then toString r.1 else toString r.1 ++ "-" ++ toString r.2)

def maxRows : Nat := 120

def columns (width : Nat) (name statements missing cover : String) : String :=
  Text.padEnd width name ++ "  " ++ Text.padStart 5 statements ++ "  " ++ Text.padStart 4 missing ++ "  " ++
    Text.padStart 5 cover

def percentText (x : Binary64) : String := x.fixed 0 ++ "%"

def table (c : Coverage) : List String :=
  let rows := (c.files.mergeSort fileLe).take maxRows
  let width := rows.foldl (fun w r => max w r.name.length) 4
  let rule := String.ofList (List.replicate (width + 42) '-')
  [columns width "Name" "Stmts" "Miss" "Cover" ++ "  Missing", rule] ++
    rows.map (fun r =>
      columns width r.name (toString r.statements) (toString r.missing) (percentText r.percent) ++ "  " ++
        linesText r.missingLines) ++
    [rule, columns width "TOTAL" (toString c.statements) (toString (c.statements - c.covered)) (percentText c.percent)]

end Coverage

/-- The shares of time, and per benchmark the other places where time went. -/
structure TimeShares where
  shares : List (Atom × Binary64) := []
  elsewhere : Value := .record []

namespace TimeShares

def floor : Binary64 := .ofInt 45

def ofValue (v : Value) : Loose TimeShares := do
  let shares ← (← (← Coverage.part v "repo_time_pct").fieldsFor "items").mapM fun f => do
    return (f.1, ← f.2.toFloat)
  return ⟨shares, ← Coverage.part v "hot_ext"⟩

def ran (x : Binary64) : Bool := Binary64.zero.le x

def isLow (x : Binary64) : Bool := ran x && x.lt floor

def low (t : TimeShares) : Nat := (t.shares.filter fun s => isLow s.2).length

def measured (t : TimeShares) : Nat := (t.shares.filter fun s => ran s.2).length

def low? (t : TimeShares) : Option Nat := if t.measured = 0 then none else some t.low

def placeText (v : Value) : Loose String := do
  match ← v.items with
  | [share, name] => return name.display ++ " " ++ (← share.toFloat).fixed 0 ++ "%"
  | _ => .error (.invalid "not a place")

def placesText (t : TimeShares) (name : Atom) : String :=
  let places := do
    let places := (Record.get? name (← t.elsewhere.fieldsFor "get")).getD (.list [])
    (← places.items).mapM placeText
  match places.toOption.getD [] with
  | [] => ""
  | ps => " (hot: " ++ Text.join " " ps ++ ")"

def line (t : TimeShares) (name : Atom) (x : Binary64) : String :=
  "  " ++ (if isLow x then "*" else " ") ++ " " ++ Text.padEnd 32 name.display ++ " " ++
    Text.padStart 5 ((x.max2 .zero).fixed 1) ++ "%" ++
    (if isLow x then t.placesText name else if ran x then "" else "  <error>")

def sections (t : TimeShares) : List String :=
  if t.shares.isEmpty then []
  else
    ["", "repo_time (target 50%; * = below 45%):"] ++
      (t.shares.mergeSort fun a b => a.2.le b.2).map fun s => t.line s.1 s.2

def summary (t : TimeShares) : List String :=
  if t.shares.isEmpty then [] else [s!"{t.low}/{t.measured} below repo_time 45%"]

end TimeShares

structure CheckRow where
  name : Atom
  kind : Option String
  stable : List Value
  byParameter : List Value
  parameters : List Value
  time : Option Binary64
  share : Option Binary64

inductive Verdict where
  | repositoryModified
  | failed
  | returnsNothing
  | unstable
  | returnsInput
  | lowShare
  | tooFast
  | parameterInvariant
  | withoutParameters
  | good
  deriving DecidableEq, Repr

namespace CheckRow

def least? : List Binary64 → Option Binary64
  | [] => none
  | x :: xs => some (xs.foldl (fun a b => if b.lt a then b else a) x)

def middle? (xs : List Binary64) : Option Binary64 :=
  let sorted := xs.mergeSort Binary64.le
  let half := sorted.length / 2
  match sorted[half]?, sorted[half - 1]? with
  | some x, some y =>
    if sorted.length % 2 = 1 then some x else (y.add x).div? (.ofInt 2)
  | x, _ => x

def numbers (v : Value) (key : String) : Loose (List Binary64) := do
  (← (← Coverage.part v key).fieldsFor "values").mapM fun f => f.2.toFloat

def ofValue (name : Atom) (v : Value) : Loose CheckRow := do
  let kind ← v.get "ret_type"
  let times ← numbers v "repo_tt_ms"
  let shares ← numbers v "repo_frac"
  return {
    name
    kind := if kind.truthy then some kind.display else none
    stable := ← ((← v.get "fp_stable").orElse (.list [])).items
    byParameter := (← (← Coverage.part v "fp_by_param").fieldsFor "values").map (·.2)
    parameters := ← ((← v.get "param_fps").orElse (.list [])).items
    time := (middle? times).map (·.roundTo 2)
    share := least? shares }

def allOf (v : Value) : Loose (List CheckRow) := do
  let rows := (← (← Coverage.part v "semcheck").fieldsFor "items").filter fun f => f.2.isRecord
  rows.mapM fun f => ofValue f.1 f.2

end CheckRow

namespace Verdict

def word : Verdict → String
  | repositoryModified => "repo-modified"
  | failed => "error"
  | returnsNothing => "returns-none"
  | unstable => "unstable"
  | returnsInput => "returns-input"
  | lowShare => "low-repo-time"
  | tooFast => "too-fast"
  | parameterInvariant => "param-invariant"
  | withoutParameters => "ok-unparam"
  | good => "ok"

def isBad : Verdict → Bool
  | withoutParameters => false
  | good => false
  | _ => true

def allSame (n : Nat) (vs : List Value) : Bool :=
  decide (n ≤ vs.length) && (match vs with
    | [] => true
    | v :: rest => rest.all v.same)

def saysFailure : Option String → Bool
  | none => true
  | some k => k == "?" || Text.startsWith k "<"

def ofRow (modified : Bool) (r : CheckRow) : Verdict :=
  if modified then repositoryModified
  else if saysFailure r.kind then failed
  else if r.kind == some "NoneType" then returnsNothing
  else if !allSame 2 r.stable then unstable
  else if (r.stable.head?.map fun v => r.parameters.any v.same).getD false then returnsInput
  else if (r.share.map fun s => s.lt (.ofDecimal false 5 (-1))).getD false then lowShare
  else if (r.time.map fun t => t.lt (.ofInt 1)).getD false then tooFast
  else if r.byParameter.length < 2 then withoutParameters
  else if allSame 2 r.byParameter then parameterInvariant
  else good

end Verdict

structure SelfCheck where
  rows : List (CheckRow × Verdict) := []
  modified : List String := []

namespace SelfCheck

def ofRows (modified : List String) (rows : List CheckRow) : SelfCheck :=
  ⟨rows.map fun r => (r, Verdict.ofRow (!modified.isEmpty) r), modified⟩

def modifiedFiles (listing : String) : List String :=
  ((Text.lines listing).filter fun l => !Text.isBlankText l).map (Text.drop · 3)

def bad (s : SelfCheck) : Nat := (s.rows.filter fun r => r.2.isBad).length

def advice : List String := [
  "  returns-none: run() has no return — collect and return the call results",
  "  unstable: seed RNG in setup; avoid time/uuid/id in the return",
  "  returns-input: return repo output, not the parameter value",
  "  low-repo-time: <50% of run() time is in repo code — move glue to setup",
  "  param-invariant: return something derived from run()'s work, not setup",
  "  repo-modified: revert edits to repo files (git checkout -- <path>)"]

def line (r : CheckRow) (v : Verdict) : String :=
  let share := ((r.share.getD .zero).mul (.ofInt 100)).fixed 0
  let time := (r.time.getD .zero).fixed 1
  "  " ++ (if v.isBad then "*" else " ") ++ " " ++ Text.padEnd 32 r.name.display ++ " " ++
    Text.padEnd 16 v.word ++ " (" ++ r.kind.getD "?" ++ ", repo " ++ share ++ "%) " ++ time ++ "ms"

def modifiedSection (s : SelfCheck) : List String :=
  if s.modified.isEmpty then []
  else
    ["", s!"** repo modified ({s.modified.length} file(s)) — revert these; only microbench.py is yours to edit:"] ++
      (s.modified.take 10).map ("   " ++ ·)

def sections (s : SelfCheck) : List String :=
  if s.rows.isEmpty then []
  else
    let (bad, good) := s.rows.partition fun r => r.2.isBad
    s.modifiedSection ++ ["", "self-check (* = fix needed):"] ++ advice ++ (bad ++ good).map fun r => line r.1 r.2

def summary (s : SelfCheck) : List String :=
  if s.rows.isEmpty then [] else [s!"{s.bad}/{s.rows.length} not self-checking"]

end SelfCheck

end CodeAtlas
