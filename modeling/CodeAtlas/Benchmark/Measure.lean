import CodeAtlas.Benchmark.SelfCheck
import CodeAtlas.Text.Pattern
import CodeAtlas.Value.JsonReader
import CodeAtlas.Value.JsonWriter

/-!
# Rounds of measurement

A round takes the coverage of all benchmarks, then the share of time, then the check whether benchmarks check
themselves; the last two only when there is a program for them. It prints what it finds and adds a line to the file
of rounds; the next round takes its number from the count of those lines and is judged against them (`Stop.judge`). A
child program that reports does so in the last line it prints, as a data document.
-/

namespace CodeAtlas

structure Round where
  number : Nat
  time : Binary64
  coverage : Coverage
  benchmarks : Nat
  seconds : Binary64
  shares : TimeShares
  check : SelfCheck

namespace Round

def toValue (r : Round) (sincePrevious : Binary64) : Value :=
  .ofFields [
    ("round", .nat r.number),
    ("ts", .float (r.time.roundTo 3)),
    ("wall_since_prev_s", .float (sincePrevious.roundTo 3)),
    ("coverage_pct", .float (r.coverage.percent.roundTo 3)),
    ("covered_lines", .int r.coverage.covered),
    ("num_statements", .int r.coverage.statements),
    ("n_bench_fns", .nat r.benchmarks),
    ("n_bench_errors", .nat r.coverage.failures),
    ("cov_measure_s", .float (r.seconds.roundTo 3)),
    ("repo_time_pct", .record (r.shares.shares.map fun s => (s.1, .float s.2))),
    ("n_below_repo_time", (r.shares.low?.map Value.nat).getD .null),
    ("semcheck", .record (r.check.rows.map fun c => (c.1.name, .text c.2.word))),
    ("n_not_self_checking", .nat r.check.bad)]

def summary (r : Round) : String :=
  let parts := [s!"{r.benchmarks} benches", r.coverage.percent.fixed 1 ++ "% covered"] ++ r.shares.summary ++
    r.check.summary ++ ["measured in " ++ r.seconds.fixed 1 ++ "s"]
  s!"[round {r.number}: " ++ Text.join ", " parts ++ "]"

end Round

/-- The lines of earlier rounds, blank ones apart. -/
structure RoundLog where
  lines : List String := []

namespace RoundLog

def ofText (s : String) : RoundLog := ⟨(Text.lines s).filter fun l => !Text.isBlankText l⟩

def next (l : RoundLog) : Nat := l.lines.length + 1

def rounds? (l : RoundLog) : Option (List Value) := l.lines.mapM fun s => (Json.parse s).toOption

def sinceLast (rounds : List Value) (now : Binary64) : Loose Binary64 :=
  match rounds.getLast? with
  | none => .ok .zero
  | some r => do
    let before ← r.getD "ts" (.float now)
    match before with
    | .atom (.text _) => .error (.mismatch "not a number")
    | v => return now.add (← v.toFloat).negate

def low? (r : Value) : Loose (Option Int) := do
  match ← r.get "n_below_repo_time" with
  | .atom (.int n) => return some n
  | .atom (.bool b) => return some (if b then 1 else 0)
  | _ => return none

end RoundLog

/-- Why no further round is worth while. -/
inductive Stop where
  | allHigh
  /-- Rounds have not made the count smaller; the best count so far. -/
  | noProgress (best : Int)
  deriving DecidableEq, Repr

namespace Stop

def leastCoverage : Binary64 := .ofInt 60

def patience : Nat := 3

def least? : List Int → Option Int
  | [] => none
  | n :: ns => some (ns.foldl min n)

def stalled? (counts : List Int) : Option Int :=
  let (before, recent) := counts.splitAt (counts.length - patience)
  match least? before, least? recent with
  | some b, some r => if b ≤ r then some b else none
  | _, _ => none

def judge (earlier : List Int) (r : Round) : Option Stop :=
  match r.shares.low? with
  | none => none
  | some low =>
    if r.coverage.percent.lt leastCoverage then none
    else if low = 0 then some allHigh
    else (stalled? (earlier ++ [(low : Int)])).map noProgress

def reason : Stop → String
  | allHigh => "0 below"
  | noProgress best => s!"no improvement in 3 rounds; best {best} below"

def line (s : Stop) : String :=
  ">>> STOP: repo_time converged (" ++ s.reason ++ "). Finalize microbench.py now. <<<"

end Stop

/-- How a child program ended: with a code and what it printed, past its limit of time, or never started. -/
inductive ChildEnd where
  | done (code : Int) (out err : String)
  | late
  | missing
  deriving DecidableEq, Repr, Inhabited

/-- Why a child program gave no report. -/
inductive Trouble where
  | late (limit : Nat)
  | missing
  | unreadable (document : String) (error : Json.Error)
  | unfit (fault : Fault)

def Fault.kindWord : Fault → String
  | .noOperation _ _ => "AttributeError"
  | .notIndexable _ => "TypeError"
  | .notIterable _ => "TypeError"
  | .noLength _ => "TypeError"
  | .notKey _ => "TypeError"
  | .mismatch _ => "TypeError"
  | .missingKey _ => "KeyError"
  | .outOfRange _ => "IndexError"
  | .invalid _ => "ValueError"
  | .badNumber _ => "ValueError"
  | .reservedField _ => "KeyError"
  | .divisionByZero => "ZeroDivisionError"
  | .badDocument _ => "JSONDecodeError"

def Trouble.text : Trouble → String
  | .late limit => s!"TimeoutExpired: Command 'x' timed out after {limit} seconds"
  | .missing => "FileNotFoundError: x"
  | .unreadable doc e => "JSONDecodeError: " ++ Json.Error.message doc e
  | .unfit f => f.kindWord ++ ": " ++ f.message

namespace ChildEnd

def lastLine (out : String) : String := ((Text.lines (Text.trim out)).getLast?).getD ""

def report (limit : Nat) : ChildEnd → Except Trouble Value
  | .late => .error (.late limit)
  | .missing => .error .missing
  | .done _ out _ =>
    match Json.parse (lastLine out) with
    | .ok v => .ok v
    | .error e => .error (.unreadable (lastLine out) e)

def read {α : Type} (limit : Nat) (reading : Value → Loose α) (c : ChildEnd) : Except Trouble α := do
  match reading (← c.report limit) with
  | .ok a => .ok a
  | .error f => .error (.unfit f)

end ChildEnd

/-- What a round starts from: the texts of files that are there, and how child programs will end. -/
structure MeasureSetting where
  coverage : Option String := none
  benchmarks : Option String := none
  log : Option String := none
  coverageRun : ChildEnd := .done 0 "" ""
  shareRun : Option ChildEnd := none
  changeListing : ChildEnd := .done 0 "" ""
  checkRun : Option ChildEnd := none
  seconds : Binary64
  now : Binary64

structure ChildCall where
  name : String
  limit : Option Nat
  deriving DecidableEq, Repr

structure MeasureReport where
  exit : Option Int := none
  out : String
  err : String
  logged : Option String
  calls : List ChildCall

inductive MeasureBreak where
  | late
  | missing
  /-- The coverage document cannot be read, or is not what it should be. -/
  | unfit (fault : Fault)

namespace Measure

def shareLimit : Nat := 120

def listingLimit : Nat := 30

def checkLimit : Nat := 300

def benchmarkHead : Pattern :=
  .all [.word "def", .blanks1, .word "bench_", .some1 isWordChar, .blanks, .char '(']

def countBenchmarks (text : String) : Nat :=
  ((Chars.splitOn ['\n'] text.toList).filter fun l => (benchmarkHead.matchAt (.start l)).isSome).length

def linesOut (lines : List String) : String := String.join (lines.map (· ++ "\n"))

def noted {α : Type} (what : String) (default : α) (r : Except Trouble α) : α × String :=
  match r with
  | .ok a => (a, "")
  | .error t => (default, "[" ++ what ++ " runner: " ++ t.text ++ "]\n")

def shares (s : MeasureSetting) : TimeShares × String × List ChildCall :=
  match s.shareRun with
  | none => ({}, "", [])
  | some c =>
    let (t, note) := noted "repotime" {} (c.read shareLimit TimeShares.ofValue)
    (t, note, [⟨"repotime", some shareLimit⟩])

def modified : ChildEnd → List String
  | .done _ out _ => SelfCheck.modifiedFiles out
  | _ => []

def check (s : MeasureSetting) : SelfCheck × String × List ChildCall :=
  match s.checkRun with
  | none => ({}, "", [])
  | some c =>
    let (rows, note) := noted "semcheck" [] (c.read checkLimit CheckRow.allOf)
    (.ofRows (modified s.changeListing) rows, note, [⟨"git", some listingLimit⟩, ⟨"semcheck", some checkLimit⟩])

def conclusion (log : RoundLog) (r : Round) : Option (String × Option Stop) := do
  let rounds ← log.rounds?
  let since ← (RoundLog.sinceLast rounds r.time).toOption
  let counts ← (rounds.mapM RoundLog.low?).toOption
  return (Json.write {} (r.toValue since) ++ "\n", Stop.judge (counts.filterMap id) r)

def complete (s : MeasureSetting) (coverage : Coverage) (err : String) : MeasureReport :=
  let (shares, shareNote, shareCalls) := shares s
  let (check, checkNote, checkCalls) := check s
  let log := RoundLog.ofText (s.log.getD "")
  let round : Round :=
    { number := log.next
      time := s.now
      coverage
      benchmarks := countBenchmarks (s.benchmarks.getD "")
      seconds := s.seconds
      shares
      check }
  let ended := conclusion log round
  let stop := match ended.bind (·.2) with
    | some reason => ["", reason.line]
    | none => []
  { out := linesOut (coverage.table ++ shares.sections ++ check.sections ++ ["", round.summary] ++ stop)
    err := err ++ shareNote ++ checkNote
    logged := match ended with
      | some e => some e.1
      | none => s.log.map fun _ => ""
    calls := ⟨"cov_runner", none⟩ :: (shareCalls ++ checkCalls) }

def failed (s : MeasureSetting) (code : Int) (out err : String) : MeasureReport :=
  { exit := some (if code = 0 then 1 else code)
    out := linesOut ["coverage measurement failed (exit " ++ toString code ++ ")", out]
    err
    logged := s.log.map fun _ => ""
    calls := [⟨"cov_runner", none⟩] }

def readCoverage (text : String) : Loose Coverage :=
  match Json.parse text with
  | .ok v => Coverage.ofValue v
  | .error e => .error (.badDocument (Json.Error.message text e))

end Measure

def measure (s : MeasureSetting) : Except MeasureBreak MeasureReport :=
  match s.coverageRun, s.coverage with
  | .late, _ => .error .late
  | .missing, _ => .error .missing
  | .done code out err, none => .ok (Measure.failed s code out err)
  | .done code out err, some text =>
    if code ≠ 0 then .ok (Measure.failed s code out err)
    else
      match Measure.readCoverage text with
      | .error f => .error (.unfit f)
      | .ok c => .ok (Measure.complete s c err)

end CodeAtlas
