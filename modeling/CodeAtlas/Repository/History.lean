import CodeAtlas.Number.Reading
import CodeAtlas.Value.Access

/-!
# The history of a repository

What is known about a repository's history comes from running commands of its version control and reading what
they print. A session hands out the outcomes of commands one after the other and keeps the commands that were
run.

* `Outcome.printed`: what is read of a print;
* `Commit.ofLine?`, `Commit.ofLastLine?`: a commit from a printed line;
* `fileHistory`, `Overview.gather`: the commits of a file, and what is known about a repository.

The version control itself is not described: what its commands print is any text, and a command may fail or not end.
-/

namespace CodeAtlas

structure Command where
  words : List Value
  timeout : Nat

/-- How a command ended: with a code and what was read of its print, or not at all. -/
inductive Outcome where
  | done (code : Int) (out : String)
  | broken

def Outcome.printed (code : Int) (text : String) : Outcome := .done code (Text.plainLines text)

/-- The outcomes that commands will have, and the commands run so far. -/
structure Session where
  outcomes : List Outcome
  sent : List Command := []

def Session.run (s : Session) (c : Command) : Outcome × Session :=
  match s.outcomes with
  | [] => (.done 0 "", { s with sent := s.sent ++ [c] })
  | o :: os => (o, ⟨os, s.sent ++ [c]⟩)

def Session.read {α : Type} (s : Session) (c : Command) (f : String → α) : Option α × Session :=
  match s.run c with
  | (.done code out, s) => (if code = 0 then some (f out) else none, s)
  | (.broken, s) => (none, s)

/-- A step of gathering facts: a command, and what its print adds to what is known; a print that makes no sense
adds nothing and ends the gathering. -/
structure Gathering (α : Type) where
  command : Command
  learn : String → α → Option α

/-- Gather facts; a command that cannot be run ends this. -/
def Session.gather {α : Type} (s : Session) (known : α) : List (Gathering α) → α × Session
  | [] => (known, s)
  | g :: gs =>
    match s.run g.command with
    | (.broken, s) => (known, s)
    | (.done code out, s) =>
      if code = 0 then
        match g.learn out known with
        | some more => s.gather more gs
        | none => (known, s)
      else s.gather known gs

def Command.inside (repository : String) (timeout : Nat) (words : List Value) : Command :=
  ⟨[.text "git", .text "-C", .text repository] ++ words, timeout⟩

structure Commit where
  hash : String
  author : String
  email : Option String := none
  date : String
  message : String
  deriving DecidableEq, Repr

namespace Commit

def toValue (c : Commit) : Value :=
  .ofFields ([("hash", .text c.hash), ("author", .text c.author)] ++
    (match c.email with
      | some e => [("email", .text e)]
      | none => []) ++
    [("date", .text c.date), ("message", .text c.message)])

def lineFormat : String := "--pretty=%H|%an|%ad|%s"

def lastFormat : String := "--pretty=%H|%an|%ae|%ad|%s"

def ofLine? (line : String) : Option Commit :=
  match Text.splitOn line "|" with
  | [hash, author, date, message] => some { hash, author, date, message }
  | _ => none

def ofLastLine? (line : String) : Option Commit :=
  match Text.splitOn line "|" with
  | [hash, author, email, date, message] => some { hash, author, email := some email, date, message }
  | _ => none

def ofPrint (out : String) : List Commit :=
  ((Text.splitOn (Text.trim out) "\n").filter (· != "")).filterMap ofLine?

end Commit

structure Overview where
  isRepository : Bool
  remote : Option String := none
  branch : Option String := none
  commits : Int := 0
  last : Option Commit := none

namespace Overview

def gatherings (repository : String) : List (Gathering Overview) :=
  let command := fun words : List String => Command.inside repository 10 (words.map Value.text)
  [ ⟨command ["remote", "get-url", "origin"], fun out o => some { o with remote := some (Text.trim out) }⟩,
    ⟨command ["rev-parse", "--abbrev-ref", "HEAD"], fun out o => some { o with branch := some (Text.trim out) }⟩,
    ⟨command ["rev-list", "--count", "HEAD"], fun out o =>
      (Number.readInt? 10 out.toList).map fun n => { o with commits := n }⟩,
    ⟨command ["log", "-1", Commit.lastFormat], fun out o =>
      some (match Commit.ofLastLine? (Text.trim out) with
        | some c => { o with last := some c }
        | none => o)⟩ ]

def gather (s : Session) (repository : String) (isRepository : Bool) : Overview × Session :=
  if isRepository then s.gather { isRepository } (gatherings repository) else ({ isRepository }, s)

def toValue (o : Overview) : Value :=
  .ofFields [("is_git_repo", .bool o.isRepository), ("remote_url", (o.remote.map Value.text).getD .null),
    ("branch", (o.branch.map Value.text).getD .null), ("commit_count", .int o.commits),
    ("last_commit", (o.last.map Commit.toValue).getD .null)]

end Overview

structure HistoryCounts where
  commits : Int := 0
  contributors : Nat := 0
  firstDate : Option String := none
  lastDate : Option String := none
  branches : Nat := 0

namespace HistoryCounts

def printedLines (out : String) : List String := Text.splitOn (Text.trim out) "\n"

def gatherings (repository : String) : List (Gathering HistoryCounts) :=
  let command := fun words : List String => Command.inside repository 10 (words.map Value.text)
  [ ⟨command ["rev-list", "--count", "HEAD"], fun out h =>
      (Number.readInt? 10 out.toList).map fun n => { h with commits := n }⟩,
    ⟨command ["shortlog", "-sn", "HEAD"], fun out h => some { h with contributors := (printedLines out).length }⟩,
    ⟨command ["log", "--reverse", "--pretty=%ad", "--date=short"], fun out h =>
      some { h with firstDate := (printedLines out).head? }⟩,
    ⟨command ["log", "-1", "--pretty=%ad", "--date=short"], fun out h =>
      some { h with lastDate := some (Text.trim out) }⟩,
    ⟨command ["branch", "-a"], fun out h => some { h with branches := (printedLines out).length }⟩ ]

def gather (s : Session) (repository : String) (isRepository : Bool) : HistoryCounts × Session :=
  if isRepository then s.gather {} (gatherings repository) else ({}, s)

def toValue (h : HistoryCounts) : Value :=
  .ofFields [("total_commits", .int h.commits), ("total_contributors", .nat h.contributors),
    ("first_commit_date", (h.firstDate.map Value.text).getD .null),
    ("last_commit_date", (h.lastDate.map Value.text).getD .null), ("total_branches", .nat h.branches)]

end HistoryCounts

/-- The commits that changed a file, the newest first. -/
def fileHistory (s : Session) (repository : String) (file most : Value) : List Commit × Session :=
  let (commits, s) := s.read (.inside repository 30
    [.text "log", .text ("-" ++ most.display), .text Commit.lineFormat, .text "--", file]) Commit.ofPrint
  (commits.getD [], s)

def changedFiles (s : Session) (repository : String) (since : Value) : List String × Session :=
  let (files, s) := s.read (.inside repository 30
    ([.text "diff", .text "--name-only"] ++ (if since.truthy then [since, .text "HEAD"] else []))) fun out =>
      ((Text.splitOn out "\n").map Text.trim).filter (· != "")
  (files.getD [], s)

def clone (s : Session) (url target : Value) (temporary : String) : Option Value × Session :=
  let target := target.orText temporary
  s.read ⟨[.text "git", .text "clone", .text "--depth", .text "1", url, target], 300⟩ fun _ => target

end CodeAtlas
