import CodeAtlas.Repository.Tree

/-!
# Source files of a tree

* `Discovery.find`: the source files below a path, in the order of a walk from the top down;
* `Discovery.groups`: files by language;
* `Discovery.package`: the package that the place of a file stands for.

What is found may be limited in number, size and ending. The limits are loosely typed: a search stops at the
first file that a limit cannot be applied to, and keeps what it found.
-/

namespace CodeAtlas.Discovery

def languages : List (String × String) :=
  [("PYTHON", "python"), ("JAVA", "java"), ("CSHARP", "csharp"), ("JAVASCRIPT", "javascript"),
    ("TYPESCRIPT", "typescript"), ("CPP", "cpp"), ("C", "c"), ("HTML", "html"), ("CSS", "css")]

def extensions : List (String × String) :=
  [(".py", "python"), (".java", "java"), (".cs", "csharp"), (".js", "javascript"), (".ts", "typescript"),
    (".cpp", "cpp"), (".cc", "cpp"), (".cxx", "cpp"), (".hpp", "cpp"), (".c", "c"), (".h", "c"),
    (".html", "html"), (".htm", "html"), (".css", "css")]

/-- What a search is limited to. An absent list of endings stands for all known ones, an absent size for the
largest usual one. -/
structure Limits where
  extensions : Value := .null
  maxFiles : Value := .nat 1000
  maxSize : Value := .null

def usualSize : Nat := 500000

def compareTo (n : Nat) (limit : Value) (operator : String) : Loose (Option Ordering) :=
  match limit with
  | .atom a =>
    match a.number? with
    | some x => .ok (Atom.compareNumbers? (.inl n) x)
    | none => .error (.mismatch s!"'{operator}' not supported between instances of 'int' and '{limit.kindName}'")
  | v => .error (.mismatch s!"'{operator}' not supported between instances of 'int' and '{v.kindName}'")

def Limits.isReached (l : Limits) (found : Nat) : Loose Bool := do
  let o ← compareTo found l.maxFiles ">="
  return o == some .gt || o == some .eq

def Limits.wants (l : Limits) (extension : String) : Loose Bool :=
  (l.extensions.orElse (.texts (Discovery.extensions.map (·.1)))).holdsText extension

def Limits.exceeds (l : Limits) (size : Nat) : Loose Bool := do
  let limit := if l.maxSize.isNull then .nat usualSize else l.maxSize
  return (← compareTo size limit ">") == some .gt

def Limits.admits (l : Limits) (path : String) (size? : Option Nat) : Loose Bool := do
  if ← l.wants (Path.extension path) then
    match size? with
    | some size => return !(← l.exceeds size)
    | none => return false
  else return false

structure Candidate where
  path : String
  name : String
  size? : Option Nat

def candidates (start : String) (visits : List Entry.Visit) : List Candidate :=
  visits.flatMap fun v => v.files.map fun f =>
    ⟨(v.place ++ [f.1]).foldl Path.join start, f.1, f.2⟩

/-- Go through files until a limit is reached or cannot be applied. -/
def collect (l : Limits) (found : List String) : List Candidate → List String
  | [] => found
  | c :: cs =>
    match l.isReached found.length with
    | .ok false =>
      if Skip.file c.name then collect l found cs
      else
        match l.admits c.path c.size? with
        | .ok true => collect l (found ++ [c.path]) cs
        | .ok false => collect l found cs
        | .error _ => found
    | _ => found

def find (root : Entry) (path : String) (l : Limits) : List String :=
  collect l [] (candidates path (root.visits (fun n => !Skip.folder n) path))

def isSource (root : Entry) (path : String) (l : Limits) : Loose Bool :=
  let size? := match root.find? path with
    | some (.file c) => some c.size
    | some (.folder _) => some 4096
    | _ => none
  l.admits path size?

def extensionOf (file : Value) : Loose String := do return Path.extension (← file.asPath)

def addTo (groups : Record) (group : Atom) (file : Value) : Record :=
  match Record.get? group groups with
  | some (.list fs) => Record.put group (.list (fs ++ [file])) groups
  | _ => Record.put group (.list [file]) groups

def tableOr (table : Value) : Value :=
  table.orElse (.ofFields (extensions.map fun e => (e.1, .text e.2)))

def groups (files table : Value) : Loose Record := do
  (← files.items).foldlM (fun acc f => do
    let e ← extensionOf f
    let g ← (tableOr table).getD e (.text "unknown")
    return addTo acc (← g.key) f) []

def package (file directory : String) : String :=
  match Path.relative? file directory with
  | none => "main"
  | some way =>
    let name := Text.trimWhere (Text.replace (Path.parent way) "/" ".") (· == '.')
    if name == "" then "main" else name

def directoryOf (v : Value) : Loose String := if v.isNull then .ok "." else v.asPath

def packageOf (file directory : Value) : String :=
  match file.asPath, directoryOf directory with
  | .ok f, .ok d => package f d
  | _, _ => "main"

def wayTo (file directory : Value) : Value :=
  match file.asPath, directoryOf directory with
  | .ok f, .ok d => ((Path.relative? f d).map Value.text).getD file
  | _, _ => file

structure Statistics where
  files : Nat := 0
  folders : Nat := 0
  size : Nat := 0
  endings : Record := []

def Statistics.addFile (s : Statistics) (f : String × Option Nat) : Statistics :=
  match f.2 with
  | none => { s with files := s.files + 1 }
  | some n =>
    let e := Atom.text (Path.extension f.1)
    let before := match Record.get? e s.endings with
      | some (.atom (.int k)) => k
      | _ => 0
    { s with files := s.files + 1, size := s.size + n, endings := Record.put e (.int (before + 1)) s.endings }

def Statistics.addVisit (s : Statistics) (v : Entry.Visit) : Statistics :=
  v.files.foldl Statistics.addFile { s with folders := s.folders + v.folders.length }

def statistics (root : Entry) (path : String) : Statistics :=
  (root.visits (fun n => !Skip.isHidden n) path).foldl Statistics.addVisit {}

def Statistics.toValue (s : Statistics) : Value :=
  .ofFields [("total_files", .nat s.files), ("total_dirs", .nat s.folders), ("total_size", .nat s.size),
    ("file_types", .record s.endings)]

end CodeAtlas.Discovery
