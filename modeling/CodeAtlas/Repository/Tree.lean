import CodeAtlas.Repository.Path
import CodeAtlas.Text.Encoding

/-!
# Trees of folders and files

A file holds octets, given as text, as octets or as a number of equal characters. Reading it gives text in
which every line ends with a line feed and from which what is no UTF-8 was dropped. A folder holds entries in ascending
order of their names; an entry is a file, a folder or a link. A link holds a path from the folder it stands in and may
lead nowhere.

* `Entry.put`, `Entry.remove`, `Entry.ensure`: changes of a tree;
* `Entry.locate?`: where a path leads once all links on it are followed.
-/

namespace CodeAtlas

inductive FileContent where
  | text (s : String)
  | octets (bs : List Nat)
  | filler (n : Nat)

namespace FileContent

def size : FileContent → Nat
  | text s => s.utf8ByteSize
  | octets bs => bs.length
  | filler n => n

def chars : FileContent → List Char
  | text s => s.toList
  | octets bs => Octets.text bs
  | filler n => List.replicate n 'x'

def read (c : FileContent) : String := String.ofList (Chars.plainLines c.chars)

def bytes : FileContent → List Nat
  | text s => s.toUTF8.toList.map UInt8.toNat
  | octets bs => bs
  | filler n => List.replicate n 120

def readAs (c : FileContent) (e : Encoding) : String :=
  match e.decode? c.bytes with
  | some cs => String.ofList (Chars.plainLines cs)
  | none => ""

end FileContent

inductive Entry where
  | file (content : FileContent)
  | folder (entries : List (String × Entry))
  | link (target : String)

namespace Entry

def empty : Entry := folder []

def entries : Entry → List (String × Entry)
  | folder es => es
  | _ => []

def isFolder : Entry → Bool
  | folder _ => true
  | _ => false

def putIn (name : String) (e : Entry) : List (String × Entry) → List (String × Entry)
  | [] => [(name, e)]
  | (n, f) :: es =>
    if n == name then (name, e) :: es
    else if decide (name < n) then (name, e) :: (n, f) :: es
    else (n, f) :: putIn name e es

def at? (e : Entry) : List String → Option Entry
  | [] => some e
  | n :: ns =>
    match e.entries.lookup n with
    | some f => f.at? ns
    | none => none

def put (e : Entry) (new : Entry) : List String → Entry
  | [] => new
  | n :: ns => folder (putIn n (((e.entries.lookup n).getD empty).put new ns) e.entries)

def remove (e : Entry) : List String → Entry
  | [] => e
  | [n] => folder (e.entries.filter (·.1 != n))
  | n :: ns =>
    match e.entries.lookup n with
    | some f => folder (putIn n (f.remove ns) e.entries)
    | none => e

/-- Where names lead before a link is followed. -/
inductive Stride where
  | arrived (place : List String)
  | lost
  /-- A link stands in the way: it holds a path from the folder `here`, and `rest` is still to be gone. -/
  | linked (here : List String) (target : String) (rest : List String)

def stride (root : Entry) (here : List String) : List String → Stride
  | [] => .arrived here
  | n :: ns =>
    if n == "." then stride root here ns
    else if n == ".." then stride root here.dropLast ns
    else match root.at? (here ++ [n]) with
      | none => .lost
      | some (link target) => .linked here target ns
      | some _ => stride root (here ++ [n]) ns

def maxLinks : Nat := 40

def follow? (root : Entry) (links : Nat) (here names : List String) : Option (List String) :=
  match stride root here names with
  | .arrived place => some place
  | .lost => none
  | .linked there target rest =>
    if Path.isAbsolute target then none
    else match links with
      | 0 => none
      | links + 1 => follow? root links there (Path.names target ++ rest)

def locate? (root : Entry) (path : String) : Option (List String) :=
  follow? root maxLinks [] (Path.names path)

def find? (root : Entry) (path : String) : Option Entry := (root.locate? path).bind root.at?

def isFolderAt (root : Entry) (path : String) : Bool :=
  match root.find? path with
  | some e => e.isFolder
  | none => false

def seen? (root : Entry) (here : List String) : Entry → Option Entry
  | link target =>
    if Path.isAbsolute target then none
    else (follow? root (maxLinks - 1) here (Path.names target)).bind root.at?
  | e => some e

def seenAsFolder (root : Entry) (here : List String) (e : Entry) : Bool :=
  match seen? root here e with
  | some f => f.isFolder
  | none => false

def seenSize? (root : Entry) (here : List String) (e : Entry) : Option Nat :=
  match seen? root here e with
  | some (file c) => some c.size
  | _ => none

/-- A folder on a walk: the names that lead to it, the folders in it that are to be entered or are links, and
the files in it with their sizes. -/
structure Visit where
  place : List String
  folders : List String
  files : List (String × Option Nat)

def visit (root : Entry) (keep : String → Bool) (start here : List String) (es : List (String × Entry)) : Visit where
  place := here
  folders := (es.filter fun e => seenAsFolder root (start ++ here) e.2 && keep e.1).map (·.1)
  files := (es.filter fun e => !seenAsFolder root (start ++ here) e.2).map fun e =>
    (e.1, seenSize? root (start ++ here) e.2)

mutual

def visitsFrom (root : Entry) (keep : String → Bool) (start here : List String) : Entry → List Visit
  | folder es => visit root keep start here es :: visitsIn root keep start here es
  | _ => []

def visitsIn (root : Entry) (keep : String → Bool) (start here : List String) : List (String × Entry) → List Visit
  | [] => []
  | (n, e) :: es =>
    (if keep n then visitsFrom root keep start (here ++ [n]) e else []) ++ visitsIn root keep start here es

end

def visits (root : Entry) (keep : String → Bool) (path : String) : List Visit :=
  match root.locate? path with
  | none => []
  | some start =>
    match root.at? start with
    | some e => visitsFrom root keep start [] e
    | none => []

def ensureFrom (root : Entry) (here : List String) : List String → Entry
  | [] => root
  | n :: ns =>
    if n == "." then ensureFrom root here ns
    else if n == ".." then ensureFrom root here.dropLast ns
    else match root.at? (here ++ [n]) with
      | none => ensureFrom (root.put empty (here ++ [n])) (here ++ [n]) ns
      | some _ =>
        match follow? root maxLinks here [n] with
        | some there =>
          if ((root.at? there).map isFolder).getD false then ensureFrom root there ns else root
        | none => root

def ensure (root : Entry) (path : String) : Entry := ensureFrom root [] (Path.names path)

def isTemporary (path : String) : Bool := ["tmp", "temp", "git_clone"].any (Text.contains path)

def clean (root : Entry) (path : String) : Entry :=
  let names := Path.names path
  if isTemporary path && root.isFolderAt path then
    match follow? root maxLinks [] names.dropLast, names.getLast? with
    | some above, some last =>
      match root.at? (above ++ [last]) with
      | some (folder _) => root.remove (above ++ [last])
      | _ => root
    | _, _ => root
  else root

end Entry

end CodeAtlas
