import CodeAtlas.Text.Alphabet
import CodeAtlas.Text.Search

/-!
# Patterns

A pattern describes texts; matching tries its alternatives in a fixed order and gives the first way that
lets the whole pattern succeed. Repetition is of single characters only, so matching is a structural
recursion on the pattern and, inside a repetition, on the text.

* `Pattern.run`: match at a place and go on with a continuation, which may refuse and so ask for the next
  way;
* `Pattern.replaceAll`, `Pattern.split`: what stands between those matches.
-/

namespace CodeAtlas

/-- A place in a text: the character before it, its position, and the text from there on. -/
structure Place where
  before : Option Char
  pos : Nat
  rest : List Char

def Place.start (s : List Char) : Place := ⟨none, 0, s⟩

def Place.isBoundary (s : Place) : Bool :=
  (s.before.map isWordChar).getD false != (s.rest.head?.map isWordChar).getD false

def Place.upTo (s t : Place) : List Char := s.rest.take (t.pos - s.pos)

inductive Pattern where
  | empty
  | one (p : Char → Bool)
  | many (p : Char → Bool)
  /-- Any number of characters of a class, as few as possible. -/
  | few (p : Char → Bool)
  | seq (a b : Pattern)
  | either (a b : Pattern)
  | maybe (a : Pattern)
  | group (n : Nat) (a : Pattern)
  /-- The empty text where a word begins or ends. -/
  | boundary

/-- The texts kept while matching, the latest first. -/
abbrev Groups := List (Nat × List Char)

namespace Pattern

def runMany {β : Type} (p : Char → Bool) (k : Place → Option β) : Option Char → Nat → List Char → Option β
  | before, pos, [] => k ⟨before, pos, []⟩
  | before, pos, c :: cs =>
    if p c then
      match runMany p k (some c) (pos + 1) cs with
      | some r => some r
      | none => k ⟨before, pos, c :: cs⟩
    else k ⟨before, pos, c :: cs⟩

def runFew {β : Type} (p : Char → Bool) (k : Place → Option β) : Option Char → Nat → List Char → Option β
  | before, pos, [] => k ⟨before, pos, []⟩
  | before, pos, c :: cs =>
    match k ⟨before, pos, c :: cs⟩ with
    | some r => some r
    | none => if p c then runFew p k (some c) (pos + 1) cs else none

def run {β : Type} : Pattern → Place → Groups → (Place → Groups → Option β) → Option β
  | empty, s, g, k => k s g
  | one p, s, g, k =>
    match s.rest with
    | c :: cs => if p c then k ⟨some c, s.pos + 1, cs⟩ g else none
    | [] => none
  | many p, s, g, k => runMany p (fun t => k t g) s.before s.pos s.rest
  | few p, s, g, k => runFew p (fun t => k t g) s.before s.pos s.rest
  | seq a b, s, g, k => a.run s g fun t h => b.run t h k
  | either a b, s, g, k =>
    match a.run s g k with
    | some r => some r
    | none => b.run s g k
  | maybe a, s, g, k =>
    match a.run s g k with
    | some r => some r
    | none => k s g
  | group n a, s, g, k => a.run s g fun t h => k t ((n, s.upTo t) :: h)
  | boundary, s, g, k => if s.isBoundary then k s g else none

/-- A match: where it starts and ends, and the texts it kept. -/
structure Match where
  first : Place
  last : Place
  groups : Groups

def Match.group? (m : Match) (n : Nat) : Option String :=
  (m.groups.find? (·.1 == n)).map fun g => String.ofList g.2

def Match.text (m : Match) (n : Nat) : String := (m.group? n).getD ""

def matchAt (p : Pattern) (s : Place) : Option Match := p.run s [] fun t g => some ⟨s, t, g⟩

def findAllFrom (p : Pattern) : Nat → Option Char → Nat → List Char → List Match
  | _, _, _, [] => []
  | resume, before, pos, c :: cs =>
    if pos < resume then findAllFrom p resume (some c) (pos + 1) cs
    else match p.matchAt ⟨before, pos, c :: cs⟩ with
      | none => findAllFrom p resume (some c) (pos + 1) cs
      | some m => m :: findAllFrom p m.last.pos (some c) (pos + 1) cs

def findAll (p : Pattern) (s : List Char) : List Match := findAllFrom p 0 none 0 s

def findFirstFrom (p : Pattern) : Option Char → Nat → List Char → Option Match
  | _, _, [] => none
  | before, pos, c :: cs =>
    match p.matchAt ⟨before, pos, c :: cs⟩ with
    | some m => some m
    | none => findFirstFrom p (some c) (pos + 1) cs

def findFirst (p : Pattern) (s : List Char) : Option Match := findFirstFrom p none 0 s

def splitFrom (p : Pattern) (acc : List Char) : Nat → Option Char → Nat → List Char → List (List Char)
  | _, _, _, [] => [acc.reverse]
  | resume, before, pos, c :: cs =>
    if pos < resume then splitFrom p acc resume (some c) (pos + 1) cs
    else match p.matchAt ⟨before, pos, c :: cs⟩ with
      | none => splitFrom p (c :: acc) resume (some c) (pos + 1) cs
      | some m => acc.reverse :: splitFrom p [] m.last.pos (some c) (pos + 1) cs

def split (p : Pattern) (s : List Char) : List (List Char) := splitFrom p [] 0 none 0 s

def replaceAll (p : Pattern) (new s : List Char) : List Char := Chars.join new (p.split s)

def interleave : List (List Char) → List (List Char) → List Char
  | p :: ps, t :: ts => p ++ t ++ interleave ps ts
  | ps, [] => ps.flatten
  | [], _ => []

def replaceWith (p : Pattern) (f : Match → List Char) (s : List Char) : List Char :=
  interleave (p.split s) ((p.findAll s).map f)

def all : List Pattern → Pattern
  | [] => empty
  | [p] => p
  | p :: q :: ps => seq p (all (q :: ps))

def char (c : Char) : Pattern := one (· == c)

def word (s : String) : Pattern := all (s.toList.map char)

def oneOf : List String → Pattern
  | [] => one fun _ => false
  | [s] => word s
  | s :: t :: ss => either (word s) (oneOf (t :: ss))

def some1 (p : Char → Bool) : Pattern := seq (one p) (many p)

def blanks : Pattern := many isBlank

def blanks1 : Pattern := some1 isBlank

def name (first more : Char → Bool) : Pattern := seq (one first) (many more)

def ident : Pattern := name isNameStart isNameChar

end Pattern

end CodeAtlas
