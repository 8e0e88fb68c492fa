/-!
# Cycles of a directed graph

`cycles?` searches a graph, given by its arrows, depth first from each source in order of first mention. The search
keeps the nodes that it has entered and not left. Each time it meets one of them, the part of the path from there on
is a cycle. A cycle is listed once.

* `Search.close?`: what it does when it meets a node that it has not left;
* `search`, `cycles?`: the search from one node, and from all of them.

A search gives nothing when it looks for a node on a path that does not hold it, when it leaves a node that it has not
entered, or when it goes deeper than `bound`.
-/

namespace CodeAtlas.Graph

variable {α : Type} [BEq α]

def distinctFrom (seen : List α) : List α → List α
  | [] => []
  | a :: as => if seen.contains a then distinctFrom seen as else a :: distinctFrom (a :: seen) as

def sources (arrows : List (α × α)) : List α := distinctFrom [] (arrows.map (·.1))

def targets (arrows : List (α × α)) (a : α) : List α := (arrows.filter (·.1 == a)).map (·.2)

/-- What a search has seen, which nodes it has entered and not left, the latest first, and what it found. -/
structure Search (α : Type) where
  visited : List α := []
  active : List α := []
  cycles : List (List α) := []

def fromNode? (a : α) : List α → Option (List α)
  | [] => none
  | b :: path => if b == a then some (b :: path) else fromNode? a path

namespace Search

def enter (s : Search α) (a : α) : Search α := { s with visited := a :: s.visited, active := a :: s.active }

def leave? (s : Search α) (a : α) : Option (Search α) :=
  if s.active.contains a then some { s with active := s.active.erase a } else none

def addCycle (s : Search α) (c : List α) : Search α :=
  if s.cycles.contains c then s else { s with cycles := s.cycles ++ [c] }

def close? (s : Search α) (path : List α) (b : α) : Option (Search α) :=
  (fromNode? b path).map fun c => s.addCycle (c ++ [b])

end Search

def follow (visit : α → Search α → Option (Search α)) (path : List α) (s : Search α) (b : α) : Option (Search α) :=
  if !s.visited.contains b then visit b s
  else if s.active.contains b then s.close? path b
  else some s

def search (arrows : List (α × α)) : Nat → List α → α → Search α → Option (Search α)
  | 0, _, _, _ => none
  | fuel + 1, path, a, s => do
    let s ← (targets arrows a).foldlM (follow (search arrows fuel (path ++ [a])) (path ++ [a])) (s.enter a)
    s.leave? a

def bound (arrows : List (α × α)) : Nat := 2 * arrows.length + 1

def searchSource (arrows : List (α × α)) (s : Search α) (a : α) : Option (Search α) :=
  if s.visited.contains a then some s else search arrows (bound arrows) [] a s

def cycles? (arrows : List (α × α)) : Option (List (List α)) :=
  ((sources arrows).foldlM (searchSource arrows) {}).map (·.cycles)

end CodeAtlas.Graph
