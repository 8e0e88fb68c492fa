/-!
# Kinds of relations

The kinds of relations between classes, with how strong they are and how they are drawn.
-/

namespace CodeAtlas

inductive Strength where
  | strong
  | medium
  | weak
  deriving DecidableEq

namespace Strength

def all : List Strength := [strong, medium, weak]

def name : Strength → String
  | strong => "strong"
  | medium => "medium"
  | weak => "weak"

def rank : Strength → Nat
  | strong => 0
  | medium => 1
  | weak => 2

end Strength

inductive RelationKind where
  | extends
  | implements
  | composition
  | aggregation
  | uses
  | dependency
  | association
  deriving DecidableEq

namespace RelationKind

def all : List RelationKind :=
  [.extends, implements, composition, aggregation, uses, dependency, association]

def name : RelationKind → String
  | .extends => "extends"
  | implements => "implements"
  | composition => "composition"
  | aggregation => "aggregation"
  | uses => "uses"
  | dependency => "dependency"
  | association => "association"

def heading : RelationKind → String
  | .extends => "EXTENDS"
  | implements => "IMPLEMENTS"
  | composition => "COMPOSITION"
  | aggregation => "AGGREGATION"
  | uses => "USES"
  | dependency => "DEPENDENCY"
  | association => "ASSOCIATION"

def ofName? (s : String) : Option RelationKind := all.find? (·.name == s)

def strength : RelationKind → Strength
  | .extends => .strong
  | implements => .strong
  | composition => .medium
  | aggregation => .medium
  | association => .medium
  | uses => .weak
  | dependency => .weak

def arrow : RelationKind → String
  | .extends => "--|>"
  | implements => "..|>"
  | composition => "*--"
  | aggregation => "o--"
  | uses => "-->"
  | dependency => "..>"
  | association => "--"

def binds : RelationKind → Bool
  | .extends => true
  | implements => true
  | composition => true
  | dependency => true
  | _ => false

end RelationKind

end CodeAtlas
