import CodeAtlas.Model.Identifier

/-!
# Trees of Python programs

`Node` has a constructor for each construct of the language, with the parts that have a meaning of their own.
What no analysis asks for is left out: the values of constants, the operators, the names of parameters.
-/

namespace CodeAtlas.Python

inductive Node where
  | file (body : List Node)
  -- expressions
  | name (id : String)
  | constant
  | joinedString (fields : List Node)
  | formattedField (value : Node) (spec : Option Node)
  | member (value : Node) (attr : String)
  | subscript (value index : Node)
  | call (func : Node) (args keywords : List Node)
  | keywordArg (value : Node)
  | starred (value : Node)
  | boolOp (values : List Node)
  | binOp (left right : Node)
  | unaryOp (operand : Node)
  | compare (left : Node) (comparators : List Node)
  | ifExpr (test body orelse : Node)
  | lambdaExpr (params body : Node)
  | namedExpr (target value : Node)
  | tuple (elements : List Node)
  | listExpr (elements : List Node)
  | setExpr (elements : List Node)
  | dictExpr (keys values : List Node)
  | elementComp (element : Node) (generators : List Node)
  | dictComp (key value : Node) (generators : List Node)
  | generator (target iter : Node) (conditions : List Node)
  | slice (lower upper step : Option Node)
  | awaitExpr (value : Node)
  | yieldExpr (value : Option Node)
  -- parameters
  | parameters (positional args : List Node) (vararg : Option Node) (keywordOnly keywordDefaults : List Node)
      (kwarg : Option Node) (defaults : List Node)
  | parameter (hint : Option Node)
  -- statements
  | functionDef (async : Bool) (name : String) (params : Node) (body decorators : List Node)
      (returns : Option Node)
  | classDef (name : Identifier) (bases keywords body decorators : List Node)
  | returnStmt (value : Option Node)
  | deleteStmt (targets : List Node)
  | assign (targets : List Node) (value : Node)
  | augAssign (target value : Node)
  | annAssign (target hint : Node) (value : Option Node)
  | forStmt (target iter : Node) (body orelse : List Node)
  | whileStmt (test : Node) (body orelse : List Node)
  | ifStmt (test : Node) (body orelse : List Node)
  | withStmt (items body : List Node)
  | withItem (context : Node) (target : Option Node)
  | raiseStmt (exc cause : Option Node)
  | tryStmt (body handlers orelse final : List Node)
  | handler (kind : Option Node) (body : List Node)
  | assertStmt (test : Node) (message : Option Node)
  | importStmt (modules : List String)
  | importFrom (source : Option String)
  | plainStmt
  | exprStmt (value : Node)
  | matchStmt (subject : Node) (cases : List Node)
  | matchCase (pattern : Node) (guard : Option Node) (body : List Node)
  -- patterns
  | matchValue (value : Node)
  | matchSequence (patterns : List Node)
  | matchMapping (keys patterns : List Node)
  | matchClass (cls : Node) (patterns keywordPatterns : List Node)
  | matchAs (pattern : Option Node)
  | matchOr (patterns : List Node)

namespace Node

def children : Node → List Node
  | file body => body
  | name _ => []
  | constant => []
  | joinedString fields => fields
  | formattedField v s => v :: s.toList
  | member v _ => [v]
  | subscript v i => [v, i]
  | call f as ks => f :: (as ++ ks)
  | keywordArg v => [v]
  | starred v => [v]
  | boolOp vs => vs
  | binOp l r => [l, r]
  | unaryOp v => [v]
  | compare l cs => l :: cs
  | ifExpr t b e => [t, b, e]
  | lambdaExpr p b => [p, b]
  | namedExpr t v => [t, v]
  | tuple es => es
  | listExpr es => es
  | setExpr es => es
  | dictExpr ks vs => ks ++ vs
  | elementComp e gs => e :: gs
  | dictComp k v gs => k :: v :: gs
  | generator t i cs => t :: i :: cs
  | slice l u s => l.toList ++ (u.toList ++ s.toList)
  | awaitExpr v => [v]
  | yieldExpr v => v.toList
  | parameters p a v k kd kw d => p ++ (a ++ (v.toList ++ (k ++ (kd ++ (kw.toList ++ d)))))
  | parameter a => a.toList
  | functionDef _ _ p b ds r => p :: (b ++ (ds ++ r.toList))
  | classDef _ bs ks b ds => bs ++ (ks ++ (b ++ ds))
  | returnStmt v => v.toList
  | deleteStmt ts => ts
  | assign ts v => ts ++ [v]
  | augAssign t v => [t, v]
  | annAssign t a v => t :: a :: v.toList
  | forStmt t i b e => t :: i :: (b ++ e)
  | whileStmt t b e => t :: (b ++ e)
  | ifStmt t b e => t :: (b ++ e)
  | withStmt is b => is ++ b
  | withItem c t => c :: t.toList
  | raiseStmt e c => e.toList ++ c.toList
  | tryStmt b h e f => b ++ (h ++ (e ++ f))
  | handler k b => k.toList ++ b
  | assertStmt t m => t :: m.toList
  | importStmt _ => []
  | importFrom _ => []
  | plainStmt => []
  | exprStmt v => [v]
  | matchStmt s cs => s :: cs
  | matchCase p g b => p :: (g.toList ++ b)
  | matchValue v => [v]
  | matchSequence ps => ps
  | matchMapping ks ps => ks ++ ps
  | matchClass c ps ks => c :: (ps ++ ks)
  | matchAs p => p.toList
  | matchOr ps => ps

noncomputable def sizes : List Node → Nat
  | [] => 0
  | n :: ns => sizeOf n + sizes ns

@[simp] theorem sizes_nil : sizes [] = 0 := rfl

@[simp] theorem sizes_cons (n : Node) (ns : List Node) : sizes (n :: ns) = sizeOf n + sizes ns := rfl

@[simp] theorem sizes_append (ms ns : List Node) : sizes (ms ++ ns) = sizes ms + sizes ns := by
  induction ms with
  | nil => simp
  | cons m ms ih => rw [List.cons_append, sizes_cons, sizes_cons, ih, Nat.add_assoc]

theorem sizes_lt (ns : List Node) : sizes ns < sizeOf ns := by
  induction ns with
  | nil => simp
  | cons n ns ih => simp only [sizes_cons, List.cons.sizeOf_spec]; omega

theorem sizes_toList_lt (o : Option Node) : sizes o.toList < sizeOf o := by
  cases o with
  | _ => simp

/-- The parts of a construct are smaller than the construct, all together. -/
theorem sizes_children_lt (n : Node) : sizes n.children < sizeOf n := by
  cases n <;> simp [children] <;> grind [sizes_lt, sizes_toList_lt]

theorem sizes_flatMap_children_le (ns : List Node) : sizes (ns.flatMap children) ≤ sizes ns := by
  induction ns with
  | nil => simp
  | cons n ns ih =>
    have h := sizes_children_lt n
    simp only [List.flatMap_cons, sizes_append, sizes_cons]
    omega

theorem sizes_flatMap_children_lt (n : Node) (ns : List Node) :
    sizes ((n :: ns).flatMap children) < sizes (n :: ns) := by
  have h := sizes_children_lt n
  have t := sizes_flatMap_children_le ns
  simp only [List.flatMap_cons, sizes_append, sizes_cons]
  omega

def levels : List Node → List Node
  | [] => []
  | n :: ns => (n :: ns) ++ levels ((n :: ns).flatMap children)
termination_by ns => sizes ns
decreasing_by exact sizes_flatMap_children_lt n ns

def walk (n : Node) : List Node := levels [n]

end Node

end CodeAtlas.Python
