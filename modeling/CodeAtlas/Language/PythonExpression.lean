import CodeAtlas.Language.PythonSyntax
import CodeAtlas.Language.PythonToken
import CodeAtlas.Language.Reader
import CodeAtlas.Text.Compose

/-!
# Reading Python expressions

The readers of this module take a `Below`, which reads the phrases that may be nested inside the one being
read: every nested phrase stands behind at least one token, so the depth of nesting is bounded by the length
of the text. `PythonProgram` ties the knot.

Targets of assignments are read as expressions and then looked at: a target is a name, a member, a
subscript, or a list of targets.
-/

namespace CodeAtlas.Python

open Reader

abbrev Read := Reader Token

/-- The phrases that are read through nesting, with what they give. -/
inductive Phrase : Type → Type where
  | expression : Phrase Node
  | namedExpression : Phrase Node
  | starExpressions : Phrase Node
  | disjunction : Phrase Node
  | inversion : Phrase Node
  | bitOr : Phrase Node
  | factor : Phrase Node
  | block : Phrase (List Node)
  | pattern : Phrase Node

abbrev Below := {α : Type} → Phrase α → Read α

/-! ### Single tokens -/

def keywords : List String :=
  ["False", "None", "True", "and", "as", "assert", "async", "await", "break", "class", "continue", "def",
    "del", "elif", "else", "except", "finally", "for", "from", "global", "if", "import", "in", "is",
    "lambda", "nonlocal", "not", "or", "pass", "raise", "return", "try", "while", "with", "yield"]

def isOp (s : String) : Token → Bool
  | .op t => t == s
  | _ => false

def isWord (s : String) : Token → Bool
  | .name t => t.text == s
  | _ => false

def isName : Token → Bool
  | .name t => !keywords.contains t.text
  | _ => false

def op (s : String) : Read Unit := next fun t => if isOp s t then some () else none

def word (s : String) : Read Unit := next fun t => if isWord s t then some () else none

def known (s : String) : String :=
  if s.toList.all (·.toNat < 128) then s else String.ofList (composed s.toList)

theorem known_ne_empty {s : String} (h : s ≠ "") : known s ≠ "" := by
  unfold known
  split
  · exact h
  · intro e
    exact composed_ne_nil (fun n => h (String.toList_eq_nil_iff.mp n)) (String.ofList_eq_empty_iff.mp e)

def declared : Read Identifier := next fun t =>
  match t with
  | .name s => if keywords.contains s.text then none else some ⟨known s.text, known_ne_empty s.text_ne⟩
  | _ => none

def identifier : Read String := do return (← declared).text

def commaTail (r : Read Node) : Read (Option (List Node)) := do
  let more ← many (do op ","; r)
  let comma ← accept (op ",")
  return if more.isEmpty && !comma then none else some more

def tupled (r : Read Node) : Read Node := do
  let e ← r
  match ← commaTail r with
  | none => return e
  | some more => return .tuple (e :: more)

/-! ### Targets -/

mutual

def isTarget (stars : Bool) : Node → Bool
  | .name _ => true
  | .member _ _ => true
  | .subscript _ _ => true
  | .tuple es => areTargets stars es
  | .listExpr es => areTargets stars es
  | .starred v => stars && isTarget stars v
  | _ => false

def areTargets (stars : Bool) : List Node → Bool
  | [] => true
  | e :: es => isTarget stars e && areTargets stars es

end

def isPlace : Node → Bool
  | .name _ => true
  | .member _ _ => true
  | .subscript _ _ => true
  | _ => false

def isStarred : Node → Bool
  | .starred _ => true
  | _ => false

/-! ### Operators -/

def leftChain (operand : Read Node) (ops : List String) : Read Node := do
  let first ← operand
  let rest ← many (do
    next fun t => match t with
      | .op s => if ops.contains s then some () else none
      | _ => none
    operand)
  return rest.foldl Node.binOp first

def comparisonSign : Read Unit :=
  (next fun t => match t with
    | .op s => if ["==", "!=", "<=", "<", ">=", ">"].contains s then some () else none
    | _ => none) <|>
  (do word "not"; word "in") <|> word "in" <|> (do word "is"; word "not") <|> word "is"

/-! ### Parts of displays and calls -/

def namedAhead : Read Bool := do
  let n ← ahead isName
  let w ← ahead2 (isOp ":=")
  return n && w

variable (below : Below)

def starNamed : Read Node := do
  if ← accept (op "*") then return .starred (← below .bitOr)
  else below .namedExpression

def targetElement : Read Node := do
  if ← accept (op "*") then return .starred (← below .bitOr)
  else below .bitOr

def loopTargets : Read Node := do
  let t ← tupled (targetElement below)
  require (isTarget true t)
  return t

def generatorClause : Read Node := do
  let _ ← accept (word "async")
  word "for"
  let target ← loopTargets below
  word "in"
  let iter ← below .disjunction
  let conditions ← many (do word "if"; below .disjunction)
  return .generator target iter conditions

def generatorAhead : Read Bool := ahead fun t => isWord "for" t || isWord "async" t

def yielded : Read Node := do
  word "yield"
  if ← accept (word "from") then return .yieldExpr (some (← below .expression))
  else return .yieldExpr (← option (below .starExpressions))

def inRound : Read Node := do
  if ← accept (op ")") then return .tuple []
  else if ← ahead (isWord "yield") then
    let e ← yielded below
    op ")"
    return e
  else
    let e ← starNamed below
    if ← generatorAhead then
      require !(isStarred e)
      let gs ← some1 (generatorClause below)
      op ")"
      return .elementComp e gs
    else match ← commaTail (starNamed below) with
      | none =>
        op ")"
        require !(isStarred e)
        return e
      | some more =>
        op ")"
        return .tuple (e :: more)

def inSquare : Read Node := do
  if ← accept (op "]") then return .listExpr []
  else
    let e ← starNamed below
    if ← generatorAhead then
      require !(isStarred e)
      let gs ← some1 (generatorClause below)
      op "]"
      return .elementComp e gs
    else
      let more ← commaTail (starNamed below)
      op "]"
      return .listExpr (e :: more.getD [])

def dictEntry : Read (Option Node × Node) := do
  if ← accept (op "**") then return (none, ← below .bitOr)
  else
    let k ← below .expression
    op ":"
    return (some k, ← below .expression)

def dictRest (first : Option Node × Node) : Read Node := do
  let more ← many (do op ","; dictEntry below)
  let _ ← accept (op ",")
  op "\x7d"
  let entries := first :: more
  return .dictExpr (entries.filterMap (·.1)) (entries.map (·.2))

def inCurly : Read Node := do
  if ← accept (op "\x7d") then return .dictExpr [] []
  else if ← ahead (isOp "**") then
    let first ← dictEntry below
    dictRest below first
  else
    let named ← namedAhead
    let e ← starNamed below
    if ← acceptIf (!named && !isStarred e) (op ":") then
      let v ← below .expression
      if ← generatorAhead then
        let gs ← some1 (generatorClause below)
        op "\x7d"
        return .dictComp e v gs
      else dictRest below (some e, v)
    else if ← generatorAhead then
      require !(isStarred e)
      let gs ← some1 (generatorClause below)
      op "\x7d"
      return .elementComp e gs
    else
      let more ← commaTail (starNamed below)
      op "\x7d"
      return .setExpr (e :: more.getD [])

inductive Argument where
  | positional (value : Node)
  | unpacked (value : Node)
  | named (value : Node)
  | unpackedNamed (value : Node)

def argument : Read Argument := do
  if ← accept (op "*") then return .unpacked (.starred (← below .expression))
  else if ← accept (op "**") then return .unpackedNamed (.keywordArg (← below .expression))
  else
    let n ← ahead isName
    let eq ← ahead2 (isOp "=")
    if n && eq then
      let _ ← identifier
      op "="
      return .named (.keywordArg (← below .expression))
    else return .positional (← below .namedExpression)

def argumentsInOrder (seenNamed seenUnpacked : Bool) : List Argument → Bool
  | [] => true
  | .positional _ :: r => !seenNamed && !seenUnpacked && argumentsInOrder seenNamed seenUnpacked r
  | .unpacked _ :: r => !seenUnpacked && argumentsInOrder seenNamed seenUnpacked r
  | .named _ :: r => argumentsInOrder true seenUnpacked r
  | .unpackedNamed _ :: r => argumentsInOrder seenNamed true r

def Argument.value? : Argument → Option Node
  | positional v => some v
  | unpacked v => some v
  | _ => none

def Argument.named? : Argument → Option Node
  | named v => some v
  | unpackedNamed v => some v
  | _ => none

def arguments (generators : Bool) : Read (List Node × List Node) := do
  if ← accept (op ")") then return ([], [])
  else
    let first ← argument below
    let more ← generatorAhead
    match first, more && generators with
    | .positional e, true =>
      let gs ← some1 (generatorClause below)
      op ")"
      return ([.elementComp e gs], [])
    | _, _ =>
      let rest ← many (do op ","; argument below)
      let _ ← accept (op ",")
      op ")"
      let all := first :: rest
      require (argumentsInOrder false false all)
      return (all.filterMap (·.value?), all.filterMap (·.named?))

def subscriptPart : Read Node := do
  if ← accept (op "*") then return .starred (← below .expression)
  else
    let named ← namedAhead
    let colon ← ahead (isOp ":")
    let lower ← if colon then pure none else some <$> below .namedExpression
    match lower, named with
    | some e, true => return e
    | _, _ =>
      if ← accept (op ":") then
        let upper ← option (below .expression)
        if ← accept (op ":") then
          return .slice lower upper (← option (below .expression))
        else return .slice lower upper none
      else match lower with
        | some e => return e
        | none => fail

def subscriptIndex : Read Node := do
  let first ← subscriptPart below
  let more ← commaTail (subscriptPart below)
  op "]"
  match more with
  | none => return if isStarred first then .tuple [first] else first
  | some rest => return .tuple (first :: rest)

/-! ### Strings with expressions -/

def fieldNodes : Nat → List Field → Option (List Node)
  | 0, _ => none
  | _ + 1, [] => some []
  | n + 1, .mk tokens spec :: rest => do
    let (e, left) ← below .starExpressions tokens
    match left with
    | [.newline, .finish] =>
      let inner ← fieldNodes n spec
      let more ← fieldNodes n rest
      return .formattedField e (if spec.isEmpty then none else some (.joinedString inner)) :: more
    | _ => none

mutual

def Field.count : Field → Nat
  | .mk _ spec => 1 + countFields spec

def countFields : List Field → Nat
  | [] => 0
  | f :: fs => f.count + countFields fs

end

def strings : Read Node := fun ts => do
  let run := ts.takeWhile fun t => match t with
    | .string _ => true
    | .formatted _ => true
    | _ => false
  let bytes := run.any fun t => match t with
    | .string b => b
    | _ => false
  let text := run.any fun t => match t with
    | .string b => !b
    | _ => true
  let fields := run.flatMap fun t => match t with
    | .formatted fs => fs
    | _ => []
  if run.isEmpty || (bytes && text) then none
  else
    let nodes ← fieldNodes below (countFields fields + 1) fields
    return (if nodes.isEmpty then .constant else .joinedString nodes, ts.drop run.length)

/-! ### Expressions, from the strongest binding to the weakest -/

def atom : Read Node := do
  match ← peek? with
  | some (.name ⟨s, _⟩) =>
    if s == "None" || s == "True" || s == "False" then
      word s
      return .constant
    else return .name (← identifier)
  | some (.number _) =>
    next fun _ => some ()
    return .constant
  | some (.string _) => strings below
  | some (.formatted _) => strings below
  | some (.op s) =>
    op s
    if s == "(" then inRound below
    else if s == "[" then inSquare below
    else if s == "\x7b" then inCurly below
    else if s == "..." then return .constant
    else fail
  | _ => fail

def trailer : Read (Node → Node) :=
  (do
    op "."
    let n ← identifier
    return fun v => .member v n) <|>
  (do
    op "("
    let (as, ks) ← arguments below true
    return fun v => .call v as ks) <|>
  (do
    op "["
    let i ← subscriptIndex below
    return fun v => .subscript v i)

def primary : Read Node := do
  let a ← atom below
  let steps ← many (trailer below)
  return steps.foldl (fun v f => f v) a

def power : Read Node := do
  let base ← do
    if ← accept (word "await") then pure (Node.awaitExpr (← primary below))
    else primary below
  if ← accept (op "**") then return .binOp base (← below .factor)
  else return base

def factor : Read Node := do
  if ← accept (op "+" <|> op "-" <|> op "~") then
    return .unaryOp (← below .factor)
  else power below

def term : Read Node := leftChain (factor below) ["*", "/", "//", "%", "@"]

def sum : Read Node := leftChain (term below) ["+", "-"]

def shift : Read Node := leftChain (sum below) ["<<", ">>"]

def bitOr : Read Node :=
  leftChain (leftChain (leftChain (shift below) ["&"]) ["^"]) ["|"]

def comparison : Read Node := do
  let first ← bitOr below
  let rest ← many (do comparisonSign; bitOr below)
  return if rest.isEmpty then first else .compare first rest

def inversion : Read Node := do
  if ← accept (word "not") then return .unaryOp (← below .inversion)
  else comparison below

def conjunction : Read Node := do
  let first ← inversion below
  let rest ← many (do word "and"; inversion below)
  return if rest.isEmpty then first else .boolOp (first :: rest)

def disjunction : Read Node := do
  let first ← conjunction below
  let rest ← many (do word "or"; conjunction below)
  return if rest.isEmpty then first else .boolOp (first :: rest)

/-! ### Parameters -/

structure Signature where
  positional : List Node := []
  args : List Node := []
  defaults : List Node := []
  slash : Bool := false
  star : Bool := false
  vararg : Option Node := none
  keywordOnly : List Node := []
  keywordDefaults : List Node := []
  kwarg : Option Node := none

def Signature.node? (s : Signature) : Option Node :=
  if s.star && s.vararg.isNone && s.keywordOnly.isEmpty then none
  else some (.parameters s.positional s.args s.vararg s.keywordOnly s.keywordDefaults s.kwarg s.defaults)

def parameter (hints starHints : Bool) : Read Node := do
  let _ ← identifier
  if ← acceptIf hints (op ":") then
    if ← acceptIf starHints (op "*") then return .parameter (some (.starred (← below .bitOr)))
    else return .parameter (some (← below .expression))
  else return .parameter none

def signatureItem (hints : Bool) (s : Signature) : Read Signature := do
  require s.kwarg.isNone
  if ← accept (op "/") then
    require (!s.slash && !s.star && !s.args.isEmpty)
    return { s with slash := true, positional := s.args, args := [] }
  else if ← accept (op "*") then
    require !s.star
    if ← ahead (isOp ",") then return { s with star := true }
    else
      let p ← parameter below hints true
      return { s with star := true, vararg := some p }
  else if ← accept (op "**") then
    let p ← parameter below hints false
    return { s with kwarg := some p }
  else
    let p ← parameter below hints false
    let d ← do
      if ← accept (op "=") then some <$> below .expression else pure none
    if s.star then
      return { s with
        keywordOnly := s.keywordOnly ++ [p], keywordDefaults := s.keywordDefaults ++ d.toList }
    else
      require (s.defaults.isEmpty || d.isSome)
      return { s with args := s.args ++ [p], defaults := s.defaults ++ d.toList }

def signatureItems (hints : Bool) (close : String) : Nat → Signature → Read Signature
  | 0, _ => fail
  | n + 1, s => do
    if ← ahead (isOp close) then return s
    else
      let s ← signatureItem below hints s
      if ← accept (op ",") then signatureItems hints close n s else return s

def signature (hints : Bool) (close : String) : Read Node := fun ts => do
  let (s, rest) ← signatureItems below hints close (ts.length + 1) {} ts
  let n ← s.node?
  return (n, rest)

/-! ### Whole expressions -/

def expression : Read Node := do
  if ← accept (word "lambda") then
    let ps ← signature below false ":"
    op ":"
    return .lambdaExpr ps (← below .expression)
  else
    let e ← disjunction below
    (do
      word "if"
      let t ← below .disjunction
      word "else"
      return .ifExpr t e (← below .expression)) <|> pure e

def namedExpression : Read Node := do
  if ← namedAhead then
    let n ← identifier
    op ":="
    return .namedExpr (.name n) (← below .expression)
  else
    let e ← expression below
    require !(← ahead (isOp ":="))
    return e

def starExpression : Read Node := do
  if ← accept (op "*") then return .starred (← bitOr below)
  else expression below

def starExpressions : Read Node := tupled (starExpression below)

end CodeAtlas.Python
