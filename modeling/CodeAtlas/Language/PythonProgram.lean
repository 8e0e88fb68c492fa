import CodeAtlas.Language.PythonExpression
import CodeAtlas.Language.PythonLexer

/-!
# Reading Python programs

Statements, blocks and patterns, and `parse`, which reads a whole source text. A text that is no program
gives nothing; there is no partial result.
-/

namespace CodeAtlas.Python

open Reader

/-! ### Simple statements -/

def dottedName : Read String := do
  let parts ← sepBy identifier (op ".")
  return ".".intercalate parts

def asName : Read Unit := do
  if ← accept (word "as") then
    let _ ← identifier
    return ()

def importModules : Read Node := do
  word "import"
  let names ← sepBy (do let n ← dottedName; asName; return n) (op ",")
  return .importStmt names

def importNames : Read Node := do
  word "from"
  let dots ← many (op "." <|> op "...")
  let source ← option dottedName
  require (!dots.isEmpty || source.isSome)
  word "import"
  let one : Read Unit := do
    let _ ← identifier
    asName
  if ← accept (op "*") then return .importFrom source
  else if ← accept (op "(") then
    let _ ← sepBy one (op ",")
    let _ ← accept (op ",")
    op ")"
    return .importFrom source
  else
    let _ ← sepBy one (op ",")
    return .importFrom source

variable (below : Below)

def assigned : Read Node := do
  if ← ahead (isWord "yield") then yielded below else starExpressions below

def assignedChain (targets : List Node) : Nat → Read Node
  | 0 => fail
  | n + 1 => do
    let e ← assigned below
    if ← accept (op "=") then
      require (isTarget true e)
      assignedChain (targets ++ [e]) n
    else return .assign targets e

def augmented : List String :=
  ["+=", "-=", "*=", "@=", "/=", "%=", "&=", "|=", "^=", "<<=", ">>=", "**=", "//="]

def expressionStatement : Read Node := do
  if ← ahead (isWord "yield") then return .exprStmt (← yielded below)
  else
    let e ← starExpressions below
    match ← peek? with
    | some (.op s) =>
      if s == ":" then
        require (isPlace e)
        op ":"
        let hint ← expression below
        if ← accept (op "=") then return .annAssign e hint (some (← assigned below))
        else return .annAssign e hint none
      else if s == "=" then
        require (isTarget true e)
        op "="
        fun ts => assignedChain below [e] (ts.length + 1) ts
      else if augmented.contains s then
        require (isPlace e)
        op s
        return .augAssign e (← assigned below)
      else return .exprStmt e
    | _ => return .exprStmt e

def nameList : Read Node := do
  let _ ← sepBy identifier (op ",")
  return .plainStmt

def simpleStatement : Read Node := do
  match ← peek? with
  | some (.name ⟨s, _⟩) =>
    if s == "return" then
      word s
      return .returnStmt (← option (starExpressions below))
    else if s == "import" then importModules
    else if s == "from" then importNames
    else if s == "raise" then
      word s
      match ← option (expression below) with
      | none => return .raiseStmt none none
      | some e =>
        if ← accept (word "from") then return .raiseStmt (some e) (some (← expression below))
        else return .raiseStmt (some e) none
    else if s == "pass" || s == "break" || s == "continue" then
      word s
      return .plainStmt
    else if s == "del" then
      word s
      let first ← bitOr below
      let more ← commaTail (bitOr below)
      let targets := first :: more.getD []
      require (areTargets false targets)
      return .deleteStmt targets
    else if s == "assert" then
      word s
      let t ← expression below
      if ← accept (op ",") then return .assertStmt t (some (← expression below))
      else return .assertStmt t none
    else if s == "global" || s == "nonlocal" then
      word s
      nameList
    else expressionStatement below
  | _ => expressionStatement below

def newline : Read Unit := next fun t => match t with
  | .newline => some ()
  | _ => none

def indent : Read Unit := next fun t => match t with
  | .indent => some ()
  | _ => none

def dedent : Read Unit := next fun t => match t with
  | .dedent => some ()
  | _ => none

def simpleLine : Read (List Node) := do
  let ss ← sepBy (simpleStatement below) (op ";")
  let _ ← accept (op ";")
  newline
  return ss

/-! ### Patterns -/

def bound : Read Unit := do
  require !(← ahead (isWord "_"))
  let _ ← identifier
  require !(← ahead fun t => isOp "." t || isOp "(" t || isOp "=" t)

def starPattern : Read (Bool × Node) := do
  if ← accept (op "*") then
    if ← accept (word "_") then return (true, .matchAs none)
    else
      bound
      return (true, .matchAs none)
  else return (false, ← below .pattern)

def numberToken : Read Bool := next fun t => match t with
  | .number b => some b
  | _ => none

def numberLiteral : Read Node := do
  let _ ← accept (op "-")
  let imaginary ← numberToken
  if ← accept (op "+" <|> op "-") then
    require !imaginary
    require (← numberToken)
    return .constant
  else return .constant

def literal : Read Node := do
  match ← peek? with
  | some (.number _) => numberLiteral
  | some (.op "-") => numberLiteral
  | some (.string _) => strings below
  | some (.formatted _) => strings below
  | some (.name ⟨s, _⟩) =>
    require (s == "None" || s == "True" || s == "False")
    word s
    return .constant
  | _ => fail

def memberChain : Read (Node × Nat) := do
  let first ← identifier
  let more ← many (do op "."; identifier)
  return (more.foldl Node.member (.name first), more.length)

def mappingEntry : Read (Node × Node) := do
  let key ← literal below <|> (do
    let (n, k) ← memberChain
    require (k != 0)
    return n)
  op ":"
  return (key, ← below .pattern)

def mappingPattern : Read Node := do
  let entries ← option (sepBy (mappingEntry below) (op ","))
  let entries := entries.getD []
  let comma ← if entries.isEmpty then pure true else accept (op ",")
  let rest ← if comma then accept (op "**") else pure false
  if rest then
    bound
    let _ ← accept (op ",")
  op "\x7d"
  return .matchMapping (entries.map (·.1)) (entries.map (·.2))

def classArgument : Read (Bool × Node) := do
  let n ← ahead isName
  let eq ← ahead2 (isOp "=")
  if n && eq then
    let _ ← identifier
    op "="
    return (true, ← below .pattern)
  else return (false, ← below .pattern)

def classPattern (cls : Node) : Read Node := do
  if ← accept (op ")") then return .matchClass cls [] []
  else
    let args ← sepBy (classArgument below) (op ",")
    let _ ← accept (op ",")
    op ")"
    let named := args.dropWhile (!·.1)
    require (named.all (·.1))
    return .matchClass cls ((args.takeWhile (!·.1)).map (·.2)) (named.map (·.2))

def patternList (close : String) : Read (List (Bool × Node) × Bool) := do
  if ← accept (op close) then return ([], true)
  else
    let first ← starPattern below
    let more ← many (do op ","; starPattern below)
    let comma ← accept (op ",")
    op close
    return (first :: more, comma || !more.isEmpty)

def closedPattern : Read Node := do
  match ← peek? with
  | some (.op s) =>
    if s == "(" then
      op s
      let (ps, comma) ← patternList below ")"
      match ps, comma with
      | [(star, p)], false =>
        require !star
        return p
      | _, _ => return .matchSequence (ps.map (·.2))
    else if s == "[" then
      op s
      let (ps, _) ← patternList below "]"
      return .matchSequence (ps.map (·.2))
    else if s == "\x7b" then
      op s
      mappingPattern below
    else return .matchValue (← literal below)
  | some t =>
    if isName t then
      let (n, k) ← memberChain
      if ← accept (op "(") then classPattern below n
      else
        require !(← ahead (isOp "="))
        return if k == 0 then .matchAs none else .matchValue n
    else return .matchValue (← literal below)
  | none => fail

def pattern : Read Node := do
  let ps ← sepBy (closedPattern below) (op "|")
  let p := match ps with
    | [p] => p
    | _ => .matchOr ps
  (do
    word "as"
    bound
    return .matchAs (some p)) <|> pure p

def casePatterns : Read Node := do
  let (star, first) ← starPattern below
  let more ← many (do op ","; starPattern below)
  let comma ← accept (op ",")
  if more.isEmpty && !comma then
    require !star
    return first
  else return .matchSequence (first :: more.map (·.2))

/-! ### Statements with blocks -/

def matchCase : Read Node := do
  word "case"
  let p ← casePatterns below
  let guard ← do
    if ← accept (word "if") then some <$> namedExpression below else pure none
  op ":"
  return .matchCase p guard (← below .block)

def matchStatement : Read Node := do
  word "match"
  let first ← starNamed below
  let more ← commaTail (starNamed below)
  let subject ← match more with
    | none => do
      require !(isStarred first)
      pure first
    | some rest => pure (.tuple (first :: rest))
  op ":"
  newline
  indent
  let cases ← some1 (matchCase below)
  dedent
  return .matchStmt subject cases

def suite : Read (List Node) := do
  op ":"
  below .block

def elseSuite : Read (List Node) := do
  if ← accept (word "else") then suite below else return []

def ifStatement : Read Node := do
  word "if"
  let test ← namedExpression below
  let body ← suite below
  let more ← many (do
    word "elif"
    let t ← namedExpression below
    return (t, ← suite below))
  let last ← elseSuite below
  return .ifStmt test body (more.foldr (fun c orelse => [.ifStmt c.1 c.2 orelse]) last)

def withItem : Read Node := do
  let e ← expression below
  if ← accept (word "as") then
    let t ← targetElement below
    require (isTarget true t)
    require (← ahead fun t => isOp "," t || isOp ")" t || isOp ":" t)
    return .withItem e (some t)
  else return .withItem e none

def withItems : Read (List Node) :=
  (do
    op "("
    let is ← sepBy (withItem below) (op ",")
    let _ ← accept (op ",")
    op ")"
    op ":"
    return is) <|>
  (do
    let is ← sepBy (withItem below) (op ",")
    op ":"
    return is)

def handler (group : Bool) : Read Node := do
  word "except"
  if group then op "*"
  let kind ← if group then some <$> expression below else option (expression below)
  if kind.isSome then asName
  return .handler kind (← suite below)

def tryStatement : Read Node := do
  word "try"
  let body ← suite below
  let handlers ← some1 (handler below true) <|> many (handler below false)
  let orelse ← if handlers.isEmpty then pure [] else elseSuite below
  let final ← do
    if ← accept (word "finally") then some <$> suite below else pure none
  require (!handlers.isEmpty || final.isSome)
  return .tryStmt body handlers orelse (final.getD [])

def functionDef (async : Bool) (decorators : List Node) : Read Node := do
  word "def"
  let name ← identifier
  op "("
  let ps ← signature below true ")"
  op ")"
  let returns ← do
    if ← accept (op "->") then some <$> expression below else pure none
  return .functionDef async name ps (← suite below) decorators returns

def classDef (decorators : List Node) : Read Node := do
  word "class"
  let name ← declared
  let (bases, ks) ← do
    if ← accept (op "(") then arguments below false else pure ([], [])
  return .classDef name bases ks (← suite below) decorators

def decorator : Read Node := do
  op "@"
  let e ← namedExpression below
  newline
  return e

def forStatement : Read Node := do
  word "for"
  let t ← loopTargets below
  word "in"
  let iter ← starExpressions below
  let body ← suite below
  return .forStmt t iter body (← elseSuite below)

def withStatement : Read Node := do
  word "with"
  let items ← withItems below
  return .withStmt items (← below .block)

def statement : Read (List Node) := do
  match ← peek? with
  | some (.op "@") =>
    let ds ← some1 (decorator below)
    if ← ahead (isWord "class") then return [← classDef below ds]
    else
      let async ← accept (word "async")
      return [← functionDef below async ds]
  | some (.name ⟨s, _⟩) =>
    if s == "def" then return [← functionDef below false []]
    else if s == "class" then return [← classDef below []]
    else if s == "if" then return [← ifStatement below]
    else if s == "for" then return [← forStatement below]
    else if s == "while" then
      word s
      let t ← namedExpression below
      let body ← suite below
      return [.whileStmt t body (← elseSuite below)]
    else if s == "try" then return [← tryStatement below]
    else if s == "with" then return [← withStatement below]
    else if s == "async" then
      word s
      if ← ahead (isWord "def") then return [← functionDef below true []]
      else if ← ahead (isWord "for") then return [← forStatement below]
      else return [← withStatement below]
    else if s == "match" then (do return [← matchStatement below]) <|> simpleLine below
    else simpleLine below
  | _ => simpleLine below

def block : Read (List Node) :=
  (do
    newline
    indent
    let ss ← some1 (statement below)
    dedent
    return ss.flatten) <|> simpleLine below

/-! ### Whole programs -/

def readWith : {α : Type} → Phrase α → Read α
  | _, .expression => expression below
  | _, .namedExpression => namedExpression below
  | _, .starExpressions => starExpressions below
  | _, .disjunction => disjunction below
  | _, .inversion => inversion below
  | _, .bitOr => bitOr below
  | _, .factor => factor below
  | _, .block => block below
  | _, .pattern => pattern below

def readDepth : (depth : Nat) → {α : Type} → Phrase α → Read α
  | 0, _, _ => fail
  | n + 1, _, p => readWith (fun q => readDepth n q) p

def program : Read Node := do
  let ss ← many (statement below)
  next fun t => match t with
    | .finish => some ()
    | _ => none
  return .file ss.flatten

def parse (source : String) : Option Node := do
  let ts ← tokens source
  let (tree, _) ← program (fun p => readDepth (source.length + 2) p) ts
  return tree

end CodeAtlas.Python
