import CodeAtlas.Language.JavaPhrase

/-!
# Reading Java programs

Statements, declarations and `parse`, which reads a whole source text. A text that is no program gives
nothing.
-/

namespace CodeAtlas.Java

open Reader

/-! ### Variables -/

variable (below : Below)

def variableRest : Read (Option Node) := do
  dimensions
  if ← accept (tok "=") then return some (← initializer below) else return none

def variable1 : Read (String × Option Node) := do
  let n ← identifier
  return (n, ← variableRest below)

def localVariables : Read Node := do
  let marks ← variableModifiers below
  let _ ← typeOf below
  let vs ← sepBy (variable1 below) (tok ",")
  tok ";"
  return .other (marks ++ vs.filterMap (·.2))

/-! ### Declarations -/

def classDeclaration (mods : List String) (marks : List Node) : Read Node := do
  tok "class"
  let name ← declared
  typeParameters below
  let base ← do
    if ← accept (tok "extends") then some <$> typeOf below else pure none
  let interfaces ← do
    if ← accept (tok "implements") then typeList below else pure []
  return .classDecl mods marks name (← below .classBody) base interfaces

def interfaceDeclaration (marks : List Node) : Read Node := do
  tok "interface"
  let name ← declared
  typeParameters below
  let bases ← do
    if ← accept (tok "extends") then typeList below else pure []
  return .interfaceDecl marks name (← below .interfaceBody) bases

def enumDeclaration (marks : List Node) : Read Node := do
  tok "enum"
  let name ← identifier
  if ← accept (tok "implements") then
    let _ ← typeList below
  return .otherType name (marks ++ (← below .enumBody))

def annotationDeclaration (marks : List Node) : Read Node := do
  tok "@"
  tok "interface"
  let name ← identifier
  return .otherType name (marks ++ (← below .annotationBody))

def typeAfterModifiers (mods : List String) (marks : List Node) : Read (Option Node) := do
  match ← peek? with
  | none => return none
  | some t =>
    if t.text == "class" then return some (← classDeclaration below mods marks)
    else if t.text == "interface" then return some (← interfaceDeclaration below marks)
    else if t.text == "enum" then return some (← enumDeclaration below marks)
    else if ← looks [ofKind .mark, is "interface"] then return some (← annotationDeclaration below marks)
    else return none

def typeDeclaration : Read Node := do
  let (mods, marks) ← modifiers below (ofKind .modifier)
  match ← typeAfterModifiers below mods marks with
  | some n => return n
  | none => fail

def throwsClause : Read Unit := do
  if ← accept (tok "throws") then
    let _ ← sepBy qualified (tok ",")

def methodRest (mods : List String) (marks : List Node) (name : String)
    (arrays : Bool) : Read Node := do
  let ps ← formalParameters below
  if arrays then dimensions
  throwsClause
  let body ← do
    if ← ahead (is "\x7b") then below .block
    else
      tok ";"
      pure []
  return .method mods (marks ++ ps.flatMap (·.1)) name (ps.map (·.2)) body

def constructorRest (marks : List Node) : Read Node := do
  let ps ← formalParameters below
  throwsClause
  return .other (marks ++ ps.flatMap (·.1) ++ (← below .block))

def fieldRest (marks : List Node) (type name : String) : Read Node := do
  let first ← variableRest below
  let more ← many (do tok ","; variable1 below)
  tok ";"
  return .field marks type (name :: more.map (·.1)) ((first :: more.map (·.2)).filterMap id)

def constantRest (marks : List Node) (type name : String) : Read Node := do
  let value : Read Node := do
    dimensions
    tok "="
    initializer below
  let first ← value
  let more ← many (do
    tok ","
    let n ← identifier
    return (n, ← value))
  return .field marks type (name :: more.map (·.1)) (first :: more.map (·.2))

def memberDeclaration : Read Node := do
  let (mods, marks) ← modifiers below (ofKind .modifier)
  if ← accept (tok "void") then methodRest below mods marks (← identifier) false
  else if ← ahead (is "<") then
    typeParameters below
    if ← looks [ofKind .identifier, is "("] then
      let _ ← identifier
      constructorRest below marks
    else if ← accept (tok "void") then methodRest below mods marks (← identifier) false
    else
      let _ ← typeOf below
      methodRest below mods marks (← identifier) true
  else match ← typeAfterModifiers below mods marks with
    | some n => return n
    | none =>
      if ← looks [ofKind .identifier, is "("] then
        let _ ← identifier
        constructorRest below marks
      else
        let t ← typeOf below
        let name ← identifier
        if ← ahead (is "(") then methodRest below mods marks name true
        else fieldRest below marks t name

def classItem : Read (Option Node) := do
  if ← accept (tok ";") then return none
  else if ← looks [is "static", is "\x7b"] then
    tok "static"
    return some (.other (← below .block))
  else if ← ahead (is "\x7b") then return some (.other (← below .block))
  else return some (← memberDeclaration below)

def itemsToBrace (item : Read (Option Node)) : Read (List Node) := do
  let items ← whileAhead (fun t => !is "\x7d" t) item
  tok "\x7d"
  return items.filterMap id

def classBody : Read (List Node) := do
  tok "\x7b"
  itemsToBrace (classItem below)

def interfaceItem : Read (Option Node) := do
  if ← accept (tok ";") then return none
  else
    let (mods, marks) ← modifiers below (ofKind .modifier)
    match ← typeAfterModifiers below mods marks with
    | some n => return some n
    | none =>
      if ← ahead (is "<") then
        typeParameters below
        if !(← accept (tok "void")) then
          let _ ← typeOf below
        return some (← methodRest below mods marks (← identifier) true)
      else if ← accept (tok "void") then
        return some (← methodRest below mods marks (← identifier) false)
      else
        let t ← typeOf below
        let name ← identifier
        if ← ahead (is "(") then return some (← methodRest below mods marks name true)
        else
          let n ← constantRest below marks t name
          tok ";"
          return some n

def interfaceBody : Read (List Node) := do
  tok "\x7b"
  itemsToBrace (interfaceItem below)

def enumConstant : Read Node := do
  let marks ← many (do
    require (← annotationAhead)
    below .mark)
  let _ ← identifier
  let as ← do
    if ← ahead (is "(") then arguments below else pure []
  let body ← do
    if ← ahead (is "\x7b") then below .classBody else pure []
  return .other (marks ++ as ++ body)

def enumConstants : Nat → Read (List Node)
  | 0 => fail
  | n + 1 => do
    if ← ahead (fun t => is ";" t || is "\x7d" t) then return []
    else
      let c ← enumConstant below
      if ← accept (tok ",") then return c :: (← enumConstants n)
      else return [c]

def enumBody : Read (List Node) := do
  tok "\x7b"
  let cs ← do
    if ← accept (tok ",") then pure []
    else fun ts => enumConstants below (ts.length + 1) ts
  if ← accept (tok ";") then return cs ++ (← itemsToBrace (classItem below))
  else
    tok "\x7d"
    return cs

def annotationItem : Read (Option Node) := do
  let (mods, marks) ← modifiers below (ofKind .modifier)
  match ← typeAfterModifiers below mods marks with
  | some n => return some n
  | none =>
    let t ← typeOf below
    let name ← identifier
    let n ← do
      if ← accept (tok "(") then
        tok ")"
        dimensions
        let default ← do
          if ← accept (tok "default") then pure [← below .elementValue] else pure []
        pure (Node.other (marks ++ default))
      else constantRest below marks t name
    tok ";"
    return some n

def annotationBody : Read (List Node) := do
  tok "\x7b"
  itemsToBrace (annotationItem below)

/-! ### Statements -/

def bracketed : Read Node := do
  tok "("
  let e ← below .expression
  tok ")"
  return e

def expressionList : Read (List Node) := sepBy (below .expression) (tok ",")

def loopRest : Read (List Node) := do
  tok ";"
  let condition ← do
    if ← ahead (is ";") then pure [] else pure [← below .expression]
  tok ";"
  let update ← do
    if ← ahead (is ")") then pure [] else expressionList below
  return condition ++ update

def variableLoop : Read (List Node) := do
  let marks ← variableModifiers below
  let _ ← typeOf below
  let _ ← identifier
  dimensions
  if ← accept (tok ":") then return marks ++ [← below .expression]
  else
    let values ← do
      if ← ahead (is ";") then pure []
      else
        let first ← do
          if ← accept (tok "=") then some <$> initializer below else pure none
        let more ← many (do tok ","; variable1 below)
        pure ((first :: more.map (·.2)).filterMap id)
    return marks ++ values ++ (← loopRest below)

def loopHead : Read (List Node) :=
  variableLoop below <|> (do
    let init ← do
      if ← ahead (is ";") then pure [] else expressionList below
    return init ++ (← loopRest below))

def catchClause : Read (List Node) := do
  tok "catch"
  tok "("
  let _ ← variableModifiers below
  let _ ← sepBy qualified (tok "|")
  let _ ← identifier
  tok ")"
  below .block

def resources : Read (List Node) := do
  let one : Read (List Node) := do
    let marks ← variableModifiers below
    let _ ← referenceType below
    dimensions
    let _ ← identifier
    dimensions
    tok "="
    return marks ++ [← below .expression]
  tok "("
  let rs ← sepBy one (tok ";")
  let _ ← accept (tok ";")
  tok ")"
  return rs.flatten

def tryRest : Read Node := do
  let plain ← ahead (is "\x7b")
  let rs ← if plain then pure [] else resources below
  let body ← below .block
  let catches ← whileAhead (is "catch") (catchClause below)
  let final ← do
    if ← accept (tok "finally") then some <$> below .block else pure none
  require (!plain || !catches.isEmpty || final.isSome)
  return .other (rs ++ body ++ catches.flatten ++ final.getD [])

/-- Whether a statement of a block declares a type, a variable, either a variable or none, or none. -/
inductive Outlook where
  | type
  | variable
  | open
  | none

def afterBrackets : Nat → List Token → List Token
  | _, [] => []
  | depth, t :: ts =>
    if is "(" t then afterBrackets (depth + 1) ts
    else if is ")" t then
      match depth with
      | 0 => ts
      | d + 1 => afterBrackets d ts
    else afterBrackets depth ts

def afterName : List Token → List Token
  | p :: n :: ts => if is "." p then afterName ts else p :: n :: ts
  | ts => ts

def outlook (annotated : Bool) : Nat → List Token → Outlook
  | 0, _ => .none
  | _, [] => .none
  | n + 1, t :: ts =>
    if t.kind == .modifier then if t.text == "final" then outlook annotated n ts else .type
    else if t.kind == .mark && !((ts.head?.map (is "interface")).getD false) then
      match afterName (ts.drop 1) with
      | p :: rest => if is "(" p then outlook true n (afterBrackets 0 rest) else outlook true n (p :: rest)
      | [] => .none
    else if ["class", "enum", "interface", "@"].contains t.text then .type
    else if annotated || t.kind == .basicType then .variable
    else if t.kind == .identifier then .open
    else .none

def blockStatement (statement : Read Node) : Read Node := do
  if ← looks [ofKind .identifier, is ":"] then statement
  else if ← ahead (is "synchronized") then statement
  else
    match ← (fun ts => some (outlook false (ts.length + 1) ts, ts)) with
    | .type => typeDeclaration below
    | .variable => localVariables below
    | .open => localVariables below <|> statement
    | .none => statement

def startsCase (t : Token) : Bool := is "case" t || is "default" t

def caseGroup (statement : Read Node) : Read (List Node) := do
  let label : Read (List Node) := do
    let values ← do
      if ← accept (tok "case") then
        if ← looks [ofKind .identifier, is ":"] then
          let _ ← identifier
          pure []
        else pure [← below .expression]
      else
        tok "default"
        pure []
    tok ":"
    return values
  let labels ← some1 label
  let ss ← whileAhead (fun t => !startsCase t && !is "\x7d" t) (blockStatement below statement)
  return labels.flatten ++ ss

def jump : Read Node := do
  if ← ahead (ofKind .identifier) then
    let _ ← identifier
  tok ";"
  return .other []

def statementWith (self : Read Node) : Read Node := do
  match ← peek? with
  | none => fail
  | some t =>
    if t.text == "\x7b" then return .other (← below .block)
    else if ← accept (tok ";") then return .other []
    else if ← looks [ofKind .identifier, is ":"] then
      let _ ← identifier
      tok ":"
      below .statement
    else if ← accept (tok "if") then
      let c ← bracketed below
      let a ← below .statement
      if ← accept (tok "else") then return .other [c, a, ← below .statement]
      else return .other [c, a]
    else if ← accept (tok "assert") then
      let c ← below .expression
      let v ← do
        if ← accept (tok ":") then pure [← below .expression] else pure []
      tok ";"
      return .other (c :: v)
    else if ← accept (tok "switch") then
      let e ← bracketed below
      tok "\x7b"
      let groups ← whileAhead startsCase (caseGroup below self)
      tok "\x7d"
      return .statement (some e) groups.flatten
    else if ← accept (tok "while") then
      let c ← bracketed below
      return .other [c, ← below .statement]
    else if ← accept (tok "do") then
      let a ← below .statement
      tok "while"
      let c ← bracketed below
      tok ";"
      return .other [c, a]
    else if ← accept (tok "for") then
      tok "("
      let head ← loopHead below
      tok ")"
      return .other (head ++ [← below .statement])
    else if ← accept (tok "break" <|> tok "continue") then jump
    else if ← accept (tok "return") then
      let e ← do
        if ← ahead (is ";") then pure none else some <$> below .expression
      tok ";"
      return .statement e []
    else if ← accept (tok "throw") then
      let e ← below .expression
      tok ";"
      return .statement (some e) []
    else if ← accept (tok "synchronized") then
      let e ← bracketed below
      return .other (e :: (← below .block))
    else if ← accept (tok "try") then tryRest below
    else
      let e ← expression below
      tok ";"
      return .statement (some e) []

def statement : Read Node := statementWith below (below .statement)

def block : Read (List Node) := do
  tok "\x7b"
  let ss ← whileAhead (fun t => !is "\x7d" t) (blockStatement below (statement below))
  tok "\x7d"
  return ss

/-! ### Whole programs -/

def readWith : {α : Type} → Phrase α → Read α
  | _, .expression => expression below
  | _, .conditional => conditional below
  | _, .operand => operand below
  | _, .initializer => initializer below
  | _, .typeArguments => typeArguments below
  | _, .mark => mark below
  | _, .elementValue => elementValue below
  | _, .statement => statement below
  | _, .block => block below
  | _, .classBody => classBody below
  | _, .interfaceBody => interfaceBody below
  | _, .enumBody => enumBody below
  | _, .annotationBody => annotationBody below

def readDepth : (depth : Nat) → {α : Type} → Phrase α → Read α
  | 0, _, _ => fail
  | n + 1, _, p => readWith (fun q => readDepth n q) p

def packageClause : Read (Option String) :=
  (do
    let _ ← many (do
      require (← annotationAhead)
      below .mark)
    tok "package"
    let n ← qualified
    tok ";"
    return some n) <|> pure none

def importClause : Read String := do
  tok "import"
  let _ ← accept (tok "static")
  let n ← qualified
  if ← accept (tok ".") then tok "*"
  tok ";"
  return n

def sourceFile : Read SourceFile := do
  let package ← packageClause below
  require !(← ahead (is "package"))
  let imports ← whileAhead (is "import") importClause
  let types ← whileAhead (fun _ => true) (do
    if ← accept (tok ";") then return none
    else return some (← typeDeclaration below))
  return ⟨package, imports, types.filterMap id⟩

def parse (source : String) : Option SourceFile := do
  let ts ← tokens source
  let (u, _) ← sourceFile (fun p => readDepth (2 * ts.length + 4) p) ts
  return u

instance : Parser := ⟨parse⟩

end CodeAtlas.Java
