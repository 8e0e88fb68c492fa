import CodeAtlas.Language.JavaLexer
import CodeAtlas.Language.JavaSyntax
import CodeAtlas.Language.Reader

/-!
# Reading Java types and expressions

The readers of this module take a `Below`, which reads the phrases that may be nested inside the one being
read; `JavaProgram` ties the knot. Where a bracket may open a function without a name, a conversion or an
expression, these are tried in that order.
-/

namespace CodeAtlas.Java

open Reader

abbrev Read := Reader Token

/-- The phrases that are read through nesting, with what they give. -/
inductive Phrase : Type → Type where
  | expression : Phrase Node
  | conditional : Phrase Node
  | operand : Phrase Node
  | initializer : Phrase Node
  | typeArguments : Phrase Unit
  | mark : Phrase Node
  | elementValue : Phrase Node
  | statement : Phrase Node
  | block : Phrase (List Node)
  | classBody : Phrase (List Node)
  | interfaceBody : Phrase (List Node)
  | enumBody : Phrase (List Node)
  | annotationBody : Phrase (List Node)

abbrev Below := {α : Type} → Phrase α → Read α

/-! ### Single tokens -/

def is (s : String) (t : Token) : Bool := t.text == s

def ofKind (k : Kind) (t : Token) : Bool := t.kind == k

def tok (s : String) : Read Unit := next fun t => if t.text == s then some () else none

def kind (k : Kind) : Read String := next fun t => if t.kind == k then some t.text else none

def declared : Read Identifier := next fun t => if h : t.kind = .identifier then some ⟨t.text, t.named h⟩ else none

def identifier : Read String := kind .identifier

def looks (ps : List (Token → Bool)) : Read Bool := fun ts =>
  some (ps.length ≤ ts.length && (ps.zip ts).all fun p => p.1 p.2, ts)

def acceptAll (ss : List String) : Read Bool := do
  if ← looks (ss.map is) then
    ss.forM tok
    return true
  else return false

def qualified : Read String := do
  return ".".intercalate (← sepBy identifier (tok "."))

/-! ### Types -/

def dimensions : Read Unit := do
  let _ ← many (do tok "["; tok "]")

variable (below : Below)

def referenceType : Read String := do
  let part : Read String := do
    let n ← identifier
    if ← ahead (is "<") then below .typeArguments
    return n
  let parts ← sepBy part (tok ".")
  return parts.headD ""

def listedType : Read String := do
  if ← ahead (ofKind .basicType) then
    let n ← kind .basicType
    tok "["
    tok "]"
    dimensions
    return n
  else
    let n ← referenceType below
    dimensions
    return n

def typeOf : Read String := do
  let n ← if ← ahead (ofKind .basicType) then kind .basicType else referenceType below
  dimensions
  return n

def typeList : Read (List String) := sepBy (listedType below) (tok ",")

def typeArgument : Read Unit := do
  if ← accept (tok "?") then
    if ← accept (tok "extends" <|> tok "super") then
      let _ ← listedType below
  else
    let _ ← listedType below

def typeArguments : Read Unit := do
  tok "<"
  let _ ← sepBy (typeArgument below) (tok ",")
  tok ">"

def plainTypeArguments : Read Unit := do
  tok "<"
  let _ ← typeList below
  tok ">"

def typeParameters : Read Unit := do
  if ← accept (tok "<") then
    let _ ← sepBy (do
      let _ ← identifier
      if ← accept (tok "extends") then
        let _ ← sepBy (referenceType below) (tok "&")) (tok ",")
    tok ">"

/-! ### Annotations -/

def annotationAhead : Read Bool := do
  let a ← ahead (ofKind .mark)
  let i ← ahead2 (is "interface")
  return a && !i

def mark : Read Node := do
  tok "@"
  let _ ← qualified
  if ← accept (tok "(") then
    let values ← do
      if ← ahead (is ")") then pure []
      else if ← looks [ofKind .identifier, is "="] then
        sepBy (do
          let _ ← identifier
          tok "="
          below .elementValue) (tok ",")
      else
        let v ← below .elementValue
        pure [v]
    tok ")"
    return .other values
  else return .other []

def elementValue : Read Node := do
  if ← annotationAhead then mark below
  else if ← accept (tok "\x7b") then
    if ← accept (tok "\x7d") then return .other []
    else
      let vs ← sepBy (below .elementValue) (tok ",")
      let _ ← accept (tok ",")
      tok "\x7d"
      return .other vs
  else below .conditional

inductive Modifier where
  | word (s : String)
  | mark (n : Node)

def modifiers (allowed : Token → Bool) : Read (List String × List Node) := do
  let ms ← many (do
    if ← annotationAhead then return Modifier.mark (← below .mark)
    else next fun t => if allowed t then some (Modifier.word t.text) else none)
  return (ms.filterMap fun
      | .word s => some s
      | _ => none,
    ms.filterMap fun
      | .mark n => some n
      | _ => none)

def variableModifiers : Read (List Node) := do
  let (_, marks) ← modifiers below (is "final")
  return marks

/-! ### Parameters and arguments -/

def formalParameters : Read (List (List Node × String)) := do
  tok "("
  if ← accept (tok ")") then return []
  else
    let one : Read (Bool × List Node × String) := do
      let marks ← variableModifiers below
      let t ← typeOf below
      let varargs ← accept (tok "...")
      let _ ← identifier
      dimensions
      return (varargs, marks, t)
    let ps ← sepBy one (tok ",")
    require (ps.dropLast.all (!·.1))
    tok ")"
    return ps.map (·.2)

def arguments : Read (List Node) := do
  tok "("
  if ← accept (tok ")") then return []
  else
    let es ← sepBy (below .expression) (tok ",")
    tok ")"
    return es

/-! ### Values -/

def superSuffix : Read Node := do
  if ← accept (tok ".") then
    if ← ahead (is "<") then plainTypeArguments below
    let n ← identifier
    if ← ahead (is "(") then return .primary none (some n) [] (← arguments below)
    else return .primary none (some n) [] []
  else return .primary none none [] (← arguments below)

def genericCall : Read (Bool × Node) := do
  plainTypeArguments below
  if ← accept (tok "super") then return (false, ← superSuffix below)
  else
    let n ← identifier
    return (true, .primary none (some n) [] (← arguments below))

def arrayInitializer : Read Node := do
  tok "\x7b"
  if ← accept (tok ",") then
    tok "\x7d"
    return .other []
  else if ← accept (tok "\x7d") then return .other []
  else
    let vs ← sepBy (below .initializer) (tok ",")
    let _ ← accept (tok ",")
    tok "\x7d"
    return .other vs

def initializer : Read Node := do
  if ← ahead (is "\x7b") then arrayInitializer below else below .expression

def arrayCreation : Read Node := do
  if ← looks [is "[", is "]"] then
    dimensions
    let v ← arrayInitializer below
    return .primary none none [] [v]
  else
    let sizes ← many (do
      require !(← looks [is "[", is "]"])
      tok "["
      let e ← below .expression
      tok "]"
      return e)
    dimensions
    return .primary none none [] sizes

def objectCreation : Read Node := do
  let as ← arguments below
  if ← ahead (is "\x7b") then return .primary none none [] (as ++ [.other (← below .classBody)])
  else return .primary none none [] as

def creator : Read Node := do
  if ← ahead (ofKind .basicType) then
    let _ ← kind .basicType
    arrayCreation below
  else
    let generic ← ahead (is "<")
    if generic then plainTypeArguments below
    let _ ← sepBy (do
      let _ ← identifier
      if ← ahead (is "<") then
        if !(← acceptAll ["<", ">"]) then below .typeArguments) (tok ".")
    if ← ahead (is "[") then
      require !generic
      arrayCreation below
    else objectCreation below

def innerCreator : Read Node := do
  if ← ahead (is "<") then plainTypeArguments below
  let _ ← identifier
  if ← ahead (is "<") then
    if !(← acceptAll ["<", ">"]) then plainTypeArguments below
  objectCreation below

def nameSuffix (parts : List String) : Read Node := do
  let outer := ".".intercalate parts.dropLast
  let whole := ".".intercalate parts
  let last := parts.getLast?
  if ← acceptAll ["[", "]"] then
    dimensions
    tok "."
    tok "class"
    return .primary (some outer) none [] []
  else if ← ahead (is "(") then return .primary (some outer) last [] (← arguments below)
  else if ← acceptAll [".", "class"] then return .primary (some outer) none [] []
  else if ← acceptAll [".", "this"] then return .primary (some whole) none [] []
  else if ← looks [is ".", is "<"] then
    tok "."
    let (named, n) ← genericCall below
    match named, n with
    | true, .primary _ _ _ rest => return .primary (some outer) last [] rest
    | _, .primary _ m _ rest => return .primary (some whole) m [] rest
    | _, n => return n
  else if ← acceptAll [".", "new"] then
    match ← innerCreator below with
    | .primary _ m _ rest => return .primary (some whole) m [] rest
    | n => return n
  else if ← looks [is ".", is "super", is "("] then
    tok "."
    tok "super"
    return .primary (some whole) none [] (← arguments below)
  else return .primary (some outer) last [] []

def primary : Read Node := do
  match ← peek? with
  | none => fail
  | some t =>
    if t.kind == .literal then
      let _ ← kind .literal
      return .primary none none [] []
    else if t.text == "(" then
      tok "("
      let e ← below .expression
      tok ")"
      return e
    else if t.text == "this" then
      tok "this"
      if ← ahead (is "(") then return .primary none none [] (← arguments below)
      else return .primary none none [] []
    else if t.text == "super" then
      tok "super"
      if ← ahead (is "::") then return .other []
      else superSuffix below
    else if t.text == "new" then
      tok "new"
      creator below
    else if t.text == "<" then
      (do
        plainTypeArguments below
        tok "this"
        return .primary none none [] (← arguments below)) <|>
      (do return (← genericCall below).2)
    else if t.kind == .identifier then
      let parts ← sepBy identifier (tok ".")
      nameSuffix below parts
    else if t.kind == .basicType then
      let _ ← kind .basicType
      dimensions
      tok "."
      tok "class"
      return .primary none none [] []
    else
      tok "void"
      tok "."
      tok "class"
      return .primary none none [] []

def selector : Read Node := do
  if ← accept (tok "[") then
    let e ← below .expression
    tok "]"
    return .other [e]
  else
    tok "."
    if ← ahead (ofKind .identifier) then
      let n ← identifier
      if ← ahead (is "(") then return .primary none (some n) [] (← arguments below)
      else return .primary none (some n) [] []
    else if ← looks [is "super", is "::"] then
      tok "super"
      return .other []
    else if ← ahead (is "<") then return (← genericCall below).2
    else if ← accept (tok "this") then return .primary none none [] []
    else if ← accept (tok "super") then superSuffix below
    else if ← accept (tok "new") then innerCreator below
    else
      tok "class"
      return .primary none none [] []

/-! ### Expressions -/

def signs : List String := ["++", "--", "!", "~", "+", "-"]

def infixes : List String :=
  ["||", "&&", "|", "^", "&", "==", "!=", "<", ">", "<=", ">=", "<<", "+", "-", "*", "/", "%"]

def assignments : List String :=
  ["=", "+=", "-=", "*=", "/=", "&=", "|=", "^=", "%=", "<<=", ">>=", ">>>="]

def lambdaBody : Read (List Node) := do
  tok "->"
  if ← ahead (is "\x7b") then below .block else return [← below .expression]

def lambda : Read Node := do
  let marks ← do
    if ← looks [is "(", ofKind .identifier, is ","] then
      tok "("
      let _ ← sepBy identifier (tok ",")
      tok ")"
      pure []
    else
      let ps ← formalParameters below
      pure (ps.flatMap (·.1))
  return .other (marks ++ (← lambdaBody below))

def conversion : Read Node := do
  tok "("
  let _ ← typeOf below
  tok ")"
  return .other [← below .operand]

def signedValue : Read Node := do
  let v ← primary below
  let sels ← whileAhead (fun t => is "[" t || is "." t) (selector below)
  let _ ← many (tok "++" <|> tok "--")
  return v.withSelectors sels

def operand : Read Node := do
  let _ ← many (next fun t => if signs.contains t.text then some () else none)
  if ← ahead (is "(") then lambda below <|> conversion below <|> signedValue below
  else signedValue below

def infixPart : Read (Option Node) := do
  if ← accept (tok "instanceof") then
    let _ ← typeOf below
    return none
  else
    let o ← next fun t => if infixes.contains t.text then some t.text else none
    if o == ">" then
      if ← accept (tok ">") then
        let _ ← accept (tok ">")
    return some (← operand below)

def operation : Read Node := do
  let first ← operand below
  let rest ← whileAhead (fun t => is "instanceof" t || infixes.contains t.text) (infixPart below)
  return if rest.isEmpty then first else .other (first :: rest.filterMap id)

def conditional : Read Node := do
  let e ← operation below
  if ← accept (tok "?") then
    let a ← below .expression
    tok ":"
    return .other [e, a, ← below .conditional]
  else if ← ahead (is "->") then return .other (e :: (← lambdaBody below))
  else if ← accept (tok "::") then
    if ← ahead (is "<") then plainTypeArguments below
    if ← accept (tok "new") then return .other [e]
    else return .other [e, ← below .expression]
  else return e

def expression : Read Node := do
  let e ← conditional below
  let assigns ← ahead fun t => assignments.contains t.text
  if assigns then
    next fun _ => some ()
    return .other [e, ← below .expression]
  else return e

end CodeAtlas.Java
