import CodeAtlas.Model.Identifier
import CodeAtlas.Number.Reading

/-!
# Tokens of Java source text

`tokens` cuts a source text into tokens, after the escapes for single characters have been replaced, or
gives nothing when the text cannot be cut. Characters and strings are read alike and may span lines. Two
closing angle brackets are two tokens.
-/

namespace CodeAtlas.Java

inductive Kind where
  | identifier
  | keyword
  | modifier
  | basicType
  | literal
  | separator
  | operator
  | mark
  deriving DecidableEq

/-- A token: its kind and its text; the text of a literal is left out, that of an identifier is not empty. -/
structure Token where
  kind : Kind
  text : String
  named : kind = .identifier → text ≠ "" := by simp

/-! ### Escapes -/

def unescape : Nat → List Char → Option (List Char)
  | 0, _ => none
  | _ + 1, [] => some []
  | n + 1, '\\' :: 'u' :: r =>
    let digits := r.dropWhile (· == 'u')
    if digits.isEmpty then some []
    else do
      let code ← Number.readInt? 16 (digits.take 4)
      if code < 0 then none
      else
        let rest ← unescape n (digits.drop 4)
        let c := code.toNat
        return (if 0xD800 ≤ c && c ≤ 0xDFFF then '�' else Char.ofNat c) :: rest
  | n + 1, '\\' :: c :: r => (unescape n r).map fun s => '\\' :: c :: s
  | n + 1, c :: r => (unescape n r).map (c :: ·)

/-! ### Words -/

def keywords : List String :=
  ["assert", "break", "case", "catch", "class", "const", "continue", "do", "else", "enum", "extends",
    "finally", "for", "goto", "if", "implements", "import", "instanceof", "interface", "new", "package",
    "return", "super", "switch", "this", "throw", "throws", "try", "void", "while"]

def modifierWords : List String :=
  ["abstract", "default", "final", "native", "private", "protected", "public", "static", "strictfp",
    "synchronized", "transient", "volatile"]

def basicTypes : List String := ["boolean", "byte", "char", "double", "float", "int", "long", "short"]

def valueWords : List String := ["true", "false", "null"]

def wordToken (w : Identifier) : Token :=
  if basicTypes.contains w.text then { kind := .basicType, text := w.text }
  else if modifierWords.contains w.text then { kind := .modifier, text := w.text }
  else if keywords.contains w.text then { kind := .keyword, text := w.text }
  else if valueWords.contains w.text then { kind := .literal, text := "" }
  else { kind := .identifier, text := w.text, named := fun _ => w.text_ne }

def isWordStart (c : Char) : Bool :=
  if c.toNat < 128 then isNameStart c || c == '$' else CharTable.isWordStart c

def isWordPart (c : Char) : Bool :=
  if c.toNat < 128 then isNameChar c || c == '$' else CharTable.isWordPart c

/-! ### Literals -/

def afterString (quote : Char) : List Char → Option (List Char)
  | [] => none
  | '\\' :: c :: r =>
    if "btnfru\"\x27\\01234567".toList.contains c then afterString quote r else none
  | c :: r => if c == quote then some r else afterString quote r

def afterDigitsFrom (p : Char → Bool) (stop : Option (List Char)) : List Char → List Char
  | [] => stop.getD []
  | c :: r =>
    if p c then afterDigitsFrom p none r
    else if c == '_' then afterDigitsFrom p (some (stop.getD (c :: r))) r
    else if c == 'l' || c == 'L' then (stop.getD (c :: r)).drop 1
    else stop.getD (c :: r)

def afterDigits (p : Char → Bool) (cs : List Char) : List Char := afterDigitsFrom p none cs

def afterDecimal (cs : List Char) : List Char :=
  let r := afterDigits isAsciiDigit cs
  let r := match r with
    | '.' :: t => afterDigits isAsciiDigit t
    | _ => r
  let r := match r with
    | e :: t =>
      if e == 'e' || e == 'E' then
        match t with
        | s :: u => if s == '-' || s == '+' then afterDigits isAsciiDigit u else afterDigits isAsciiDigit t
        | [] => t
      else r
    | [] => r
  match r with
  | f :: t => if "fFdD".toList.contains f then t else r
  | [] => r

def afterHex (cs : List Char) : Option (List Char) :=
  let isHex := fun c => (hexDigit? c).isSome
  let r := afterDigits isHex cs
  match r with
  | c :: t =>
    if c == '.' || c == 'p' || c == 'P' then
      let r := if c == '.' then afterDigits isHex t else r
      match r with
      | p :: u =>
        if p == 'p' || p == 'P' then
          let u := match u with
            | s :: v => if s == '-' || s == '+' then v else u
            | [] => u
          let u := afterDigits isAsciiDigit u
          match u with
          | f :: v => some (if "fFdD".toList.contains f then v else u)
          | [] => some u
        else none
      | [] => none
    else some r
  | [] => some r

def afterNumber (cs : List Char) : Option (List Char) :=
  match cs with
  | '0' :: c :: r =>
    if c == 'x' || c == 'X' then afterHex r
    else if c == 'b' || c == 'B' then some (afterDigits (fun d => d == '0' || d == '1') r)
    else if '0' ≤ c && c ≤ '7' then some (afterDigits (fun d => '0' ≤ d && d ≤ '7') (c :: r))
    else some (afterDecimal cs)
  | _ => some (afterDecimal cs)

/-! ### Comments and operators -/

def afterComment (line : Bool) (cs : List Char) : Option (List Char) :=
  if line then some ((cs.dropWhile (· != '\n')).drop 1)
  else (Chars.find? ['*', '/'] cs).map fun i => cs.drop (i + 2)

def operators : List String :=
  [">>>=", ">>=", "<<=", "...", "%=", "^=", "|=", "&=", "/=", "*=", "-=", "+=", "<<", "--", "++", "||",
    "&&", "!=", ">=", "<=", "==", "->", "::", "%", "^", "|", "&", "/", "*", "-", "+", ":", "?", "~", "!",
    "<", ">", "="]

def separators : List Char := ['(', ')', '\x7b', '\x7d', '[', ']', ';', ',', '.']

def operator? (cs : List Char) : Option String := operators.find? fun o => o.toList.isPrefixOf cs

/-! ### Tokens -/

def cut (c : Char) (r : List Char) : Option (Option Token × List Char) :=
  let cs := c :: r
  let next := r.head?
  if isBlank c then some (none, r)
  else if c == '/' && next == some '/' then (afterComment true (r.drop 1)).map fun t => (none, t)
  else if c == '/' && next == some '*' then (afterComment false (r.drop 1)).map fun t => (none, t)
  else if ['.', '.', '.'].isPrefixOf cs then some (some { kind := .operator, text := "..." }, cs.drop 3)
  else if c == '@' then some (some { kind := .mark, text := "@" }, r)
  else if c == '.' && (next.map isDigitChar).getD false then
    some (some { kind := .literal, text := "" }, afterDecimal cs)
  else if separators.contains c then some (some { kind := .separator, text := String.singleton c }, r)
  else if isQuote c then (afterString c r).map fun t => (some { kind := .literal, text := "" }, t)
  else if isAsciiDigit c then (afterNumber cs).map fun t => (some { kind := .literal, text := "" }, t)
  else if isWordStart c then
    some (some (wordToken (.ofChars (c :: r.takeWhile isWordPart) (by simp))), r.dropWhile isWordPart)
  else match operator? cs with
    | some o => some (some { kind := .operator, text := o }, cs.drop o.length)
    | none => none

def lexFrom : Nat → List Char → Option (List Token)
  | 0, _ => none
  | _ + 1, [] => some []
  | n + 1, c :: r => do
    let (t, rest) ← cut c r
    let ts ← lexFrom n rest
    return match t with
      | some t => t :: ts
      | none => ts

def tokens (source : String) : Option (List Token) := do
  let cs ← unescape (source.length + 1) source.toList
  lexFrom (cs.length + 1) cs

end CodeAtlas.Java
