import CodeAtlas.Language.PythonToken
import CodeAtlas.Text.Lines

/-!
# From Python source text to tokens

`tokens` cuts a source text into tokens, or gives nothing when the text cannot be cut: a string without end,
a bracket without partner, an indentation that fits no open block. Indentation is measured twice, with
tabulators as eight columns and as one, and both measures have to agree on every comparison.

Blank lines and lines with only a comment have no tokens; inside brackets the ends of lines have none.
-/

namespace CodeAtlas.Python

/-! ### Expressions of formatted strings -/

/-- A string that an expression of a formatted string is inside of. -/
structure Inner where
  quote : Char
  long : Bool

def closing : Char → Char
  | '(' => ')'
  | '[' => ']'
  | _ => '\x7d'

def cutExpression (skip : Nat) (inner : Option Inner) (opened : List Char) (acc : List Char) :
    List Char → Option (List Char × List Char)
  | [] => none
  | c :: cs =>
    if skip != 0 then cutExpression (skip - 1) inner opened (c :: acc) cs
    else if c == '\\' then none
    else match inner with
      | some i =>
        if c == i.quote then
          if !i.long then cutExpression 0 none opened (c :: acc) cs
          else if cs.take 2 == [c, c] then cutExpression 2 none opened (c :: acc) cs
          else cutExpression 0 inner opened (c :: acc) cs
        else cutExpression 0 inner opened (c :: acc) cs
      | none =>
        if isQuote c then
          if cs.take 2 == [c, c] then cutExpression 2 (some ⟨c, true⟩) opened (c :: acc) cs
          else cutExpression 0 (some ⟨c, false⟩) opened (c :: acc) cs
        else if c == '(' || c == '[' || c == '\x7b' then
          if opened.length ≥ 200 then none else cutExpression 0 none (c :: opened) (c :: acc) cs
        else if c == '#' then none
        else if opened.isEmpty && (c == '!' || c == '=' || c == '<' || c == '>') && cs.head? == some '=' then
          cutExpression 1 none opened (c :: acc) cs
        else if opened.isEmpty && (c == '<' || c == '>') then cutExpression 0 none opened (c :: acc) cs
        else if opened.isEmpty && (c == '!' || c == ':' || c == '\x7d' || c == '=') then some (acc, c :: cs)
        else if c == ')' || c == ']' || c == '\x7d' then
          match opened with
          | o :: os => if closing o == c then cutExpression 0 none os (c :: acc) cs else none
          | [] => none
        else cutExpression 0 none opened (c :: acc) cs

def isPlainSpace (c : Char) : Bool :=
  c == ' ' || c == '\t' || c == '\n' || c == '\r' || c == '\x0b' || c == '\x0c'

def skipConversion : List Char → Option (List Char)
  | '!' :: c :: r => if c == 's' || c == 'r' || c == 'a' then some r else none
  | '!' :: [] => none
  | cs => some cs

def skipShown : List Char → List Char
  | '=' :: r => r.dropWhile isPlainSpace
  | cs => cs

def cutLiteral (raw nested : Bool) (acc : List Char) : Nat → List Char → Option (List Char × List Char)
  | 0, cs => some (acc, cs)
  | _, [] => some (acc, [])
  | fuel + 1, c :: cs =>
    if !raw && c == '\\' then
      match cs with
      | [] => some (c :: acc, [])
      | 'N' :: '\x7b' :: r =>
        let name := r.takeWhile (· != '\x7d')
        let rest := r.drop (name.length + 1)
        cutLiteral raw nested (r.take (name.length + 1) |>.reverse |>.append ('\x7b' :: 'N' :: c :: acc))
          fuel rest
      | d :: r =>
        if d == '\x7b' || d == '\x7d' then cutLiteral raw nested (c :: acc) fuel (d :: r)
        else cutLiteral raw nested (d :: c :: acc) fuel r
    else if c == '\x7b' || c == '\x7d' then
      if nested then some (acc, c :: cs)
      else match cs with
        | d :: r =>
          if d == c then cutLiteral raw nested (c :: acc) fuel r
          else if c == '\x7d' then none else some (acc, c :: cs)
        | [] => if c == '\x7d' then none else some (acc, c :: cs)
    else cutLiteral raw nested (c :: acc) fuel cs

def cutFields (lex : List Char → Option (List Token)) (raw : Bool) :
    Nat → Nat → List Char → Option (List Field × List Char)
  | 0, _, _ => none
  | fuel + 1, level, cs => do
    let (lit, rest) ← cutLiteral raw (level != 0) [] (cs.length + 1) cs
    if !raw && !validEscapes false lit.length lit.reverse then none
    else match rest with
      | '\x7b' :: r =>
        if level ≥ 2 then none
        else
          let (e, r) ← cutExpression 0 none [] [] r
          let e := e.reverse
          if e.all (fun c => c == ' ' || c == '\t' || c == '\n' || c == '\x0c') then none
          else
            let tokens ← lex ('(' :: e ++ [')'])
            let r ← skipConversion (skipShown r)
            let (spec, r) ← match r with
              | ':' :: [] => none
              | ':' :: f => cutFields lex raw fuel (level + 1) f
              | _ => some ([], r)
            match r with
            | '\x7d' :: r =>
              let (more, r) ← cutFields lex raw fuel level r
              return (.mk tokens spec :: more, r)
            | _ => none
      | _ => return ([], rest)

/-! ### Lines and indentation -/

def measure (col alt cont : Nat) : List Char → Option (Nat × Nat × List Char)
  | ' ' :: cs => measure (col + 1) (alt + 1) cont cs
  | '\t' :: cs => measure ((col / 8 + 1) * 8) (alt + 1) cont cs
  | '\x0c' :: cs => measure 0 0 cont cs
  | '\\' :: '\n' :: c :: cs => measure col alt (if cont != 0 then cont else col) (c :: cs)
  | '\\' :: _ => none
  | cs => some (if cont != 0 then (cont, cont, cs) else (col, alt, cs))

/-- The open blocks, the innermost first, each with its two measures. -/
abbrev Blocks := List (Nat × Nat)

def closeBlocks (col : Nat) : Blocks → Blocks × Nat
  | [] => ([], 0)
  | [b] => ([b], 0)
  | b :: c :: bs =>
    if col < b.1 then
      let r := closeBlocks col (c :: bs)
      (r.1, r.2 + 1)
    else (b :: c :: bs, 0)

def indentation (col alt : Nat) (blocks : Blocks) : Option (Blocks × List Token) :=
  match blocks with
  | [] => none
  | top :: _ =>
    if col == top.1 then if alt == top.2 then some (blocks, []) else none
    else if top.1 < col then
      if blocks.length ≥ 100 || alt ≤ top.2 then none else some ((col, alt) :: blocks, [.indent])
    else
      let r := closeBlocks col blocks
      match r.1 with
      | b :: _ => if b == (col, alt) then some (r.1, List.replicate r.2 .dedent) else none
      | [] => none

/-- Where the lexer stands: at the start of a line or inside one, the open blocks and brackets, and the
tokens made so far, backwards. -/
structure Lexing where
  atStart : Bool
  blocks : Blocks
  brackets : List Char
  made : List Token

def Lexing.begin : Lexing := ⟨true, [(0, 0)], [], []⟩

def Lexing.add (l : Lexing) (t : Token) : Lexing := { l with made := t :: l.made }

def Lexing.addOperator (l : Lexing) (o : String) : Option Lexing :=
  match o.toList with
  | [c] =>
    if c == '(' || c == '[' || c == '\x7b' then
      if l.brackets.length ≥ 200 then none else some ({ l with brackets := c :: l.brackets }.add (.op o))
    else if c == ')' || c == ']' || c == '\x7d' then
      match l.brackets with
      | b :: bs => if closing b == c then some ({ l with brackets := bs }.add (.op o)) else none
      | [] => none
    else some (l.add (.op o))
  | _ => some (l.add (.op o))

def lexFrom : Nat → Lexing → List Char → Option (List Token)
  | 0, _, _ => none
  | fuel + 1, l, cs =>
    if l.atStart then do
      let (col, alt, cs) ← measure 0 0 0 cs
      let l := { l with atStart := false }
      match cs with
      | '#' :: _ =>
        lexFrom fuel { l with atStart := true } ((cs.dropWhile (· != '\n')).drop 1)
      | '\n' :: r => lexFrom fuel { l with atStart := true } r
      | _ =>
        if l.brackets.isEmpty then
          let (blocks, ts) ← indentation col alt l.blocks
          let l := { l with blocks := blocks, made := ts ++ l.made }
          match cs with
          | [] => some ((Token.finish :: l.made).reverse)
          | _ => lexFrom fuel l cs
        else if cs.isEmpty then none
        else lexFrom fuel l cs
    else
      match cs with
      | [] => none
      | c :: r =>
        if c == ' ' || c == '\t' || c == '\x0c' then lexFrom fuel l r
        else if c == '#' then lexFrom fuel l (cs.dropWhile (· != '\n'))
        else if c == '\n' then
          let l := { l with atStart := true }
          lexFrom fuel (if l.brackets.isEmpty then l.add .newline else l) r
        else if c == '\\' then
          match r with
          | '\n' :: d :: t => lexFrom fuel l (d :: t)
          | _ => none
        else match stringIntro? cs with
          | some (i, q, rest) => do
            let (body, rest) ← stringBody q rest
            if i.format then
              let (fields, _) ← cutFields (fun e => lexFrom fuel .begin (e ++ ['\n'])) i.raw
                (body.length + 1) 0 body
              lexFrom fuel (l.add (.formatted fields)) rest
            else if validBody i body then lexFrom fuel (l.add (.string i.bytes)) rest
            else none
          | none =>
            if isIdentStart c then
              let word := cs.takeWhile isIdentChar
              if h : isIdentifier word then
                lexFrom fuel (l.add (.name (.ofChars word (ne_nil_of_isIdentifier h)))) (cs.drop word.length)
              else none
            else if isAsciiDigit c || (c == '.' && (r.head?.map isAsciiDigit).getD false) then do
              let (imaginary, rest) ← if c == '.' then fractionTail r else scanNumber cs
              lexFrom fuel (l.add (.number imaginary)) rest
            else if ['.', '.', '.'].isPrefixOf cs then lexFrom fuel (l.add (.op "...")) (cs.drop 3)
            else do
              let (o, rest) ← scanOperator cs
              let l ← l.addOperator o
              lexFrom fuel l rest

def tokens (source : String) : Option (List Token) :=
  let cs := Chars.plainLines source.toList
  if cs.contains '\x00' then none
  else
    let cs := if cs.getLast? == some '\n' then cs else cs ++ ['\n']
    lexFrom (2 * cs.length + 4) .begin cs

end CodeAtlas.Python
