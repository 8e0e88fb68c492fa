import CodeAtlas.Language.Fragment
import CodeAtlas.Model.Findings

/-!
# Classes of C and C++ source text

Classes and structures are found by patterns in the text without comments; there is no grammar. Comments are
taken out line comments first, so a line comment inside a block comment may hide the block's end.
-/

namespace CodeAtlas.Cpp

open Pattern

/-! ### Comments -/

def dropLineComments (inside : Bool) : List Char → List Char
  | [] => []
  | c :: cs =>
    if inside then
      if c == '\n' then c :: dropLineComments false cs else dropLineComments true cs
    else if c == '/' && cs.head? == some '/' then dropLineComments true cs
    else c :: dropLineComments false cs

def dropBlockComments (skip : Nat) : List Char → List Char
  | [] => []
  | c :: cs =>
    if skip != 0 then dropBlockComments (skip - 1) cs
    else if c == '/' && cs.head? == some '*' then
      match Chars.find? ['*', '/'] (cs.drop 1) with
      | some i => dropBlockComments (i + 3) cs
      | none => c :: dropBlockComments 0 cs
    else c :: dropBlockComments 0 cs

def dropComments (cs : List Char) : List Char := dropBlockComments 0 (dropLineComments false cs)

/-! ### Patterns -/

def includePattern : Pattern :=
  all [word "#include", blanks, one fun c => c == '<' || c == '"',
    group 1 (some1 fun c => c != '>' && c != '"'), one fun c => c == '>' || c == '"']

def classPattern : Pattern :=
  all [boundary, word "class", blanks1, group 1 ident, blanks,
    maybe (all [char ':', blanks, group 2 (some1 (· != '\x7b'))]), blanks, char '\x7b']

def structPattern : Pattern :=
  all [boundary, word "struct", blanks1, group 1 ident, blanks, char '\x7b']

def accessPattern : Pattern :=
  all [boundary, oneOf ["public", "private", "protected", "virtual"], boundary]

def typeText : Pattern := seq ident (many fun c => isBlank c || c == '*' || c == '&')

def fieldPattern : Pattern :=
  all [boundary, group 1 typeText, blanks1, group 2 ident, blanks, char ';']

def methodPattern : Pattern :=
  all [boundary, group 1 typeText, blanks1, group 2 ident, blanks, char '(', many (· != ')'), char ')']

def newPattern : Pattern := all [boundary, word "new", blanks1, group 1 ident]

def staticPattern : Pattern :=
  all [boundary, group 1 ident, blanks, word "::", blanks, ident, blanks, char '(']

def callPattern : Pattern :=
  all [boundary, group 1 ident, blanks, char '.', blanks, ident, blanks, char '(']

/-! ### Members -/

def modifiers : List String := ["public", "private", "protected", "static", "const", "virtual"]

def keywords : List String := ["if", "while", "for", "switch", "return", "sizeof"] ++ modifiers

def ownObjects : List String := ["this", "std", "cout", "cin"]

def fields (body : List Char) (cls : String) (f : Findings) : List String × Findings :=
  let ms := (fieldPattern.findAll body).filter fun m => !modifiers.contains (m.text 2)
  (Text.ascendingSet (ms.map fun m => m.text 2 ++ ": " ++ Text.trim (m.text 1)),
    ms.foldl (fun f m =>
      let t := Text.trim (Text.replace (Text.replace (Text.trim (m.text 1)) "*" "") "&" "")
      if t == cls then f else f.addComposition cls t) f)

def methods (body : List Char) : List String :=
  Text.ascendingSet (((methodPattern.findAll body).map (·.text 2)).filter fun m => !keywords.contains m)

def codeFindings (body : List Char) (cls : String) (f : Findings) : Findings :=
  let used := (newPattern.findAll body ++ staticPattern.findAll body).map (·.text 1) ++
    ((callPattern.findAll body).map (·.text 1)).filter fun n => !ownObjects.contains n
  (used.filter (· != cls)).foldl (fun f n => f.addUsage cls n) f

/-! ### Classes and structures -/

def bodyOf (m : Match) : List Char := (Braces.body? m.first.rest).getD []

def addBases (f : Findings) (bases cls : String) : Findings :=
  (Text.splitOn bases ",").foldl (fun f part =>
    match (Chars.words (accessPattern.replaceAll [] part.toList)).getLast? with
    | some base => f.addRelation (String.ofList base) cls "extends"
    | none => f) f

def classEntry (package : String) (m : Match) (f : Findings) : ClassEntry × Findings :=
  let cls := m.text 1
  let f := f.addClass cls
  let f := (m.group? 2).elim f fun bases => addBases f bases cls
  let body := bodyOf m
  let (fs, f) := fields body cls f
  ({ name := cls, fields := fs, methods := methods body, package }, codeFindings body cls f)

def structEntry (package : String) (m : Match) (f : Findings) : ClassEntry × Findings :=
  let cls := m.text 1
  let (fs, f) := fields (bodyOf m) cls (f.addClass cls)
  ({ name := cls, fields := fs, package }, f)

def headerName (s : String) : String := (Text.splitOn (TypeName.lastPart s "/") ".").headD ""

def classes (source package : String) (f : Findings) : List ClassEntry × Findings :=
  let cs := dropComments source.toList
  let f := (includePattern.findAll cs).foldl (fun f m => f.addImport (headerName (m.text 1))) f
  let (entries, f) := Findings.readEach (some <| classEntry package ·) (classPattern.findAll cs) f
  let (structs, f) := Findings.readEach (some <| structEntry package ·) (structPattern.findAll cs) f
  (entries ++ structs, f)

end CodeAtlas.Cpp
