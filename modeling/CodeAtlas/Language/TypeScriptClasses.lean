import CodeAtlas.Language.Fragment
import CodeAtlas.Model.Findings

/-!
# Classes of TypeScript and JavaScript source text

Interfaces, classes and their members are found by patterns; there is no grammar. Interfaces come first. The
parameters of a constructor count as fields.
-/

namespace CodeAtlas.TypeScript

open Pattern

/-! ### Patterns -/

def isStart (c : Char) : Bool := isNameStart c || c == '$'

def isPart (c : Char) : Bool := isNameChar c || c == '$'

def word1 : Pattern := name isStart isPart

def wordList : Pattern := name isStart fun c => isPart c || c == ',' || isBlank c || c == '.'

def classPattern : Pattern :=
  all [boundary, word "class", blanks1, group 1 word1, blanks,
    maybe (all [word "extends", blanks1, group 2 (name isStart fun c => isPart c || c == '.')]), blanks,
    maybe (all [word "implements", blanks1, group 3 wordList]), blanks, char '\x7b']

def interfacePattern : Pattern :=
  all [boundary, word "interface", blanks1, group 1 word1, blanks,
    maybe (all [word "extends", blanks1, group 2 wordList]), blanks, char '\x7b']

def quotedText (n : Nat) : Pattern :=
  all [one isQuote, group n (some1 fun c => !isQuote c), one isQuote]

def requirePattern : Pattern := all [word "require(", blanks, quotedText 1, blanks, char ')']

def importPattern : Pattern :=
  all [word "import", blanks1, few (· != '\n'), blanks1, word "from", blanks1, quotedText 1]

def commaPattern : Pattern := all [blanks, char ',', blanks]

def propertyPattern : Pattern :=
  all [group 1 word1, blanks, char ':', blanks,
    group 2 (name isStart fun c =>
      isPart c || c == '<' || c == '>' || c == ',' || isBlank c || c == '[' || c == ']'),
    blanks, char ';']

def signaturePattern : Pattern :=
  all [group 1 word1, blanks, char '(', many fun c => c != ';' && c != '\x7b', char ')', blanks,
    one fun c => c == ':' || c == ';']

def constructorPattern : Pattern :=
  all [word "constructor", blanks, char '(', group 1 (many (· != ')')), char ')']

def parameterPattern : Pattern :=
  all [group 1 word1, blanks, maybe (all [char ':', blanks, some1 fun c => c != ',' && c != ')'])]

def methodPattern : Pattern :=
  all [boundary, maybe (all [word "async", blanks1]), group 1 word1, blanks, char '(']

def fieldPattern : Pattern :=
  all [boundary, maybe (oneOf ["private", "public", "protected", "readonly"]), blanks, group 1 word1,
    blanks, char ':', blanks,
    group 2 (seq (one isStart) (some1 fun c =>
      isPart c || c == '<' || c == '>' || c == '[' || c == ']' || c == '|'))]

def createdPattern : Pattern :=
  all [boundary, word "this.", group 1 word1, blanks, char '=', blanks, word "new", blanks1,
    group 2 word1, blanks, char '(']

def assignedPattern : Pattern :=
  all [boundary, word "this.", group 1 word1, blanks, char '=', blanks, some1 (· != ';'), char ';']

def newPattern : Pattern := all [boundary, word "new", blanks1, group 1 word1, blanks, char '(']

def callPattern : Pattern :=
  all [boundary, group 1 word1, blanks, char '.', blanks, word1, blanks, char '(']

/-! ### Members -/

def keywords : List String := ["if", "for", "while", "switch", "catch", "function", "constructor"]

def ownObjects : List String := ["this", "super", "console", "Math", "Date", "JSON"]

def declaredFields (body : List Char) : List String :=
  ((constructorPattern.findFirst body).map fun m =>
    (parameterPattern.findAll (m.text 1).toList).map (·.text 1)).getD [] ++
  (fieldPattern.findAll body).map fun m => m.text 1 ++ ": " ++ m.text 2

def methods (body : List Char) : List String :=
  Text.ascendingSet (((methodPattern.findAll body).map (·.text 1)).filter fun m => !keywords.contains m)

def codeFindings (body : List Char) (cls : String) (fields : List String) (f : Findings) :
    List String × Findings :=
  let created := createdPattern.findAll body
  let fields := fields ++ created.map fun m => m.text 1 ++ ": " ++ m.text 2
  let f := created.foldl (fun f m =>
    if m.text 2 == cls then f else f.addComposition cls (m.text 2)) f
  let fields := addMissing fields ((assignedPattern.findAll body).map (·.text 1))
  let f := (newPattern.findAll body).foldl (fun f m =>
    if m.text 1 == cls then f else f.addUsage cls (m.text 1)) f
  let f := (callPattern.findAll body).foldl (fun f m =>
    if m.text 1 == cls || ownObjects.contains (m.text 1) then f else f.addUsage cls (m.text 1)) f
  (fields, f)

/-! ### Interfaces and classes -/

def bodyOf (m : Match) : List Char := (Braces.body? m.first.rest).getD []

def packageOr (package : String) : String := if package == "" then "main" else package

def addAll (f : Findings) (names : String) (cls kind : String) : Findings :=
  (commaPattern.split (Chars.trim names.toList)).foldl (fun f n =>
    let base := TypeName.lastPart (String.ofList n) "."
    if base == "" then f else f.addRelation base cls kind) f

def interfaceEntry (package : String) (m : Match) (f : Findings) : ClassEntry × Findings :=
  let cls := m.text 1
  let f := f.addClass cls
  let f := (m.group? 2).elim f fun names => addAll f names cls "extends"
  let body := bodyOf m
  let fields := (propertyPattern.findAll body).map fun p => p.text 1 ++ ": " ++ Text.trim (p.text 2)
  ({ name := cls, fields := Text.ascendingSet fields
     methods := Text.ascendingSet ((signaturePattern.findAll body).map (·.text 1))
     stereotype := .interface, package := packageOr package }, f)

def classEntry (package : String) (m : Match) (f : Findings) : ClassEntry × Findings :=
  let cls := m.text 1
  let f := f.addClass cls
  let f := (m.group? 2).elim f fun base => f.addRelation (TypeName.lastPart base ".") cls "extends"
  let f := (m.group? 3).elim f fun names => addAll f names cls "implements"
  let body := bodyOf m
  let (fields, f) := codeFindings body cls (declaredFields body) f
  ({ name := cls, fields := Text.ascendingSet fields, methods := methods body, package := packageOr package }, f)

def modulePart (s : String) : String := (Text.splitOn s "/").headD ""

def classes (source package : String) (f : Findings) : List ClassEntry × Findings :=
  let cs := source.toList
  let modules := (requirePattern.findAll cs ++ importPattern.findAll cs).map fun m => modulePart (m.text 1)
  let f := modules.foldl (fun f m => (f.addImport m).addScope m) f
  let (interfaces, f) := Findings.readEach (some <| interfaceEntry package ·) (interfacePattern.findAll cs) f
  let (entries, f) := Findings.readEach (some <| classEntry package ·) (classPattern.findAll cs) f
  (interfaces ++ entries, f)

end CodeAtlas.TypeScript
