import CodeAtlas.Language.Fragment
import CodeAtlas.Model.Findings

/-!
# Classes of C# source text

Classes, interfaces and their members are found by patterns; there is no grammar. `classes` gives what a
source text holds and the findings after it. A base class named by the single letter `I` cannot be told from
an interface: the reading stops there, without classes, and keeps what it had found.
-/

namespace CodeAtlas.CSharp

open Pattern

/-! ### Patterns -/

def dotted : Pattern := name isNameStart fun c => isNameChar c || c == '.'

def typeText : Pattern := name isNameStart fun c =>
  isNameChar c || c == '<' || c == '>' || c == '[' || c == ']' || c == ',' || isBlank c

def declaration (modifiers : List String) (keyword : String) : Pattern :=
  all [boundary, maybe (oneOf modifiers), blanks, word keyword, blanks1, group 1 ident, blanks,
    maybe (all [char ':', blanks, group 2 (some1 (· != '\x7b'))]), blanks, char '\x7b']

def classPattern : Pattern :=
  declaration ["public", "private", "protected", "internal", "abstract", "static", "sealed"] "class"

def interfacePattern : Pattern :=
  declaration ["public", "private", "protected", "internal"] "interface"

def namespacePattern : Pattern := all [boundary, word "namespace", blanks1, group 1 dotted]

def usingPattern : Pattern := all [boundary, word "using", blanks1, group 1 dotted, blanks, char ';']

def fieldPattern : Pattern :=
  all [boundary, oneOf ["public", "private", "protected", "internal", "static", "readonly"], blanks1,
    group 1 typeText, blanks1, group 2 ident, blanks,
    maybe (all [char '=', blanks, some1 (· != ';')]), blanks, char ';']

def methodPattern : Pattern :=
  all [boundary, maybe (oneOf ["public", "private", "protected", "internal", "static", "virtual",
      "override", "abstract", "async"]), blanks, typeText, blanks1, group 1 ident, blanks, char '(']

def createdPattern : Pattern :=
  all [boundary, word "this.", group 1 ident, blanks, char '=', blanks, word "new", blanks1,
    group 2 dotted, blanks, char '(']

def assignedPattern : Pattern :=
  all [boundary, word "this.", group 1 ident, blanks, char '=', blanks, some1 (· != ';'), char ';']

def newPattern : Pattern := all [boundary, word "new", blanks1, group 1 dotted, blanks, char '(']

def callPattern : Pattern :=
  all [boundary, group 1 dotted, blanks, char '.', blanks, ident, blanks, char '(']

def variablePattern : Pattern :=
  all [boundary, group 1 (name isNameStart fun c =>
      isNameChar c || c == '.' || c == '<' || c == '>' || c == '[' || c == ']'),
    blanks1, ident, blanks, one fun c => c == '=' || c == ';']

/-! ### Members -/

def typePart (s : String) : String := TypeName.lastPart (TypeName.dropParameters s) "."

def keywords : List String :=
  ["if", "for", "while", "switch", "try", "catch", "foreach", "using", "lock"]

def holds (f : Findings) (owner part : String) : Findings :=
  if part != "" && part != owner then f.addComposition owner part else f

def uses (f : Findings) (user used : String) : Findings :=
  if used != "" && used != user then f.addUsage user used else f

def methods (body : List Char) : List String :=
  Text.ascendingSet (((methodPattern.findAll body).map (·.text 1)).filter fun m => !keywords.contains m)

def declaredFields (body : List Char) (cls : String) (f : Findings) : List String × Findings :=
  let ms := fieldPattern.findAll body
  (ms.map fun m => m.text 2 ++ ": " ++ Text.trim (m.text 1),
    ms.foldl (fun f m =>
      holds f cls (TypeName.lastPart (Text.trim (TypeName.dropParameters (Text.trim (m.text 1)))) ".")) f)

def codeFindings (body : List Char) (cls : String) (fields : List String) (f : Findings) :
    List String × Findings :=
  let created := createdPattern.findAll body
  let fields := fields ++ created.map fun m => m.text 1 ++ ": " ++ m.text 2
  let f := created.foldl (fun f m => holds f cls (typePart (m.text 2))) f
  let fields := addMissing fields ((assignedPattern.findAll body).map (·.text 1))
  let f := (newPattern.findAll body).foldl (fun f m => uses f cls (typePart (m.text 1))) f
  let f := (callPattern.findAll body).foldl (fun f m =>
    let used := TypeName.lastPart (m.text 1) "."
    if used == "this" then f else uses f cls used) f
  let f := (variablePattern.findAll body).foldl (fun f m => uses f cls (typePart (m.text 1))) f
  (fields, f)

/-! ### Classes and interfaces -/

def baseKind? (base : String) : Option String :=
  match base.toList with
  | ['I'] => none
  | 'I' :: c :: _ => some (if isUpper c then "implements" else "extends")
  | _ => some "extends"

def addBases (cls : String) : List String → Findings → Bool × Findings
  | [], f => (true, f)
  | part :: parts, f =>
    let base := TypeName.lastPart (Text.trim (TypeName.dropParameters (Text.trim part))) "."
    if base == "" then addBases cls parts f
    else (baseKind? base).elim (false, f) fun kind => addBases cls parts (f.addRelation base cls kind)

def bodyOf (m : Match) : List Char := (Braces.body? m.first.rest).getD []

def classEntries (package : String) : List Match → Findings → Option (List ClassEntry) × Findings
  | [], f => (some [], f)
  | m :: ms, f =>
    let cls := m.text 1
    let f := f.addClass cls
    match addBases cls (((m.group? 2).map fun b => Text.splitOn b ",").getD []) f with
    | (false, f) => (none, f)
    | (true, f) =>
      let body := bodyOf m
      let (fields, f) := declaredFields body cls f
      let (fields, f) := codeFindings body cls fields f
      let abstract := Chars.contains "abstract".toList (m.first.upTo m.last)
      let entry : ClassEntry :=
        { name := cls, fields := Text.ascendingSet fields, methods := methods body
          stereotype := if abstract then .abstract else .concrete
          isAbstract := abstract, package }
      let (rest, f) := classEntries package ms f
      (rest.map (entry :: ·), f)

def interfaceEntry (package : String) (m : Match) (f : Findings) : ClassEntry × Findings :=
  let cls := m.text 1
  let bases := ((m.group? 2).map fun b => Text.splitOn b ",").getD []
  ({ name := cls, methods := methods (bodyOf m), stereotype := .interface, isAbstract := true, package },
    bases.foldl (fun f b =>
      let base := Text.trim (TypeName.lastPart (Text.trim b) ".")
      if base == "" then f else f.addRelation base cls "extends") (f.addClass cls))

def classes (source package : String) (f : Findings) : List ClassEntry × Findings :=
  let cs := source.toList
  let scope := (namespacePattern.findFirst cs).map (·.text 1)
  let f := scope.elim f f.addScope
  let f := (usingPattern.findAll cs).foldl (fun f m =>
    f.addImport ((Text.splitOn (m.text 1) ".").headD "")) f
  let package := scope.getD package
  match classEntries package (classPattern.findAll cs) f with
  | (none, f) => ([], f)
  | (some entries, f) =>
    let (more, f) := Findings.readEach (some <| interfaceEntry package ·) (interfacePattern.findAll cs) f
    (entries ++ more, f)

end CodeAtlas.CSharp
