import CodeAtlas.Diagram.Line
import CodeAtlas.Diagram.Schema
import CodeAtlas.Relations.Kind

/-!
# Class diagrams

A class diagram declares the classes of a schema, language by language, and draws the relations between
classes that it declares.

* `memberLine?`, `methodLine?`: a field or a method, which is a text or a record; a private one is left out
  where the style says so;
* `classLines`: the declaration of a class;
* `relationLines`: each relation between declared classes once, by its ends and kind;
* `lines`: the whole diagram.
-/

namespace CodeAtlas.ClassDiagram

/-! ### Members -/

inductive Visibility where
  | everyone
  | owner
  | heirs
  | package
  deriving DecidableEq

namespace Visibility

def sign : Visibility → Char
  | everyone => '+'
  | owner => '-'
  | heirs => '#'
  | package => '~'

def word : Visibility → String
  | everyone => "public"
  | owner => "private"
  | heirs => "protected"
  | package => "package"

def all : List Visibility := [everyone, owner, heirs, package]

def ofSign? (c : Char) : Option Visibility := all.find? (·.sign == c)

def ofValue (v : Value) : Loose Visibility := do
  let k ← v.key
  return (all.find? fun x => k.same (.text x.word)).getD everyone

end Visibility

def shown? (style : Style) (v : Visibility) (rest : String) : Option String :=
  if !style.showPrivate && v == .owner then none
  else some (String.singleton v.sign ++ " " ++ rest)

def textLine? (style : Style) (member : String) : Option String :=
  match (Text.trim member).toList with
  | [] => none
  | c :: cs =>
    match Visibility.ofSign? c with
    | some v => shown? style v (String.ofList (Chars.trim cs))
    | none => some ("+ " ++ String.ofList (c :: cs))

def memberLine? (style : Style) (field : Value) : Loose (Option String) := do
  if field.isRecord then
    let name ← field.getD "name" (.text "")
    let type ← field.getD "type" (.text "")
    let v ← Visibility.ofValue (← field.getD "visibility" (.text "public"))
    return shown? style v (name.display ++ if type.truthy then ": " ++ type.display else "")
  else return textLine? style (← field.textFor "strip")

def parameters (params : Value) : Loose String := do
  let ps := (← params.items).filter fun p => !p.isText "self"
  return Text.join ", " (← ps.mapM Value.asText)

def methodLine? (style : Style) (method : Value) : Loose (Option String) := do
  if method.isRecord then
    let name ← method.getD "name" (.text "")
    let v ← Visibility.ofValue (← method.getD "visibility" (.text "public"))
    let result ← method.getD "return_type" (.text "")
    let params ← method.getD "params" (.list [])
    if (shown? style v "").isNone then return none
    let signature := name.display ++ "(" ++ (← parameters params) ++ ")"
    return shown? style v (signature ++ if result.truthy then ": " ++ result.display else "")
  else return textLine? style (← method.textFor "strip")

def signOf (member : String) : Char :=
  (((Text.trim member).toList.head?.bind Visibility.ofSign?).getD .everyone).sign

/-! ### Classes -/

/-- What a class is drawn as: the word that declares it and the mark after its name. -/
inductive Shape where
  | interface
  | abstract
  | enumeration
  | struct
  | plain
  deriving DecidableEq

namespace Shape

def of (stereotype : Value) (isAbstract : Bool) : Shape :=
  if stereotype.isText "interface" then interface
  else if stereotype.isText "abstract" || isAbstract then .abstract
  else if stereotype.isText "enum" then enumeration
  else if stereotype.isText "struct" then struct
  else plain

def declarator : Shape → Declarator
  | interface => .interface
  | .abstract => .abstractClass
  | enumeration => .enumeration
  | struct => .class
  | plain => .class

def mark : Shape → String
  | interface => " <<interface>>"
  | .abstract => " <<abstract>>"
  | enumeration => " <<enumeration>>"
  | struct => " <<struct>>"
  | plain => ""

end Shape

def memberLines (line? : Value → Loose (Option String)) (members : Value) : Loose (List Line) := do
  let ls ← (← members.items).mapM line?
  return (ls.filterMap id).map fun l => .inner (.plain l)

def fieldLines (style : Style) (cls : Value) : Loose (List Line) := do
  if !style.showFields then return []
  let fields ← cls.getD "fields" (.list [])
  if !fields.truthy then return []
  let ls ← memberLines (memberLine? style) fields
  return ls ++ if (← cls.get "methods").truthy then [.inner (.plain "..")] else []

def methodLines (style : Style) (cls : Value) : Loose (List Line) := do
  if !style.showMethods then return []
  let methods ← cls.getD "methods" (.list [])
  if !methods.truthy then return [] else memberLines (methodLine? style) methods

def valueLines (stereotype cls : Value) : Loose (List Line) := do
  if !stereotype.isText "enum" then return []
  return (← (← cls.firstOf ["values"] (.list [])).items).map fun v => .inner (.plain v.display)

def packageLines (name package : Value) : List Line :=
  if package.truthy then
    [.plain ("note right of " ++ name.display), .inner (.plain ("Package: " ++ package.display)), .plain "end note"]
  else []

def classLines (style : Style) (cls : Value) : Loose (List Line) := do
  let name ← cls.getD "class" (.text "UnnamedClass")
  let stereotype ← cls.firstOf ["stereotype"] (← cls.getD "type" (.text "class"))
  let isAbstract ← cls.getD "abstract" (.bool false)
  let package ← cls.firstOf ["package"] (← cls.get "namespace")
  let shape := Shape.of stereotype isAbstract.truthy
  let fields ← fieldLines style cls
  let methods ← methodLines style cls
  let values ← valueLines stereotype cls
  return [.declares shape.declarator name.display (shape.mark ++ " \x7b")] ++ fields ++ methods ++ values ++
    [.plain "\x7d"] ++ packageLines name package ++ [.empty]

def cleanName (name : String) : String :=
  String.ofList (name.toList.map fun c => if "<>[]() ".toList.contains c then '_' else c)

/-! ### Relations -/

def arrowFor (kind : Atom) : String :=
  match kind with
  | .text s => ((RelationKind.ofName? s).getD .association).arrow
  | _ => RelationKind.association.arrow

def multiplicities (relation : Value) : Loose (Value × Value) := do
  let m ← relation.getD "multiplicity" (.record [])
  if m.isRecord then return (← m.getD "from" (.text ""), ← m.getD "to" (.text ""))
  else return (← relation.getD "multiplicity_from" (.text ""), ← relation.getD "multiplicity_to" (.text ""))

def relationLine (relation source target : Value) (kind : Atom) : Loose Line := do
  let (a, b) ← multiplicities relation
  let label ← relation.getD "label" (.text "")
  let arrow := " " ++ (if a.truthy then "\"" ++ a.display ++ "\" " else "") ++ arrowFor kind ++
    (if b.truthy then " \"" ++ b.display ++ "\"" else "") ++ " "
  return .joins source.display arrow target.display (if label.truthy then " : " ++ label.display else "")

def drawn? (declared : List Atom) (relation : Value) : Loose (Option (Atom × Atom × Value)) := do
  let source ← relation.get "from"
  let target ← relation.get "to"
  let kind ← relation.getD "type" (.text "association")
  if !source.truthy || !target.truthy then return none
  let a ← source.key
  if !a.isIn declared then return none
  let b ← target.key
  if !b.isIn declared then return none
  return some (a, b, kind)

def relationLinesFrom (declared : List Atom) (seen : List (Atom × Atom × Atom)) :
    List Value → Loose (List Line)
  | [] => return []
  | r :: rs => do
    match ← drawn? declared r with
    | none => relationLinesFrom declared seen rs
    | some (a, b, k) =>
      let kind ← k.key
      if seen.any fun s => s.1.same a && s.2.1.same b && s.2.2.same kind then
        relationLinesFrom declared seen rs
      else
        let line ← relationLine r (.atom a) (.atom b) kind
        return line :: (← relationLinesFrom declared ((a, b, kind) :: seen) rs)

def relationLines (declared : List Atom) (relations : List Value) : Loose (List Line) :=
  relationLinesFrom declared [] relations

def relationText (relation : Value) (declared : Option (List Atom)) : Loose String := do
  let declared ← match declared with
    | some d => pure d
    | none => do pure [← (← relation.get "from").key, ← (← relation.get "to").key]
  return ((← relationLines declared [relation]).headD .empty).text

def among (declared : List Atom) (relations : List Value) : Loose (List Value) :=
  relations.filterM fun r => do
    let source ← r.get "from"
    let target ← r.get "to"
    if !(← source.key).isIn declared then return false
    return (← target.key).isIn declared

/-! ### The diagram -/

def opening (style : Style) : List Line :=
  style.opening ++ ["", "' PlantUML Class Diagram", "' Generated from code analysis", "", "' Configuration",
    "skinparam classAttributeIconSize 0", "skinparam shadowing false", "skinparam roundcorner 5",
    "skinparam class \x7b", "  BackgroundColor White", "  BorderColor Black", "  ArrowColor Black", "\x7d",
    ""].map .plain

def classesUnder (schema lang : Value) : Loose Value := do
  let fields ← schema.fieldsFor "get"
  return (Record.get? (← lang.key) fields).getD (.list [])

def languageLines (style : Style) (schema lang : Value) : Loose (List Line × List Atom) := do
  let classes ← classesUnder schema lang
  if !classes.truthy then return ([], [])
  let heading := Line.plain ("' " ++ (← lang.upper) ++ " Classes")
  let declared ← (← classes.items).mapM fun c => do
    let ls ← classLines style c
    return (ls, ← (← c.get "class").key)
  return (heading :: (declared.map (·.1)).flatten ++ [.empty], declared.map (·.2))

def languagesOf (filter : Value) : Value := filter.orElse (.texts Schema.languages)

def lines (style : Style) (schema filter : Value) : Loose (List Line) := do
  let parts ← (← (languagesOf filter).items).mapM (languageLines style schema)
  let relations ← schema.getD "relations" (.list [])
  let drawn ←
    if relations.truthy then do
      let ls ← relationLines (parts.map (·.2)).flatten (← relations.items)
      pure (.plain "' Relationships" :: ls ++ [.empty])
    else pure []
  let _ ← relations.length
  return opening style ++ (parts.map (·.1)).flatten ++ drawn ++ [.close]

end CodeAtlas.ClassDiagram
