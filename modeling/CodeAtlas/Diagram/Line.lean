import CodeAtlas.Value.Access
import CodeAtlas.Value.Order

/-!
# Lines of diagrams

A diagram is a list of lines. Some of them declare a name, some draw an arrow between two names, and the others say
something else; a line may be set in. `Line.text` writes a line, `Line.render` a diagram. A style says which theme a
diagram names and which members of classes it shows; a configuration may leave all of it out. It also says in which
order a diagram lists the members of a set; no configuration has a say in that.
-/

namespace CodeAtlas

inductive Declarator where
  | «class»
  | abstractClass
  | interface
  | enumeration
  | participant
  | actor
  | useCase
  /-- A use case in short, by its name in brackets. -/
  | action
  | component
  | database
  | artifact
  | state
  deriving DecidableEq

def Declarator.mark : Declarator → String
  | .class => "class "
  | abstractClass => "abstract class "
  | interface => "interface "
  | enumeration => "enum "
  | participant => "participant "
  | actor => "actor "
  | useCase => "usecase "
  | action => "("
  | component => "component "
  | database => "database "
  | artifact => "artifact "
  | state => "state "

inductive Line where
  | declares (declarator : Declarator) (name rest : String)
  | joins (source arrow target rest : String)
  | plain (text : String)
  | inner (line : Line)
  deriving DecidableEq

namespace Line

def text : Line → String
  | declares d name rest => d.mark ++ name ++ rest
  | joins source arrow target rest => source ++ arrow ++ target ++ rest
  | plain s => s
  | inner l => "  " ++ l.text

def render (lines : List Line) : String := Text.join "\n" (lines.map text)

def close : Line := plain "@enduml"

def empty : Line := plain ""

end Line

/-- How diagrams are drawn. The order of sets is that of one run of the program. -/
structure Style where
  theme : String := "plain"
  showMethods : Bool := true
  showFields : Bool := true
  showPrivate : Bool := true
  setOrder : Reordering Atom := .ascending

namespace Style

def ofValue (config : Value) (setOrder : Reordering Atom := .ascending) : Loose Style := do
  let config := config.orElse (.record [])
  let theme ← config.getD "theme" (.text "plain")
  let methods ← config.getD "show_methods" (.bool true)
  let fields ← config.getD "show_fields" (.bool true)
  let privates ← config.getD "show_private" (.bool true)
  return ⟨theme.display, methods.truthy, fields.truthy, privates.truthy, setOrder⟩

def opening (style : Style) : List Line := [.plain "@startuml", .plain ("!theme " ++ style.theme)]

end Style

end CodeAtlas
