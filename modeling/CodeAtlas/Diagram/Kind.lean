import CodeAtlas.Diagram.Activity
import CodeAtlas.Diagram.ClassDiagram
import CodeAtlas.Diagram.Communication
import CodeAtlas.Diagram.Component
import CodeAtlas.Diagram.Deployment
import CodeAtlas.Diagram.Sequence
import CodeAtlas.Diagram.SizeLimit
import CodeAtlas.Diagram.StateMachine
import CodeAtlas.Diagram.UseCase

/-!
# Kinds of diagrams

`DiagramKind.lines` draws a schema as a diagram of a kind, `DiagramKind.render` writes it, within a size where the kind
has one; `drawSchema` first finds out which kind is asked for.
-/

namespace CodeAtlas

inductive DiagramKind where
  | «class»
  | sequence
  | usecase
  | state
  | activity
  | component
  | communication
  | deployment
  deriving DecidableEq

namespace DiagramKind

def all : List DiagramKind :=
  [.class, sequence, usecase, state, activity, component, communication, deployment]

def name : DiagramKind → String
  | .class => "class"
  | sequence => "sequence"
  | usecase => "usecase"
  | state => "state"
  | activity => "activity"
  | component => "component"
  | communication => "communication"
  | deployment => "deployment"

def ofName? (s : String) : Option DiagramKind := all.find? (·.name == s)

def ofWord? (s : String) : Option DiagramKind :=
  if s == "use-case" then some usecase else ofName? s

def lines (kind : DiagramKind) (style : Style) (schema languages : Value) : Loose (List Line) :=
  match kind with
  | .class => ClassDiagram.lines style schema languages
  | sequence => Sequence.lines style schema
  | usecase => UseCaseDiagram.lines style schema
  | state => StateMachine.lines style schema
  | activity => Activity.lines style schema
  | component => Component.lines style schema
  | communication => Communication.lines style schema
  | deployment => Deployment.lines style schema

def isLimited : DiagramKind → Bool
  | .class => true
  | sequence => true
  | _ => false

def render (kind : DiagramKind) (style : Style) (schema languages : Value) : Loose String := do
  let text := Line.render (← kind.lines style schema languages)
  return if kind.isLimited then limitSize style.theme text 2000 8000 else text

end DiagramKind

def drawSchema (config schema kind languages : Value) (setOrder : Reordering Atom := .ascending) : Loose String := do
  let style ← Style.ofValue config setOrder
  if !schema.isRecord then throw (.invalid "Schema must be a dictionary")
  let word ← kind.lower
  match DiagramKind.ofWord? word with
  | some k => k.render style schema languages
  | none => throw (.invalid ("Unsupported diagram type: " ++ word))

end CodeAtlas
