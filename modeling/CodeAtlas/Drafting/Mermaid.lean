import CodeAtlas.Diagram.Kind
import CodeAtlas.Text.Pattern

/-!
# Mending flowchart notation

Models write Mermaid flowcharts with mistakes that depend on the kind of diagram. `Mermaid.mend` goes through
the lines and mends or drops what is known to be wrong.
-/

namespace CodeAtlas.Mermaid

def roundNode (label : Pattern) : Pattern :=
  .all [.word "((", .group 1 label, .word "))"]

def stadium (label : Pattern) (line : List Char) : List Char :=
  (roundNode label).replaceWith (fun m => "([".toList ++ (m.text 1).toList ++ "])".toList) line

def mendNodes (line : String) : String :=
  let inner := fun c => c != ')'
  String.ofList (stadium (.many inner) (stadium (.some1 inner) line.toList))

def mendUseCase (line : String) : String :=
  let lower := Text.lower line
  let second := (Text.words line)[1]?
  if Text.startsWith lower "usecasediagram" then "flowchart TD"
  else if Text.startsWith lower "actor " then
    (second.map fun n => n ++ "([" ++ n ++ "])").getD line
  else if Text.startsWith lower "usecase " then
    (second.map fun n => n ++ "[\"" ++ n ++ "\"]").getD line
  else line

def dropsMessage (inFlowchart : Bool) (line : String) : Bool :=
  let lower := Text.lower line
  (inFlowchart && Text.contains lower "participant" && !Text.startsWith lower "participant" &&
    !Text.contains line "-->" && !Text.contains line "->>") || Text.trim lower == "flowchart td"

def closesNext (lines : List String) (line : String) : Loose Bool :=
  match lines.findIdx? (· == line) with
  | none => throw (.invalid (quoted line ++ " is not in list"))
  | some i =>
    match lines[i + 1]? with
    | none => throw (.outOfRange "list")
    | some next => return Text.lower next == "end"

def dropsPart (lines : List String) (first : Bool) (line : String) : Loose Bool := do
  let lower := Text.lower line
  if Text.startsWith lower "participant" || Text.contains line "->>" then return true
  if Text.startsWith lower "sequencediagram" || Text.startsWith lower "flowchart td" then return true
  if lower == "end" && first then return true
  if Text.startsWith lower "subgraph" && 1 < lines.length then
    if ← closesNext lines line then return true
  return (Text.words line).length == 1 && isLowerText line.toList

def mendLine? (kind : Option DiagramKind) (lines : List String) (inFlowchart first : Bool) (line : String) :
    Loose (Option String) := do
  match kind with
  | some .activity => return some (mendNodes line)
  | some .communication => return if dropsMessage inFlowchart line then none else some line
  | some .usecase => return some (mendUseCase line)
  | some .component => return if ← dropsPart lines first line then none else some line
  | some .deployment => return if ← dropsPart lines first line then none else some line
  | _ => return some line

def mendLines (kind : Option DiagramKind) (lines : List String) (inFlowchart : Bool) (kept : List String) :
    List String → Loose (List String)
  | [] => return kept
  | l :: ls => do
    let line := Text.trim l
    let mended ←
      if line == "" then pure (some "") else mendLine? kind lines inFlowchart kept.isEmpty line
    mendLines kind lines inFlowchart (kept ++ mended.toList) ls

def isMessageLine (line : String) : Bool :=
  let lower := Text.trim (Text.lower line)
  Text.startsWith lower "participant" || Text.contains line "->>" ||
    ["note ", "activate ", "deactivate ", "alt ", "loop ", "opt ", "par "].any (Text.contains lower) ||
    lower == "end" || lower == "else" || Text.trim line == ""

def asMessages (text : String) : String :=
  let lower := Text.lower text
  if Text.contains lower "flowchart td" && Text.contains lower "participant" then
    let text := Text.replace text "flowchart TD" "sequenceDiagram"
    Text.join "\n" ((Text.splitOn text "\n").filter isMessageLine)
  else text

def mend (kind : Option DiagramKind) (text : String) : Loose String := do
  let lines := Text.splitOn text "\n"
  let inFlowchart := Text.contains (Text.lower text) "flowchart"
  let result := Text.join "\n" (← mendLines kind lines inFlowchart [] lines)
  return if kind == some .communication then asMessages result else result

end CodeAtlas.Mermaid
