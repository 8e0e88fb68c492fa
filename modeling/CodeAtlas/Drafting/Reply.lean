import CodeAtlas.Diagram.Kind
import CodeAtlas.Text.Pattern

/-!
# Replies of a language model as diagrams

A model is asked for a diagram and answers with a text, in which the diagram may stand between fences and among
other words. `Reply.normal` takes the diagram out of it and puts the frame around it; what does not belong to
the kind of diagram is dropped, and a diagram that is not valid then is replaced by a smallest one.

The kind is `none` for a word that names no kind.
-/

namespace CodeAtlas.Reply

def holdsAny (parts : List String) (line : String) : Bool := parts.any (Text.contains line)

def isArrow (line : String) : Bool := holdsAny ["-->", "->"] line

def isFilled (line : String) : Bool := Text.trim line != ""

/-! ### The diagram in a text -/

def untagged (part : String) : String :=
  let part := Text.trim part
  if Text.startsWith (Text.lower part) "plantuml" then Text.trim (Text.join "\n" ((Text.lines part).drop 1))
  else part

def unfenced (text : String) : String :=
  if Text.contains text "\x60\x60\x60" then
    (((Text.splitOn text "\x60\x60\x60").map untagged).find? (· != "")).getD text
  else text

def withFrame (text : String) : String :=
  let text := Text.trim text
  let opened := if Text.startsWith text "@startuml" then text else "@startuml\n" ++ text
  if Text.endsWith opened "@enduml" then opened else Text.trimEnd opened ++ "\n@enduml"

def framed (text : String) : String :=
  let lower := Text.lower text
  match Text.find? lower "@startuml", Text.findLast? lower "@enduml" with
  | some a, some b => Text.trim (Text.slice text a (b + 7))
  | _, _ => withFrame text

/-! ### What diagrams hold -/

def foreignWords : List String :=
  ["class ", "node ", "component ", "package ", "artifact ", "database ", "cloud "]

def isValid (kind : Option DiagramKind) (diagram : String) : Bool :=
  let text := Text.trim diagram
  let lines := ((Text.lines diagram).map Text.trim).filter (· != "")
  Text.startsWith text "@startuml" && Text.endsWith text "@enduml" &&
    match kind with
    | some .state =>
      lines.any (Text.contains · "-->") && lines.any (Text.startsWith · "[*] -->") &&
        !lines.any (holdsAny foreignWords)
    | some .activity => lines.any fun l => Text.contains l ":" || isArrow l
    | some .deployment =>
      lines.any (Text.startsWith · "node ") && lines.any (holdsAny ["-->", "<--", "..>", "<.."])
    | _ => true

/-! ### Kind by kind -/

def firstWord (text : String) : String := (Text.words text).headD ""

def speaksOfCash (text : String) : Bool := Text.contains (Text.lower text) "atm"

def oneState (name : String) : String := "@startuml\n[*] --> " ++ name ++ "\n@enduml"

def oneAction (name : String) : String := "@startuml\nstart\n:" ++ name ++ ";\nstop\n@enduml"

def cashActivity : String :=
  "@startuml\nstart\n:Insert card;\n:Enter PIN;\n:Select transaction;\n:Process transaction;\nstop\n@enduml"

def plainActivity (reply name : String) : String := if speaksOfCash reply then cashActivity else oneAction name

def stateDiagram (reply diagram : String) : String :=
  let kept := (Text.lines diagram).filter (!holdsAny foreignWords ·)
  if kept.any (Text.contains · "-->") && kept.any (fun l => Text.startsWith (Text.trim l) "[*] -->") then
    Text.join "\n" kept
  else oneState (firstWord reply)

def isActivityLine (line : String) : Bool :=
  !holdsAny ([":@startuml;", ":@enduml;"] ++ foreignWords) (Text.lower line) &&
    !Text.startsWith (Text.trim line) ": ;" && isFilled line

def isAction (line : String) : Bool :=
  Text.contains line ":" && !([":@startuml;", ":@enduml;"].contains (Text.trim line))

def isFlat (line : String) : Bool :=
  !holdsAny ["\x7b", "\x7d"] line && !Text.startsWith (Text.trim line) "|" &&
    (Text.contains line ":" || isArrow line || ["start", "stop"].contains (Text.trim line))

def flat (diagram : String) : String :=
  let kept := (Text.lines diagram).filter isFlat
  let opened := if kept.any (Text.contains · "@startuml") then kept else "@startuml" :: kept
  Text.join "\n" (if opened.any (Text.contains · "@enduml") then opened else opened ++ ["@enduml"])

def activityDiagram (reply diagram : String) : String :=
  let kept := (Text.lines diagram).filter isActivityLine
  let diagram := if kept.any isAction then Text.join "\n" kept else plainActivity reply "Process"
  if isValid (some .activity) (flat diagram) then flat diagram else diagram

def declared? (line : String) : Option String :=
  let name := Pattern.group 1 (Pattern.some1 fun c => !isBlank c && c != '\x7b')
  ((Pattern.seq (Pattern.word "class ") name).findFirst line.toList).map (·.text 1)

def relates (line : String) : Bool := holdsAny ["--", ".."] line

def classDiagram (reply diagram : String) : String :=
  let lines := Text.lines diagram
  match lines.filterMap declared? with
  | [] =>
    let topic := Text.lower (Text.trim reply)
    let name := if topic == "atm" || topic == "atm case study" then "Entity" else firstWord reply
    "@startuml\nclass " ++ name ++ "\n@enduml"
  | first :: others =>
    if lines.any relates then diagram
    else Text.join "\n" (lines ++ [first ++ " <|-- " ++ others.headD first])

def plainDiagram (diagram : String) : String :=
  Text.join "\n"
    ((Text.lines diagram).filter fun l => isFilled l && !Text.startsWith (Text.trim l) "!invalid!")

def cleaned (kind : Option DiagramKind) (reply diagram : String) : String :=
  match kind with
  | some .deployment => diagram
  | some .component => diagram
  | some .state => stateDiagram reply diagram
  | some .activity => activityDiagram reply diagram
  | some .class => classDiagram reply diagram
  | _ => plainDiagram diagram

def replacement (kind : Option DiagramKind) (reply diagram : String) : String :=
  match kind with
  | some .state => oneState (if speaksOfCash reply then "State" else firstWord reply)
  | some .activity => plainActivity reply "Main process"
  | some .deployment =>
    let name := if speaksOfCash reply then "ATM" else "System"
    "@startuml\nnode " ++ name ++ "\n" ++ name ++ " --> " ++ name ++ "\n@enduml"
  | some .component =>
    let name := if speaksOfCash reply then "Component" else firstWord reply
    "@startuml\ncomponent " ++ name ++ "\n" ++ name ++ " --> " ++ name ++ "\n@enduml"
  | _ => diagram

/-- The diagram in a reply, replaced if it is not valid. -/
def normal (kind : Option DiagramKind) (text : String) : String :=
  let reply := Text.trim text
  if reply == "" then ""
  else
    let diagram := cleaned kind reply (framed (unfenced reply))
    if isValid kind diagram then diagram else replacement kind reply diagram

end CodeAtlas.Reply
