import CodeAtlas.Drafting.Guidance
import CodeAtlas.Value.JsonWriter

/-!
# Prompts for drawing diagrams

A prompt puts what a user asks for together with guidance on the kind of diagram, the context, the schema of the
analysed code, and preferences.

* `Prompt.contextText`: the context as a list of headed items.
-/

namespace CodeAtlas.Prompt

structure Request where
  goal : Value
  kind : Value := .text "class"
  format : Value := .text "plantuml"
  context : Value := .null
  schema : Value := .null
  style : Value := .null
  focus : Value := .null

def formats : List String := ["plantuml"]

def kindNames : String := Text.join ", " (Text.ascending (DiagramKind.all.map DiagramKind.name))

def contextItem (name : Atom) (value : Value) : Option String :=
  let heading := "- " ++ Text.title (Text.replace name.display "_" " ") ++ ":"
  match value with
  | .atom .null => none
  | .atom (.text s) => some (heading ++ " " ++ Text.trim s)
  | .list items =>
    let shown := (items.map fun i => Text.trim i.display).filter (· != "")
    if shown.isEmpty then none else some (heading ++ Text.join "" (shown.map ("\n    - " ++ ·)))
  | v => some (heading ++ "\n" ++ Json.write Json.pretty v)

def contextText (context : Value) : Loose String := do
  if !context.truthy then return "None"
  let items := (← context.fieldsFor "items").filterMap fun f => contextItem f.1 f.2
  return if items.isEmpty then "None" else Text.join "\n" items

def valueText (v : Value) : String := if v.truthy then Json.write Json.pretty v else "None"

def focusText (focus : Value) : Loose String := do
  if !focus.truthy then return "None"
  let items := (← focus.items).filter fun i => Text.trim i.display != ""
  let shown ← items.mapM Value.trim
  return if shown.isEmpty then "None" else Text.join "\n" (shown.map ("- " ++ ·))

def goalText (goal : Value) : Loose String :=
  match goal.text?.map Text.trim with
  | none => throw (.invalid "user_prompt must be a non-empty string")
  | some "" => throw (.invalid "user_prompt must be a non-empty string")
  | some s => return s

def kindOf (kind : Value) : Loose DiagramKind := do
  match DiagramKind.ofName? (Text.trim (← kind.lower)) with
  | some k => return k
  | none =>
    throw (.invalid ("Unsupported diagram_type '" ++ kind.display ++ "'. Valid options: " ++ kindNames))

def formatOf (format : Value) : Loose String := do
  let f := Text.trim (← format.lower)
  if formats.contains f then return f
  else throw (.invalid
    ("Unsupported output_format '" ++ format.display ++ "'. Valid options: " ++ Text.join ", " formats))

def emptied (line : String) : String :=
  if line.toList.all (fun c => c == ' ' || c == '\t') then "" else line

def taskLines (kind : DiagramKind) (goal : String) : List String := [
  "You are an expert software architect and UML diagram author. Craft a high-impact, detailed, and plausible " ++
    kind.name ++ " diagram that",
  "captures the intent of the following request. If the user prompt is vague or incomplete, IMAGINE a realistic system and fill in plausible details using your knowledge of typical architectures and best practices. Invent classes, actions, nodes, and relationships as needed to create a meaningful and illustrative diagram. Think step-by-step, validate that the design is cohesive, and then emit only the requested diagram code with no commentary or markdown fences.",
  "",
  "USER GOAL",
  "---------",
  goal,
  ""]

def outputLines (kind : DiagramKind) (format : String) : List String := [
  "OUTPUT REQUIREMENTS",
  "--------------------",
  "- Diagram type: " ++ kind.name,
  "- Output syntax: " ++ format,
  "- Return PlantUML code starting with '@startuml' and ending with '@enduml'.",
  "- Do not include explanations, markdown, or surrounding prose.",
  "- Ensure identifiers are deterministic, concise, and readable.",
  "- Prefer industry-standard UML notation and consistent theming.",
  Text.join "\n" (Guidance.longExample kind),
  ""]

def sectionLines (heading : String) (width : Nat) (body : String) : List String :=
  [heading, String.ofList (List.replicate width '-'), body, ""]

def checklist : List String := [
  "QUALITY CHECKLIST",
  "-----------------",
  "- The diagram must reflect every major element from the user goal and context.",
  "- If the user prompt is vague, invent plausible details and structure for a realistic system.",
  "- Highlight external systems, user roles, or boundaries when relevant.",
  "- Avoid duplicate nodes and ensure relationships are semantically accurate.",
  "- Keep line count reasonable (< 250 lines) and layout balanced for readability.",
  "- When uncertain, make a reasonable, professional assumption and proceed."]

def text (r : Request) : Loose String := do
  let goal ← goalText r.goal
  let kind ← kindOf r.kind
  let format ← formatOf r.format
  let context ← contextText r.context
  let focus ← focusText r.focus
  let lines := taskLines kind goal ++ outputLines kind format ++
    sectionLines "CONTEXT (OPTIONAL)" 18 context ++
    sectionLines "SCHEMA SNAPSHOT (OPTIONAL)" 25 (valueText r.schema) ++
    sectionLines "STYLE PREFERENCES (OPTIONAL)" 29 (valueText r.style) ++
    sectionLines "EMPHASIS AREAS (OPTIONAL)" 25 focus ++
    sectionLines "DIAGRAM-SPECIFIC GUIDANCE" 25 (Text.join "\n" ((Guidance.advice kind).map ("- " ++ ·))) ++
    [Text.join "\n" (Guidance.limits kind), Text.join "\n" (Guidance.rules kind), ""] ++ checklist
  let body := Text.join "\n" (lines.map ("        " ++ ·))
  return Text.trim (Text.join "\n" ((Text.splitOn body "\n").map emptied))

end CodeAtlas.Prompt
