import CodeAtlas.Client.Settings
import CodeAtlas.Digest.Sha256
import CodeAtlas.Drafting.Prompt
import CodeAtlas.Drafting.Reply

/-!
# Drafting diagrams

`draft` has a model draw a diagram of what a user describes. Component and deployment diagrams are drawn from the
schema instead. Results are kept in a cache by a key that is made from all that was asked for, and a result that
is in the cache is given again, whatever the service is like then. When the service cannot be asked or fails, a
fixed diagram stands in, with a warning, and is kept in the cache too.

* `Draft.cacheKey`, `Draft.ofAnswer`: the key of a request, and what an answer gives;
* `draft`: a request with all that happens around it.

## Scope

The service is what it answers, and the order of sets is part of a request.  Requests come one after the other.
-/

namespace CodeAtlas

def StandIn.diagram (kind : Option DiagramKind) : String :=
  match kind with
  | some .class =>
    "@startuml\nclass User \x7b\n  +UUID id\n  +string email\n\x7d\nclass Admin\nUser <|-- Admin\n@enduml"
  | some .sequence =>
    "@startuml\nactor User\nparticipant System\nUser -> System : describe requirements\n" ++
      "System -->> User : generated diagram\n@enduml"
  | some .usecase =>
    "@startuml\nactor User\nrectangle System \x7b\n  usecase ManageRequirements\n\x7d\n" ++
      "User --> ManageRequirements\n@enduml"
  | some .state =>
    "@startuml\n[*] --> Draft\nDraft --> Generated : request\nGenerated --> [*] : deliver\n@enduml"
  | some .activity =>
    "@startuml\nstart\n:Collect requirements;\n:Design solution;\n:Review with stakeholders;\nstop\n@enduml"
  | _ => "@startuml\nnote left\nLLM stubbed due to configuration\nend note\n@enduml"

/-- What each file of the cache holds, by its key; nothing for a file that cannot be read. -/
abbrev DraftCache := List (String × Option Value)

namespace DraftCache

def get (cache : DraftCache) (key : String) : Value := ((cache.lookup key).getD none).getD .null

def put (key : String) (result : Value) : DraftCache → DraftCache
  | [] => [(key, some result)]
  | (k, v) :: rest => if k == key then (k, some result) :: rest else (k, v) :: put key result rest

def fileName (key : String) : String := "groq_" ++ key ++ ".json"

def fileNames (cache : DraftCache) : List String := Text.ascending (cache.map fun e => fileName e.1)

end DraftCache

namespace Draft

/-- What a user asks for: one description or several, and how freely the model may answer; and the order in which sets
hand out their members while it is answered. -/
structure Request extends Prompt.Request where
  temperature : Value
  descriptions : Value := .null
  setOrder : Reordering Atom := .ascending

def requestFields (r : Prompt.Request) : List (String × Value) :=
  [("prompt", r.goal), ("diagram_type", r.kind), ("output_format", r.format), ("context", r.context),
    ("schema", r.schema), ("style_preferences", r.style), ("focus", r.focus)]

def canonicalRequest (r : Prompt.Request) : String := Json.canonical (.ofFields (requestFields r))

def cacheKey (r : Prompt.Request) : String := Sha256.hexDigest (canonicalRequest r)

def goalOf (r : Request) : Loose Value :=
  match r.descriptions with
  | .list (d :: ds) => do return .text (Text.join "\n" (← (d :: ds).mapM Value.asText))
  | _ => return r.goal

def kindOf (kind : Value) (format : String) : Loose DiagramKind := do
  match DiagramKind.ofName? (Text.trim (← kind.lower)) with
  | some k => return k
  | none => throw (.invalid ("Unsupported diagram_type '" ++ kind.display ++ "' for format '" ++ format ++
      "'. Valid options: " ++ Prompt.kindNames))

def result (kind : DiagramKind) (format reply source : String) (more : List (String × Value)) : Value :=
  .ofFields ([("diagram", .text (Reply.normal (some kind) reply)), ("raw_diagram", .text (Text.trim reply)),
    ("diagram_type", .text kind.name), ("format", .text format), ("source", .text source)] ++ more)

def standIn (kind : DiagramKind) (format source warning : String) (more : List (String × Value)) : Value :=
  result kind format (StandIn.diagram (some kind)) source (("warnings", .texts [warning]) :: more)

def fromSchema (kind : DiagramKind) (format : String) (r : Request) : Loose Value := do
  let style ← Style.ofValue r.style r.setOrder
  let diagram ← kind.render style (r.schema.orElse (.record [])) .null
  return result kind format diagram "synthesized" [("model", .text "none")]

def instruction (kind : DiagramKind) : String :=
  "You are an expert UML architect. Generate only PlantUML code for the requested diagram type: " ++ kind.name ++
  ". For activity diagrams, do NOT use any class diagram syntax (no \"class\", \"--\", \"*--\", \"<|--\"). Use only PlantUML activity diagram syntax: \"start\", \"stop\", \":action;\", decisions, and transitions. " ++
  "For deployment diagrams, use only PlantUML deployment diagram syntax (node, artifact, database, cloud, and relationships). Do not use class or component diagram syntax. " ++
  "For class diagrams, use only PlantUML class diagram syntax. Do not use activity, deployment, or component diagram syntax. " ++
  "Return only PlantUML code, no explanations, no markdown, no extra text."

def payload (kind : DiagramKind) (prompt : String) (temperature : Value) : Value :=
  let message := fun (role content : String) =>
    Value.ofFields [("role", .text role), ("content", .text content)]
  .ofFields [("model", .text Service.defaultModel),
    ("messages", .list [message "system" (instruction kind), message "user" prompt]),
    ("temperature", temperature), ("max_tokens", .nat 4096)]

def answerText (answer : Value) : Loose String := do ((← Service.content answer).orText "").trim

def ofAnswer (kind : DiagramKind) (format : String) (answer : Except CallFailure Value) : Value :=
  let failed := fun (source m : String) => standIn kind format source m [("error", .text m)]
  match answer with
  | .error (.disabled m) => standIn kind format "disabled" m []
  | .error (.failed m) => failed "fallback" m
  | .error (.broken m) => failed "error-fallback" m
  | .ok data =>
    match answerText data with
    | .error e => failed "error-fallback" e.message
    | .ok reply =>
      if Reply.normal (some kind) reply == "" then failed "error-fallback" "Empty response from LLM"
      else result kind format reply "groq" [("model", .text Service.defaultModel)]

def skipWarning (stub : StubMode) : String :=
  if stub.fixed then "LLM call skipped because STUB_LLM is enabled."
  else "Groq client disabled or missing API key; returned stub diagram."

def recalled (cached : Value) : Loose Value :=
  match cached with
  | .record fs => return .record (Record.put (.text "source") (.text "local-cache") fs)
  | v => throw (.mismatch ("'" ++ v.kindName ++ "' object does not support item assignment"))

end Draft

/-- What came of drafting: the result, the cache, and the messages that were sent. -/
structure DraftOutcome where
  result : Loose Value
  cache : DraftCache
  sent : List Value := []

open Draft in
def draftFresh (service : Service) (stub : StubMode) (cache : DraftCache) (r : Request) (kind : DiagramKind)
    (format : String) : DraftOutcome :=
  let request := { r.toRequest with kind := .text kind.name, format := .text format }
  let key := cacheKey request
  let cached := cache.get key
  if cached.truthy then { result := recalled cached, cache }
  else if stub.isOn || !service.isReady then
    let source := if stub.isOn then "stub" else "disabled"
    let v := standIn kind format source (skipWarning stub) []
    { result := .ok v, cache := cache.put key v }
  else
    match Prompt.text request with
    | .error e => { result := .error e, cache }
    | .ok prompt =>
      let v := ofAnswer kind format service.answer
      { result := .ok v, cache := cache.put key v, sent := [payload kind prompt r.temperature] }

open Draft in
/-- Answer a request from the cache, the schema or the service. -/
def draft (service : Service) (stub : StubMode) (cache : DraftCache) (r : Request) : DraftOutcome :=
  let settled : Loose (Value × DiagramKind × String) := do
    let goal ← goalOf r
    let _ ← r.kind.lower
    let format ← Prompt.formatOf r.format
    return (goal, ← kindOf r.kind format, format)
  match settled with
  | .error e => { result := .error e, cache }
  | .ok (goal, kind, format) =>
    match kind with
    | .component => { result := fromSchema kind format r, cache }
    | .deployment => { result := fromSchema kind format r, cache }
    | _ => draftFresh service stub cache { r with goal } kind format

end CodeAtlas
