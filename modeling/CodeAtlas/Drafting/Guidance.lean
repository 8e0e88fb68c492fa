import CodeAtlas.Diagram.Kind

/-!
# Guidance for drawing diagrams

What a model is told about each kind of diagram: advice, rules, and examples.
-/

namespace CodeAtlas.Guidance

def advice : DiagramKind → List String
  | .class => [
    "Model the core domain types, their attributes, and key operations.",
    "Use inheritance (extends), interfaces (implements), composition (--*), and aggregation (--o) to express relationships accurately.",
    "Highlight important stereotypes such as controllers, services, repositories, entities, or external systems using <<stereotype>> annotations.",
    "Group related classes into packages when it clarifies the architecture.",
    "Expose key properties and methods but keep noise (getters/setters) to a minimum."]
  | .sequence => [
    "Illustrate the runtime collaboration for the primary happy-path scenario.",
    "Show each participant (actors, boundary systems, services, databases) only once with concise labels.",
    "Use synchronous arrows (->) for blocking calls and asynchronous arrows (->>) for fire-and-forget interactions.",
    "Include return arrows (<-- or <<--) when responses are meaningful, plus alt/opt fragments for decisions.",
    "Annotate noteworthy steps with note over ... blocks to capture business rules or side-effects."]
  | .usecase => [
    "Declare actors OUTSIDE the system boundary using: actor ActorName",
    "Group use cases INSIDE a rectangle: rectangle SystemName \x7b usecase UC1 \x7d",
    "Create one use case per core goal using simple syntax: usecase \"Action Name\" as UC1",
    "Connect actors to use cases with simple arrows: ActorName --> UC1",
    "Model <<include>> and <<extend>> relationships when needed: UC1 .> UC2 : <<include>>",
    "CRITICAL: Do NOT use composition (*--) or aggregation (--o) syntax in use case diagrams - those are for class diagrams only"]
  | .state => [
    "Choose a single entity or aggregate with an interesting lifecycle and model its states.",
    "Start with [*] entry state and ensure there is a terminal [*] transition when the lifecycle completes.",
    "CRITICAL: Use correct PlantUML state syntax: state \"Display Name\" as StateId",
    "Label transitions with: StateId1 --> StateId2 : trigger/action",
    "Use state blocks for nested states: state StateId \x7b [*] --> SubState1 \x7d",
    "NEVER use invalid syntax like: State[label=\"Label\"] or State as State[label=\"Label\"]"]
  | .activity => [
    "Represent the primary workflow as a sequence of actions between start and stop nodes.",
    "Use :Action Description; syntax for each activity step (end with semicolon)",
    "Use decision diamonds: if (condition?) then (yes) ... else (no) ... endif",
    "Use swim lanes with |PartitionName| syntax when responsibilities span teams",
    "Start with 'start' keyword and end with 'stop' keyword",
    "Keep each activity label short yet outcome-focused (verb + object)"]
  | .communication => [
    "Use @startuml and @enduml to wrap the diagram.",
    "Declare each participant with: participant Name",
    "Show messages as arrows: A -> B : message",
    "Use 'alt', 'opt', 'loop' blocks for conditional or repeated communication.",
    "Keep the diagram focused on message flow, not internal logic."]
  | .component => [
    "Use @startuml and @enduml to wrap the diagram.",
    "Declare components with [ComponentName] or component ComponentName.",
    "Show interfaces with () or interface InterfaceName.",
    "Connect components with arrows: [A] --> [B]",
    "Group related components with package blocks.",
    "Label connections with interface names or protocols if relevant."]
  | .deployment => [
    "Use @startuml and @enduml to wrap the diagram.",
    "Declare nodes with node NodeName or cloud CloudName.",
    "Show artifacts with artifact ArtifactName or database DatabaseName.",
    "Connect nodes and artifacts with arrows: node1 --> node2",
    "Group artifacts within nodes using curly braces.",
    "Label connections with protocols or network types if relevant."]

def boundaries : DiagramKind → List String
  | .component => [
    "",
    "Use ONLY PlantUML component diagram syntax: [Component], component, interface, etc.",
    "Do not use classDiagram, sequenceDiagram, or deployment keywords."]
  | .deployment => [
    "",
    "Use ONLY PlantUML deployment diagram syntax: node, artifact, database, cloud, etc.",
    "Do not use classDiagram, sequenceDiagram, or component keywords."]
  | _ => []

def flowLimits : List String := [
  "- NEVER use nested blocks or curly braces.",
  "- NEVER use more than 8 lines in the diagram (excluding @startuml/@enduml).",
  "- NEVER use swimlanes (|PartitionName|) or any syntax except direct transitions/actions.",
  "- ONLY use direct transitions (-->), actions (:) and start/stop for activity.",
  "- NEVER use state blocks or nested states for state diagrams."]

def partLimits : List String := [
  "- NEVER use nested packages, nodes, or curly braces.",
  "- NEVER use more than 8 lines in the diagram (excluding @startuml/@enduml).",
  "- ONLY use direct component/node/interface/artifact/database/cloud declarations and direct relationships (arrows).",
  "- NEVER use any block or grouping syntax."]

def limits (kind : DiagramKind) : List String :=
  let section' := fun (rules : List String) =>
    ["", "STRICT RULES", "------------", Text.join "\n" ((boundaries kind).map ("- " ++ ·))] ++ rules ++ [""]
  match kind with
  | .state => section' flowLimits
  | .activity => section' flowLimits
  | .component => section' partLimits
  | .deployment => section' partLimits
  | _ => []

def rules : DiagramKind → List String
  | .class => ["", "STRICT RULES:", "- Only use PlantUML class diagram syntax.",
    "- Do not use state, activity, deployment, or component diagram syntax.", "- Minimal valid example:",
    "@startuml", "class User \x7b", "  +id: int", "  +name: string", "\x7d", "@enduml", ""]
  | .state => ["", "STRICT RULES:", "- Only use PlantUML state diagram syntax.",
    "- Do not use @startuml as a state name.",
    "- Always start with [*] and have at least one valid state and transition.", "- Minimal valid example:",
    "@startuml", "[*] --> Idle", "Idle --> Processing : start", "Processing --> [*] : finish", "@enduml", ""]
  | .activity => ["", "STRICT RULES:", "- Only use PlantUML activity diagram syntax.",
    "- Do not use class, state, deployment, or component diagram syntax.",
    "- Always start with 'start' and end with 'stop'.", "- Minimal valid example:",
    "@startuml", "start", ":Do something;", "stop", "@enduml", ""]
  | .deployment => ["", "STRICT RULES:", "- Only use PlantUML deployment diagram syntax.",
    "- Do not use class, state, activity, or component diagram syntax.",
    "- Always declare at least one node and one relationship.", "- Minimal valid example:",
    "@startuml", "node WebServer", "node Database", "WebServer --> Database : connects", "@enduml", ""]
  | .component => ["", "STRICT RULES:", "- Only use PlantUML component diagram syntax.",
    "- Do not use class, state, activity, or deployment diagram syntax.", "- Minimal valid example:",
    "@startuml", "component API", "component DB", "API --> DB : queries", "@enduml", ""]
  | _ => []

def longExample : DiagramKind → List String
  | .usecase => ["EXAMPLE USE CASE SYNTAX:", "@startuml", "actor User", "rectangle System \x7b",
    "    usecase \"Browse Products\" as UC1", "    usecase \"Place Order\" as UC2", "\x7d",
    "User --> UC1", "User --> UC2", "@enduml"]
  | .state => ["EXAMPLE STATE SYNTAX:", "@startuml", "[*] --> Draft",
    "state \"Pending Payment\" as Pending", "Draft --> Pending : submit", "Pending --> [*] : complete", "@enduml"]
  | .activity => ["EXAMPLE ACTIVITY SYNTAX:", "@startuml", "start", ":User enters prompt;",
    "if (valid?) then (yes)", "  :Generate diagram;", "else (no)", "  :Show error;", "endif", "stop", "@enduml"]
  | _ => []

end CodeAtlas.Guidance
