import CodeAtlas.Value.Access

/-!
# What a model is told and asked about a repository

Before a model is asked about a repository, its classes and relations are condensed into a context. Classes and
relations are loosely typed: what they lack may end the condensing. The questions ask for relations, patterns,
improvements and a view of the architecture; each starts with facts from a context and ends with fixed instructions.
-/

namespace CodeAtlas.Advice

def countUp (counts : Record) (key : Atom) : Record :=
  match Record.get? key counts with
  | some (.atom (.int n)) => Record.put key (.int (n + 1)) counts
  | _ => Record.put key (.nat 1) counts

def append (lists : Record) (key : Atom) (v : Value) : Record :=
  match Record.get? key lists with
  | some (.list vs) => Record.put key (.list (vs ++ [v])) lists
  | _ => Record.put key (.list [v]) lists

def classTable (classes : List Value) : Loose Record :=
  classes.foldlM (fun table c => do
    let info := Value.ofFields [("fields", ← c.getD "fields" (.list [])), ("methods", ← c.getD "methods" (.list [])),
      ("stereotype", ← c.getD "stereotype" (.text "class")), ("package", ← c.getD "package" (.text ""))]
    return Record.put (← (← c.field "class").key) info table) []

def relationTable (relations : List Value) : Loose Record :=
  relations.foldlM (fun table r => do
    let kind ← (← r.get "type").key
    let source ← r.field "from"
    let target ← r.field "to"
    return append table kind (.text (source.display ++ " -> " ++ target.display))) []

def relationsContext (classes relations sources : Value) : Loose Value := do
  let table ← classTable (← classes.items)
  let kinds ← relationTable (← relations.items)
  return .ofFields [("classes", .record table), ("existing_relationships", .record kinds),
    ("source_code", sources.orElse (.record [])), ("class_count", .nat (← classes.length)),
    ("relationship_count", .nat (← relations.length))]

def patternsContext (classes relations : Value) : Loose Value := do
  let cs ← (← classes.items).mapM fun c => do
    return Value.ofFields [("name", ← c.field "class"), ("stereotype", ← c.get "stereotype"),
      ("abstract", ← c.getD "abstract" (.bool false)),
      ("method_count", .nat (← (← c.getD "methods" (.list [])).length)),
      ("field_count", .nat (← (← c.getD "fields" (.list [])).length))]
  let rs ← (← relations.items).mapM fun r => do
    return Value.ofFields [("from", ← r.field "from"), ("to", ← r.field "to"), ("type", ← r.field "type")]
  return .ofFields [("classes", .list cs), ("relationships", .list rs)]

def relationCounts (relations : List Value) : Loose Record :=
  relations.foldlM (fun counts r => do
    let counts := countUp counts (← (← r.field "from").key)
    return countUp counts (← (← r.field "to").key)) []

def refactoringContext (classes relations : Value) : Loose Value := do
  let counts ← relationCounts (← relations.items)
  let large ← (← classes.items).filterM fun c => do
    return decide ((← (← c.getD "methods" (.list [])).length) > 10)
  return .ofFields [("total_classes", .nat (← classes.length)), ("class_relationship_counts", .record counts),
    ("large_classes", .list (← large.mapM fun c => c.field "class")), ("relationships", relations)]

def kindCounts (relations : Value) : Loose Record := do
  (← relations.items).foldlM (fun counts r => do
    return countUp counts (← (← r.getD "type" (.text "unknown")).key)) []

def packageTable (classes : List Value) : Loose Record :=
  classes.foldlM (fun table c => do
    let package ← (← c.getD "package" (.text "default")).key
    return append table package (← c.field "class")) []

def architectureContext (classes relations : Value) : Loose Value := do
  let packages ← packageTable (← classes.items)
  return .ofFields [("total_classes", .nat (← classes.length)), ("total_relationships", .nat (← relations.length)),
    ("packages", .record packages), ("relationship_types", .record (← kindCounts relations))]

def relationsAsked : String :=
  Text.join "\n"
    ["",
      "Based on the class names, methods, fields, and existing relationships, infer additional relationships that are likely to exist.",
      "",
      "Consider:",
      "1. Classes with similar names might have relationships",
      "2. Method names suggesting operations on other classes",
      "3. Field types that reference other classes",
      "4. Common design patterns (Factory, Observer, Strategy, etc.)",
      "",
      "Return a JSON array of inferred relationships with this structure:",
      "[",
      "  \x7b",
      "    \"from\": \"ClassName1\",",
      "    \"to\": \"ClassName2\",",
      "    \"type\": \"composition|aggregation|association|uses\",",
      "    \"confidence\": 0.0-1.0,",
      "    \"reasoning\": \"Why this relationship is likely\"",
      "  \x7d",
      "]",
      "",
      "Only include relationships with confidence > 0.6.",
      ""]

def patternsAsked : String :=
  Text.join "\n"
    ["",
      "Identify design patterns present in this codebase.",
      "",
      "Common patterns to look for:",
      "- Creational: Singleton, Factory, Builder, Prototype",
      "- Structural: Adapter, Decorator, Facade, Proxy",
      "- Behavioral: Observer, Strategy, Command, Template Method",
      "",
      "Return a JSON array:",
      "[",
      "  \x7b",
      "    \"pattern\": \"PatternName\",",
      "    \"confidence\": 0.0-1.0,",
      "    \"classes_involved\": [\"Class1\", \"Class2\"],",
      "    \"description\": \"How the pattern is implemented\"",
      "  \x7d",
      "]",
      "",
      "Only include patterns with confidence > 0.7.",
      ""]

def refactoringAsked : String :=
  Text.join "\n"
    ["",
      "Suggest refactoring opportunities based on:",
      "1. God classes (too many responsibilities)",
      "2. Large classes (too many methods)",
      "3. Tight coupling (many dependencies)",
      "4. Missing abstractions",
      "",
      "Return a JSON array:",
      "[",
      "  \x7b",
      "    \"type\": \"ExtractClass|SplitClass|IntroduceInterface|ReduceCoupling\",",
      "    \"target_classes\": [\"Class1\"],",
      "    \"priority\": \"High|Medium|Low\",",
      "    \"reasoning\": \"Why this refactoring would help\",",
      "    \"benefits\": \"Expected improvements\"",
      "  \x7d",
      "]",
      ""]

def architectureAsked : String :=
  Text.join "\n"
    ["",
      "Provide architectural insights as JSON:",
      "\x7b",
      "  \"architecture_style\": \"Layered|MVC|Microservices|Monolithic|...\",",
      "  \"strengths\": [\"Strength 1\", \"Strength 2\"],",
      "  \"weaknesses\": [\"Weakness 1\", \"Weakness 2\"],",
      "  \"coupling_level\": \"Low|Medium|High\",",
      "  \"cohesion_level\": \"Low|Medium|High\",",
      "  \"recommendations\": [\"Recommendation 1\", \"Recommendation 2\"],",
      "  \"overall_quality\": 1-10",
      "\x7d",
      ""]

def commaText (v : Value) : Loose String := do
  let ts ← (← v.items).mapM fun x =>
    match x with
    | .atom (.text s) => Except.ok s
    | x => .error (.mismatch s!"sequence item: expected str instance, {x.kindName} found")
  return Text.join ", " ts

def membersLine (title : String) (members : Value) : Loose String := do
  if members.truthy then return "  " ++ title ++ ": " ++ (← commaText (← members.takeFirst 5)) ++ "\n"
  else return ""

def classLines (name : Atom) (info : Value) : Loose String := do
  let stereotype ← info.field "stereotype"
  let fields ← membersLine "Fields" (← info.field "fields")
  let methods ← membersLine "Methods" (← info.field "methods")
  return "\nClass: " ++ name.display ++ " (" ++ stereotype.display ++ ")\n" ++ fields ++ methods

def relationLines (kind : Atom) (relations : Value) : Loose String := do
  let title ← (Value.atom kind).upper
  let lines ← (← relations.takeFirst 10).items
  return "\n" ++ title ++ ":\n" ++ String.join (lines.map fun r => "  - " ++ r.display ++ "\n")

def relationsQuestion (context : Value) : Loose String := do
  let classCount ← context.field "class_count"
  let relationCount ← context.field "relationship_count"
  let classes ← (← context.field "classes").fieldsFor "items"
  let classTexts ← (classes.take 20).mapM fun c => classLines c.1 c.2
  let relations ← (← context.field "existing_relationships").fieldsFor "items"
  let relationTexts ← relations.mapM fun r => relationLines r.1 r.2
  return "Analyze the following codebase structure and infer additional relationships that might exist between classes.\n\n" ++
    "Number of classes: " ++ classCount.display ++ "\nNumber of existing relationships: " ++ relationCount.display ++
    "\n\nClasses and their members:\n" ++ String.join classTexts ++ "\nExisting relationships:\n" ++
    String.join relationTexts ++ relationsAsked

def countLine (cls : Value) : Loose String := do
  let name ← cls.field "name"
  let stereotype ← if (← cls.field "abstract").truthy then pure (.text "abstract") else cls.field "stereotype"
  let methods ← cls.field "method_count"
  let fields ← cls.field "field_count"
  return "  - " ++ name.display ++ " (" ++ stereotype.display ++ "): " ++ methods.display ++ " methods, " ++
    fields.display ++ " fields\n"

def arrowLine (r : Value) : Loose String := do
  let source ← r.field "from"
  let kind ← r.field "type"
  let target ← r.field "to"
  return "  - " ++ source.display ++ " --" ++ kind.display ++ "--> " ++ target.display ++ "\n"

def patternsQuestion (context : Value) : Loose String := do
  let classes ← context.field "classes"
  let classCount ← classes.length
  let classTexts ← (← (← classes.takeFirst 30).items).mapM countLine
  let relations ← context.field "relationships"
  let relationCount ← relations.length
  let relationTexts ← (← (← relations.takeFirst 50).items).mapM arrowLine
  return "Analyze the following codebase structure and identify design patterns.\n\nClasses (" ++
    toString classCount ++ "):\n" ++ String.join classTexts ++ "\nRelationships (" ++ toString relationCount ++
    "):\n" ++ String.join relationTexts ++ patternsAsked

def descending (entries : Record) : Loose Record :=
  match entries with
  | [] => .ok []
  | [e] => .ok [e]
  | e :: f :: rest =>
    let es := e :: f :: rest
    let numbers := es.mapM fun x =>
      match x.2 with
      | .atom a => a.number?
      | _ => none
    match numbers, es.mapM fun x => x.2.text? with
    | some ns, _ => .ok (((es.zip ns).mergeSort fun p q => Atom.numberLe q.2 p.2).map (·.1))
    | none, some ts => .ok (((es.zip ts).mergeSort fun p q => decide (q.2 ≤ p.2)).map (·.1))
    | none, none => .error (.mismatch "'<' not supported between instances of different kinds")

def refactoringQuestion (context : Value) : Loose String := do
  let total ← context.field "total_classes"
  let counts ← descending (← (← context.field "class_relationship_counts").fieldsFor "items")
  let countTexts := (counts.take 10).map fun c =>
    "  - " ++ c.1.display ++ ": " ++ c.2.display ++ " relationships\n"
  let large ← context.field "large_classes"
  let largeText ← if large.truthy then do
      let names ← (← large.takeFirst 10).items
      pure ("\nLarge classes (>10 methods):\n" ++ String.join (names.map fun n => "  - " ++ n.display ++ "\n"))
    else pure ""
  return "Analyze this codebase structure and suggest refactoring opportunities.\n\nTotal classes: " ++ total.display ++
    "\n\nClasses with many relationships (potential God classes):\n" ++ String.join countTexts ++ largeText ++
    refactoringAsked

def architectureQuestion (context : Value) : Loose String := do
  let classes ← context.field "total_classes"
  let relations ← context.field "total_relationships"
  let packages ← context.field "packages"
  let packageCount ← packages.length
  let kinds ← (← context.field "relationship_types").fieldsFor "items"
  let kindTexts := kinds.map fun k => "  - " ++ k.1.display ++ ": " ++ k.2.display ++ "\n"
  let packageTexts ← ((← packages.fieldsFor "items").take 10).mapM fun p => do
    return "  - " ++ p.1.display ++ ": " ++ toString (← p.2.length) ++ " classes\n"
  return "Analyze the architecture of this codebase and provide insights.\n\nOverview:\n- Total classes: " ++
    classes.display ++ "\n- Total relationships: " ++ relations.display ++ "\n- Packages/modules: " ++
    toString packageCount ++ "\n\nRelationship distribution:\n" ++ String.join kindTexts ++
    "\nPackage distribution:\n" ++ String.join packageTexts ++ architectureAsked

end CodeAtlas.Advice
