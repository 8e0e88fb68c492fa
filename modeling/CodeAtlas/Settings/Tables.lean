import CodeAtlas.Client.Settings
import CodeAtlas.Relations.Kind
import CodeAtlas.Repository.Discovery

/-!
# Fixed tables and the configuration as a whole

The tables that other programs look up by name: languages, endings, names that are skipped, kinds of relations,
messages, and the words that hint at frameworks, patterns and layers. `Configuration.load` reads all settings; the first
number that cannot be read ends the loading.
-/

namespace CodeAtlas

namespace Configuration

def tables (env : Environment) : Loose (List (String × Value)) := do
  let maxBytes ← env.int "MAX_FILE_BYTES" "500000"
  let maxFiles ← env.int "MAX_FILES" "5000"
  let depth ← env.int "GIT_CLONE_DEPTH" "1"
  let gitTimeout ← env.int "GIT_TIMEOUT" "300"
  let port ← env.int "PORT" "5000"
  let workers ← env.int "MAX_WORKERS" "4"
  let setting := fun name default => Value.text (env.getD name default)
  let switch := fun name default => Value.bool (Switch.isYes (env.getD name default))
  return [
    ("FILE_LIMITS", .ofFields [("MAX_FILE_BYTES", .int maxBytes), ("MAX_FILES", .int maxFiles),
      ("MAX_LINE_LENGTH", .nat 10000), ("MAX_FILE_LINES", .nat 50000)]),
    ("GIT_CONFIG", .ofFields [("CLONE_DEPTH", .int depth), ("TIMEOUT", .int gitTimeout), ("SKIP_LFS", .bool true),
      ("NO_CHECKOUT", .bool false)]),
    ("AI_CONFIG", .ofFields [("STUB_LLM", switch "STUB_LLM" "false"), ("GROQ_API_KEY", setting "GROQ_API_KEY" ""),
      ("GROQ_MODEL", setting "GROQ_MODEL" Service.defaultModel),
      ("GROQ_API_URL", setting "GROQ_API_URL" ClientSettings.defaultUrl), ("MAX_TOKENS", .nat 8000),
      ("TEMPERATURE", .float (.ofDecimal false 1 (-1))), ("TIMEOUT", .nat 60)]),
    ("LOG_CONFIG", .ofFields [("LEVEL", setting "LOG_LEVEL" "INFO"),
      ("FORMAT", .text "%(asctime)s - %(name)s - %(levelname)s - %(message)s"),
      ("DATE_FORMAT", .text "%Y-%m-%d %H:%M:%S")]),
    ("FLASK_CONFIG", .ofFields [("ENV", setting "FLASK_ENV" "development"),
      ("DEBUG", .bool (env.getD "FLASK_DEBUG" "0" == "1")), ("PORT", .int port), ("HOST", setting "HOST" "0.0.0.0")]),
    ("PERFORMANCE_CONFIG", .ofFields [("ENABLE_PARALLEL_PROCESSING", switch "ENABLE_PARALLEL_PROCESSING" "false"),
      ("MAX_WORKERS", .int workers), ("CHUNK_SIZE", .nat 100)]),
    ("PLANTUML_CONFIG", .ofFields [("ENABLE", switch "ENABLE_PLANTUML" "true"),
      ("SERVER_URL", setting "PLANTUML_SERVER_URL" "http://localhost:8080"), ("TIMEOUT", .nat 60),
      ("MAX_DIAGRAM_SIZE", .nat 100000)])]

def draftingModel (env : Environment) : String :=
  (env.nonempty? "GROQ_PLANTUML_MODEL").getD (env.getD "GROQ_MODEL" Service.defaultModel)

def load (env : Environment) : Loose Value := do
  let ts ← tables env
  let _ ← ClientSettings.ofEnvironment env
  let stub := Value.bool (Switch.isYes (env.getD "STUB_LLM" "false"))
  return .ofFields (ts ++ [
    ("analyze", .ofFields [("STUB_LLM", stub),
      ("ENABLE_AI_ENHANCEMENT", .bool (env.nonempty? "OPENAI_API_KEY").isSome)]),
    ("llm", .ofFields [("STUB_LLM", stub), ("DEFAULT_MODEL", .text (draftingModel env))])])

end Configuration

namespace Tables

def texts (fields : List (String × String)) : Value := .ofFields (fields.map fun f => (f.1, .text f.2))

def lists (fields : List (String × List String)) : Value := .ofFields (fields.map fun f => (f.1, .texts f.2))

def relationKinds : Value :=
  texts (RelationKind.all.map fun k => (Text.upper k.name, k.name))

def stereotypes : Value :=
  texts [("CLASS", "class"), ("INTERFACE", "interface"), ("ABSTRACT", "abstract"), ("ENUM", "enum"),
    ("STRUCT", "struct")]

def statuses : Value := .ofFields [("OK", .nat 200), ("BAD_REQUEST", .nat 400), ("INTERNAL_ERROR", .nat 500)]

def errorMessages : Value :=
  texts [("INVALID_URL", "Invalid GitHub URL format"), ("INVALID_ZIP", "Invalid ZIP file"),
    ("FILE_TOO_LARGE", "File exceeds size limit"), ("TOO_MANY_FILES", "Too many files in repository"),
    ("CLONE_FAILED", "Failed to clone repository"), ("EXTRACTION_FAILED", "Failed to extract ZIP file"),
    ("ANALYSIS_FAILED", "Analysis failed"), ("LLM_FAILED", "LLM enhancement failed"),
    ("PATH_TRAVERSAL", "Path traversal detected"), ("TIMEOUT", "Operation timed out")]

def successMessages : Value :=
  texts [("ANALYSIS_COMPLETE", "Analysis completed successfully"),
    ("CLONE_SUCCESS", "Repository cloned successfully"), ("EXTRACTION_SUCCESS", "ZIP extracted successfully")]

def security : Value :=
  .ofFields [("MAX_URL_LENGTH", .nat 2000), ("ALLOWED_URL_SCHEMES", .texts ["https"]),
    ("ALLOWED_DOMAINS", .texts ["github.com"]), ("MAX_ZIP_SIZE_BYTES", .nat (50 * 1024 * 1024)),
    ("GITHUB_URL_PATTERN", .text "^https://github\\.com/([a-zA-Z0-9_.-]+)/([a-zA-Z0-9_.-]+)/?$")]

def analysisOptions : Value :=
  .ofFields [("DETECT_PATTERNS", .bool true), ("DETECT_LAYERS", .bool true), ("INFER_RELATIONSHIPS", .bool true),
    ("INCLUDE_PRIVATE_MEMBERS", .bool false), ("INCLUDE_MAGIC_METHODS", .bool false)]

def quotedPattern (quotes : String) : String := "[" ++ quotes ++ "]([^" ++ quotes ++ "]+)[" ++ quotes ++ "]"

def quotePattern : String := quotedPattern "\\\x27\""

def routerPatterns : Value :=
  lists [("express", ["\\.(get|post|put|delete|patch)\\s*\\(\\s*" ++ quotePattern]),
    ("nestjs", ["@(Get|Post|Put|Delete|Patch)\\s*\\(\\s*" ++ quotePattern])]

def frameworkPatterns : Value :=
  .ofFields [
    ("PYTHON", lists [
      ("flask", ["@app\\.route\\s*\\(\\s*" ++ quotePattern, "@bp\\.route\\s*\\(\\s*" ++ quotePattern]),
      ("django", ["path\\s*\\(\\s*" ++ quotePattern, "re_path\\s*\\(\\s*r" ++ quotePattern]),
      ("fastapi", ["@app\\.(get|post|put|delete|patch)\\s*\\(\\s*" ++ quotePattern])]),
    ("JAVA", lists [
      ("spring", [
        "@(GetMapping|PostMapping|PutMapping|DeleteMapping|PatchMapping)\\s*\\(\\s*" ++ quotedPattern "\"\\\x27",
        "@RequestMapping\\s*\\([^)]*value\\s*=\\s*" ++ quotedPattern "\"\\\x27"])]),
    ("CSHARP", lists [
      ("aspnet", [
        "\\[(HttpGet|HttpPost|HttpPut|HttpDelete|HttpPatch)\\s*\\(\\s*\"([^\"]+)\"\\s*\\)\\]",
        "\\[Route\\s*\\(\\s*\"([^\"]+)\"\\s*\\)\\]"])]),
    ("JAVASCRIPT", routerPatterns),
    ("TYPESCRIPT", routerPatterns)]

def patternWords : Value :=
  lists [("singleton", ["getInstance", "instance", "Singleton"]), ("factory", ["Factory", "create", "build"]),
    ("builder", ["Builder", "build", "withX"]),
    ("observer", ["Observer", "subscribe", "notify", "addEventListener"]),
    ("strategy", ["Strategy", "execute", "algorithm"]),
    ("decorator", ["Decorator", "Component", "ConcreteDecorator"]), ("adapter", ["Adapter", "adapt", "Adaptee"]),
    ("facade", ["Facade", "simplify"])]

def layerWords : Value :=
  lists [("presentation", ["Controller", "View", "UI", "Component", "Page"]),
    ("business", ["Service", "Manager", "Handler", "Processor", "UseCase"]),
    ("data", ["Repository", "DAO", "Model", "Entity", "DataAccess"])]

def defaults : Value :=
  texts [("SYSTEM_NAME", "System"), ("DEFAULT_PACKAGE", "default"), ("DEFAULT_NAMESPACE", "Default"),
    ("UNKNOWN_TYPE", "Object")]

def fixed : List (String × Value) :=
  [("LANGUAGES", texts Discovery.languages), ("EXTENSION_TO_LANGUAGE", texts Discovery.extensions),
    ("SKIP_DIRECTORIES", .texts (Text.ascending Skip.folders)),
    ("SKIP_FILE_PATTERNS", .texts (Text.ascending Skip.files)), ("RELATIONSHIP_TYPES", relationKinds),
    ("STEREOTYPE_TYPES", stereotypes), ("HTTP_STATUS", statuses), ("ERROR_MESSAGES", errorMessages),
    ("SUCCESS_MESSAGES", successMessages), ("SECURITY_CONFIG", security), ("ANALYSIS_OPTIONS", analysisOptions),
    ("FRAMEWORK_PATTERNS", frameworkPatterns), ("PATTERN_INDICATORS", patternWords),
    ("LAYER_INDICATORS", layerWords), ("DEFAULTS", defaults)]

def find? (name : String) : Option Value :=
  (fixed ++ ((Configuration.tables []).toOption.getD [])).lookup name

end Tables

end CodeAtlas
