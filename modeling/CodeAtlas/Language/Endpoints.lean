import CodeAtlas.Model.ClassEntry
import CodeAtlas.Text.Case
import CodeAtlas.Text.Lines
import CodeAtlas.Text.Pattern

/-!
# Endpoints in source text

The addresses that web frameworks declare are found by patterns. Each declaration ends in a quoted path; the
quote at its end need not be of the kind at its start.
-/

namespace CodeAtlas.Endpoint

open Pattern

def quotedPath (n : Nat) : Pattern :=
  all [blanks, one isQuote, group n (some1 fun c => !isQuote c), one isQuote]

def declared (source : List Char) (framework : String) (starts : List String) (method : String) :
    List Endpoint :=
  ((all [oneOf starts, quotedPath 1]).findAll source).map fun m => ⟨m.text 1, [method], framework⟩

def routePattern : Pattern :=
  all [char '@', blanks, oneOf ["app", "bp"], word ".route(", quotedPath 1,
    maybe (all [char ',', blanks, word "methods", blanks, char '=', blanks, char '[',
      group 2 (some1 (· != ']')), char ']'])]

def methodPattern : Pattern :=
  all [word "@app.", group 1 (oneOf ["get", "post", "put", "delete", "patch"]), char '(', quotedPath 2]

def methodList (s : String) : List String :=
  (Text.splitOn s ",").map fun m => Text.trimWhere (Text.trim m) isQuote

def ofPython (source : List Char) : List Endpoint :=
  (routePattern.findAll source).map (fun m =>
    ⟨m.text 1, methodList ((m.group? 2).getD "GET"), "flask"⟩) ++
  ((all [word "path(", quotedPath 1]).findAll source).map (fun m =>
    ⟨m.text 1, ["GET", "POST"], "django"⟩) ++
  (methodPattern.findAll source).map (fun m => ⟨m.text 2, [Text.upper (m.text 1)], "fastapi"⟩)

def ofJava (source : List Char) : List Endpoint :=
  [("@GetMapping(", "GET"), ("@PostMapping(", "POST"), ("@PutMapping(", "PUT"),
    ("@DeleteMapping(", "DELETE"), ("@PatchMapping(", "PATCH"), ("@RequestMapping(", "GET")].flatMap
    fun d => declared source "spring" [d.1] d.2

def ofCSharp (source : List Char) : List Endpoint :=
  [("[HttpGet(", "GET"), ("[HttpPost(", "POST"), ("[HttpPut(", "PUT"), ("[HttpDelete(", "DELETE"),
    ("[HttpPatch(", "PATCH"), ("[Route(", "GET")].flatMap
    fun d => declared source "aspnet" [d.1] d.2

def ofTypeScript (source : List Char) : List Endpoint :=
  [("get", "GET"), ("post", "POST"), ("put", "PUT"), ("delete", "DELETE"), ("patch", "PATCH")].flatMap
    (fun d => declared source "express" ["app." ++ d.1 ++ "(", "router." ++ d.1 ++ "("] d.2) ++
  [("@Get(", "GET"), ("@Post(", "POST"), ("@Put(", "PUT"), ("@Delete(", "DELETE"),
    ("@Patch(", "PATCH")].flatMap
    fun d => declared source "nestjs" [d.1] d.2

def ofSource (l : Language) (source : String) : List Endpoint :=
  match l with
  | .python => ofPython source.toList
  | .java => ofJava source.toList
  | .csharp => ofCSharp source.toList
  | .typescript => ofTypeScript source.toList
  | .cpp => []

end CodeAtlas.Endpoint
