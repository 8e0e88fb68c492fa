import CodeAtlas.Value.Access

/-!
# Paths of files

Paths are texts with slashes between their parts; unless another one is named, the current directory is the root.

* `Path.normal`: no empty parts, no `.`, and `..` only where it cannot be resolved;
* `Skip.folders`, `Skip.files`: what holds no source text worth reading;
* `SafePath.check`: a path is accepted only if it leads below a base directory and is written without steps upwards,
  without a leading slash and without colons.
-/

namespace CodeAtlas

namespace Path

def names (p : String) : List String := (Text.splitOn p "/").filter (· != "")

def isAbsolute (p : String) : Bool := Text.startsWith p "/"

def resolve (rooted : Bool) (done : List String) : List String → List String
  | [] => done.reverse
  | p :: ps =>
    if p == "" || p == "." then resolve rooted done ps
    else if p == ".." then
      match done with
      | [] => if rooted then resolve rooted [] ps else resolve rooted [p] ps
      | d :: ds => if d == ".." then resolve rooted (p :: done) ps else resolve rooted ds ps
    else resolve rooted (p :: done) ps

def root (p : String) : String :=
  if Text.startsWith p "//" && !Text.startsWith p "///" then "//"
  else if Text.startsWith p "/" then "/"
  else ""

def normal (p : String) : String :=
  let r := root p
  let s := r ++ Text.join "/" (resolve (r != "") [] (Text.splitOn p "/"))
  if s == "" then "." else s

def join (a b : String) : String :=
  if isAbsolute b then b
  else if a == "" || Text.endsWith a "/" then a ++ b
  else a ++ "/" ++ b

def absoluteFrom (directory p : String) : String := normal (if isAbsolute p then p else join directory p)

def absolute (p : String) : String := absoluteFrom "/" p

def sharedLength : List String → List String → Nat
  | a :: as, b :: bs => if a == b then sharedLength as bs + 1 else 0
  | _, _ => 0

def relative? (p start : String) : Option String :=
  if p == "" then none
  else
    let source := names (absolute start)
    let target := names (absolute p)
    let shared := sharedLength source target
    let way := List.replicate (source.length - shared) ".." ++ target.drop shared
    some (if way.isEmpty then "." else Text.join "/" way)

def base (p : String) : String := (Text.splitOn p "/").getLastD ""

def parent (p : String) : String :=
  let head := Text.take p (p.length - (base p).length)
  if head.toList.all (· == '/') then head else Text.dropEndWhile head (· == '/')

def suffix (p : String) : String :=
  let name := (base p).toList
  let stem := name.dropWhile (· == '.')
  match Chars.findLast? ['.'] stem with
  | some i => String.ofList (stem.drop i)
  | none => ""

def extension (p : String) : String := Text.lower (suffix p)

end Path

namespace Skip

def folders : List String :=
  ["node_modules", "__pycache__", ".git", ".svn", ".hg", "venv", "env", ".env", ".venv", "virtualenv", "dist",
    "build", "target", "bin", "obj", "out", ".pytest_cache", ".mypy_cache", ".tox", "coverage", "htmlcov",
    ".idea", ".vscode", ".vs", "__MACOSX", ".DS_Store", "bower_components", "jspm_packages", "web_modules",
    ".cache", ".parcel-cache", ".next", ".nuxt", ".docusaurus"]

def files : List String :=
  ["*.min.js", "*.min.css", "*.map", "*.lock", "package-lock.json", "yarn.lock", "Pipfile.lock",
    "poetry.lock", "*.pyc", "*.pyo", "*.so", "*.dll", "*.dylib", "*.exe", "*.class", "*.jar", "*.war",
    "*.ear", "*.zip", "*.tar", "*.gz", "*.7z", "*.rar", "*.pdf", "*.jpg", "*.jpeg", "*.png", "*.gif",
    "*.svg", "*.ico", "*.woff", "*.woff2", "*.ttf", "*.eot"]

def copies : List String := ["~", ".bak", ".backup", ".old"]

def isHidden (name : String) : Bool := Text.startsWith name "."

def fits (name pattern : String) : Bool :=
  match pattern.toList with
  | '*' :: ending => Chars.endsWith ending name.toList
  | _ => name == pattern

def folder (name : String) : Bool := folders.contains name || isHidden name

def file (name : String) : Bool :=
  files.any (fits name) || isHidden name || copies.any (Text.endsWith name)

end Skip

def Value.asPath (v : Value) : Loose String :=
  match v with
  | .atom (.text s) => .ok s
  | v => .error (.mismatch s!"expected str, bytes or os.PathLike object, not {v.kindName}")

namespace SafePath

inductive Defect where
  | traversal
  | pattern
  /-- It cannot be put below the base at all. -/
  | unusable (reason : String)
  deriving DecidableEq, Repr

def Defect.message : Defect → String
  | traversal => "Path traversal detected"
  | pattern => "Unsafe path pattern detected"
  | unusable r => "Path validation error: " ++ r

def isPlain (path : String) : Bool :=
  !(Text.contains path ".." || Text.startsWith path "/" || Text.contains path ":")

/-- The absolute path below a base, if it is safe. -/
def confineFrom (directory path base : String) : Except Defect String :=
  let target := Path.absoluteFrom directory (Path.normal (Path.join base path))
  if !Text.startsWith target (Path.absoluteFrom directory base) then .error .traversal
  else if isPlain path then .ok target
  else .error .pattern

def confine (path base : String) : Except Defect String := confineFrom "/" path base

def check (path base : Value) : Except Defect String :=
  match base.asPath with
  | .error e => .error (.unusable e.message)
  | .ok b =>
    match path.text? with
    | some p => confine p b
    | none => .error (.unusable
        s!"join() argument must be str, bytes, or os.PathLike object, not '{path.kindName}'")

end SafePath

end CodeAtlas
