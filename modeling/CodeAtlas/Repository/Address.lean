import CodeAtlas.Text.Lines

/-!
# Addresses of repositories

An address names an owner and a repository on one hosting site.
-/

namespace CodeAtlas

structure Address where
  owner : String
  repository : String
  deriving DecidableEq, Repr

namespace Address

inductive Defect where
  | missing
  | form
  | doubleDot
  | leadingDot
  deriving DecidableEq, Repr

def Defect.message : Defect → String
  | missing => "URL is required and must be a string"
  | form => "Invalid GitHub URL format. Expected: https://github.com/username/repository"
  | doubleDot => "Invalid characters in username or repository name"
  | leadingDot => "Username and repository cannot start with dot"

def site : String := "https://github.com/"

def isAllowed (c : Char) : Bool := isNameChar c || c == '.' || c == '-'

def names? (s : List Char) : Option (List Char × List Char) :=
  match Chars.after? site.toList s with
  | none => none
  | some r =>
    let owner := r.takeWhile isAllowed
    match r.dropWhile isAllowed with
    | '/' :: t =>
      let repository := t.takeWhile isAllowed
      let rest := t.dropWhile isAllowed
      if owner.isEmpty || repository.isEmpty then none
      else if rest == [] || rest == ['/'] then some (owner, repository)
      else none
    | _ => none

def dropEnding (s : List Char) : List Char :=
  if Chars.endsWith ".git".toList s then s.take (s.length - 4) else s

/-- The address in a text; blanks around it do not matter. -/
def parse (url : String) : Except Defect Address :=
  if url == "" then .error .missing
  else match names? (Chars.trim url.toList) with
    | none => .error .form
    | some (owner, repository) =>
      if Chars.contains ['.', '.'] owner || Chars.contains ['.', '.'] repository then .error .doubleDot
      else if Chars.startsWith ['.'] owner || Chars.startsWith ['.'] repository then .error .leadingDot
      else .ok ⟨String.ofList owner, String.ofList (dropEnding repository)⟩

def displayName (a : Address) : String := a.owner ++ "/" ++ a.repository

def cleanUrl (a : Address) : String := site ++ a.displayName ++ ".git"

def isEndingChar (c : Char) : Bool := ".git".toList.contains c

def ofParts? : List String → Option Address
  | owner :: repository :: _ => some ⟨owner, repository⟩
  | _ => none

def ofPath? (path : String) : Option Address := ofParts? (Text.splitOn (Text.dropEndWhile path isEndingChar) "/")

def after? (mark url : String) : Option Address :=
  match Text.splitOn url mark with
  | [_, path] => ofPath? path
  | _ => none

def find? (url : String) : Option Address :=
  let url := Text.dropEndWhile url (· == '/')
  (after? "github.com/" url).or (after? "git@github.com:" url)

def hosts : List String :=
  ["https://github.com/", "https://gitlab.com/", "https://bitbucket.org/", "git@github.com:", "git@gitlab.com:"]

def isCloneable (url : String) : Bool := hosts.any (Text.startsWith url) || Text.endsWith url ".git"

end Address

end CodeAtlas
