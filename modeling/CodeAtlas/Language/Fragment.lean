import CodeAtlas.Text.Lines
import CodeAtlas.Text.Pattern

/-!
# Parts of declarations that are found by patterns

* `Braces.body?`: the text from the first opening brace to the one that closes it, both included; braces in strings and
  comments count like all others;
* `TypeName.bare`: the name of a type without parameters in angle brackets, array brackets and scopes.
-/

namespace CodeAtlas

namespace Braces

def close (depth : Nat) : List Char → Option (List Char)
  | [] => none
  | c :: cs =>
    if c == '\x7b' then (close (depth + 1) cs).map (c :: ·)
    else if c == '\x7d' then
      match depth with
      | 0 => some [c]
      | d + 1 => (close d cs).map (c :: ·)
    else (close depth cs).map (c :: ·)

def body? (cs : List Char) : Option (List Char) :=
  match cs.dropWhile (· != '\x7b') with
  | [] => none
  | c :: rest => (close 0 rest).map (c :: ·)

end Braces

namespace TypeName

def parameterPattern : Pattern :=
  .all [.char '<', .many (· != '>'), .char '>']

def dropParameters (s : String) : String := String.ofList (parameterPattern.replaceAll [] s.toList)

def lastPart (s sep : String) : String := (Text.splitOn s sep).getLastD ""

def bare (s : String) : String :=
  Text.trim (lastPart (lastPart (Text.replace (dropParameters s) "[]" "") "::") ".")

end TypeName

end CodeAtlas
