import CodeAtlas.Text.Alphabet
import CodeAtlas.Text.Search

/-!
# Trimming, words and lines

A carriage return with a line feed ends one line; an end at the very end of a text opens no further line.
-/

namespace CodeAtlas

namespace Chars

def trimStart (s : List Char) : List Char := s.dropWhile isBlank

def dropEndWhile (p : Char → Bool) (s : List Char) : List Char := (s.reverse.dropWhile p).reverse

def trimEnd (s : List Char) : List Char := dropEndWhile isBlank s

def trim (s : List Char) : List Char := trimEnd (trimStart s)

def trimWhere (p : Char → Bool) (s : List Char) : List Char := dropEndWhile p (s.dropWhile p)

def words (s : List Char) : List (List Char) := (splitWhere isBlank s).filter (· ≠ [])

def linesFrom (acc : List Char) : List Char → List (List Char)
  | [] => if acc.isEmpty then [] else [acc.reverse]
  | '\r' :: '\n' :: cs => acc.reverse :: linesFrom [] cs
  | c :: cs => if isLineBreak c then acc.reverse :: linesFrom [] cs else linesFrom (c :: acc) cs

def lines (s : List Char) : List (List Char) := linesFrom [] s

def plainLines : List Char → List Char
  | [] => []
  | '\r' :: '\n' :: cs => '\n' :: plainLines cs
  | '\r' :: cs => '\n' :: plainLines cs
  | c :: cs => c :: plainLines cs

end Chars

namespace Text

def trimStart (s : String) : String := String.ofList (Chars.trimStart s.toList)

def trimEnd (s : String) : String := String.ofList (Chars.trimEnd s.toList)

def trim (s : String) : String := String.ofList (Chars.trim s.toList)

def dropEndWhile (s : String) (p : Char → Bool) : String :=
  String.ofList (Chars.dropEndWhile p s.toList)

def trimWhere (s : String) (p : Char → Bool) : String := String.ofList (Chars.trimWhere p s.toList)

def words (s : String) : List String := (Chars.words s.toList).map String.ofList

def lines (s : String) : List String := (Chars.lines s.toList).map String.ofList

def plainLines (s : String) : String := String.ofList (Chars.plainLines s.toList)

def isBlankText (s : String) : Bool := s.toList.all isBlank

end Text

end CodeAtlas
