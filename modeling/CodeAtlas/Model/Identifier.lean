/-!
# Identifiers

The names that source text gives to what it declares. An identifier is never empty: whoever makes one shows it.
-/

namespace CodeAtlas

structure Identifier where
  text : String
  text_ne : text ≠ ""

def Identifier.ofChars (cs : List Char) (h : cs ≠ []) : Identifier :=
  ⟨String.ofList cs, fun e => h (String.ofList_eq_empty_iff.mp e)⟩

end CodeAtlas
