/-!
# Character entities in attribute values

A double-quoted attribute value spells `&`, `"` and `<` as entities. `decodeEntities` reads those
three entities back from left to right.
-/

namespace Stencil.Text

/-- The spelling of one character inside a double-quoted attribute value. -/
def entityChar (c : Char) : List Char :=
  if c = '&' then ['&', 'a', 'm', 'p', ';']
  else if c = '"' then ['&', 'q', 'u', 'o', 't', ';']
  else if c = '<' then ['&', 'l', 't', ';']
  else [c]

/-- The spelling of a text inside a double-quoted attribute value. -/
def encodeEntities (s : String) : String :=
  String.ofList (s.toList.flatMap entityChar)

/-- Reads `&amp;`, `&quot;` and `&lt;` back; every other character stands for itself. -/
def decodeEntities : List Char → List Char
  | '&' :: 'a' :: 'm' :: 'p' :: ';' :: rest => '&' :: decodeEntities rest
  | '&' :: 'q' :: 'u' :: 'o' :: 't' :: ';' :: rest => '"' :: decodeEntities rest
  | '&' :: 'l' :: 't' :: ';' :: rest => '<' :: decodeEntities rest
  | c :: rest => c :: decodeEntities rest
  | [] => []

end Stencil.Text
