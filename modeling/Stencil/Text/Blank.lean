/-!
# Blank characters

The characters of the Unicode property White_Space, and the removal of a blank margin from a text.
Every place that ignores the margin of a code text or of a numeral reads `isBlank`.
-/

namespace Stencil.Text

/-- A character of the Unicode property White_Space. The byte order mark is not one of them. -/
def isBlank (c : Char) : Bool :=
  let n := c.toNat
  (0x9 ≤ n && n ≤ 0xD) || n == 0x20 || n == 0x85 || n == 0xA0 || n == 0x1680
    || (0x2000 ≤ n && n ≤ 0x200A) || n == 0x2028 || n == 0x2029 || n == 0x202F || n == 0x205F
    || n == 0x3000

/-- The text without the blanks it starts with. -/
def trimStart (s : String) : String :=
  String.ofList (s.toList.dropWhile isBlank)

/-- The text without the blanks it ends with. -/
def trimEnd (s : String) : String :=
  String.ofList (s.toList.reverse.dropWhile isBlank).reverse

/-- The text without the blanks around it. -/
@[irreducible] def trim (s : String) : String :=
  trimEnd (trimStart s)

end Stencil.Text
