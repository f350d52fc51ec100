import Stencil.Text.Search

/-!
# Texts in markup

A text between tags loses its layout: tabs count as spaces, each line gives up the spaces towards
the line ends inside the text, lines without content go, and the others are joined by single spaces.
-/

namespace Stencil.Lower

/-- A line of the text with its place among the lines. -/
structure Line where
  chars : List Char
  isFirst : Bool
  isLast : Bool

/-- Removes a character from the end of a line. -/
def dropEnd (c : Char) (s : List Char) : List Char :=
  (s.reverse.dropWhile (· == c)).reverse

/-- The line holds something besides spaces and tabs. -/
def hasContent (s : List Char) : Bool :=
  s.any fun c => c != ' ' && c != '\t'

/-- The number of the last line with content, the first line if there is none. -/
def lastContent (lines : List (List Char)) : Nat :=
  lines.zipIdx.foldl (fun last (line, i) => if hasContent line then i else last) 0

/-- A line with tabs as spaces, and without the spaces towards other lines. -/
def Line.trimmed (l : Line) : List Char :=
  let spaced := l.chars.map fun c => if c = '\t' then ' ' else c
  -- The first line keeps the spaces before it, and the last one those behind it.
  let spaced := if l.isFirst then spaced else spaced.dropWhile (· == ' ')
  if l.isLast then spaced else dropEnd ' ' spaced

/-- The text of markup without its layout. -/
def cleanText (raw : String) : String :=
  let lines := (Text.splitAt '\n' raw.toList).map (dropEnd '\r')
  let last := lastContent lines
  let pieces := lines.zipIdx.map fun (chars, i) =>
    let trimmed := Line.trimmed ⟨chars, i == 0, i + 1 == lines.length⟩
    -- A line that is followed by content, at once or later, is joined to it by a space.
    if trimmed.isEmpty then [] else if i == last then trimmed else trimmed ++ [' ']
  String.ofList pieces.flatten

end Stencil.Lower
