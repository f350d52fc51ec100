/-!
# Blanks and comments of scripts

What may stand between two tokens: white space, line ends and comments. Whether a line end was
passed decides where a statement may end without a semicolon, so `skipBlanks` reports it.
-/

namespace Stencil.Script

/-- White space inside a line. -/
def isSpace (c : Char) : Bool :=
  let n := c.toNat
  n == 0x9 || n == 0xB || n == 0xC || n == 0x20 || n == 0x85 || n == 0xA0 || n == 0x1680
    || (0x2000 ≤ n && n ≤ 0x200B) || n == 0x202F || n == 0x205F || n == 0x3000 || n == 0xFEFF

/-- A character that ends a line. -/
def isLineEnd (c : Char) : Bool :=
  c == '\n' || c == '\r' || c.toNat == 0x2028 || c.toNat == 0x2029

/-- Where the skipping stands: between tokens, in a comment up to the line end, or in a block
comment. -/
inductive BlankMode where
  | between | line | block
deriving DecidableEq

/-- Skips blanks and comments. Answers whether a line end was passed, and the text from the next
token on; nothing if a block comment is never closed. -/
def skipFrom : BlankMode → Bool → List Char → Option (Bool × List Char)
  | .between, lineEnd, '/' :: '/' :: rest => skipFrom .line lineEnd rest
  | .between, lineEnd, '/' :: '*' :: rest => skipFrom .block lineEnd rest
  | .between, lineEnd, c :: rest =>
    if isLineEnd c then skipFrom .between true rest
    else if isSpace c then skipFrom .between lineEnd rest
    else some (lineEnd, c :: rest)
  | .between, lineEnd, [] => some (lineEnd, [])
  -- The line end that ends a comment stands between tokens again.
  | .line, lineEnd, c :: rest =>
    if isLineEnd c then skipFrom .between true rest else skipFrom .line lineEnd rest
  | .line, lineEnd, [] => some (lineEnd, [])
  | .block, lineEnd, '*' :: '/' :: rest => skipFrom .between lineEnd rest
  -- A comment over several lines counts as a line end. It has to be closed; a line comment may end
  -- with the text.
  | .block, lineEnd, c :: rest => skipFrom .block (lineEnd || isLineEnd c) rest
  | .block, _, [] => none

/-- Skips blanks and comments between two tokens. -/
def skipBlanks (s : List Char) : Option (Bool × List Char) :=
  skipFrom .between false s

/-- The source without a byte order mark and without an interpreter line in front. -/
def skipPreamble (s : List Char) : List Char :=
  let s := match s with
    | c :: rest => if c.toNat = 0xFEFF then rest else c :: rest
    | [] => []
  match s with
  | '#' :: '!' :: rest => rest.dropWhile fun c => !isLineEnd c
  | s => s

end Stencil.Script
