import Stencil.Script.Literal

/-!
# Tokens of scripts

`nextToken` reads the token after the blanks at the start of a text. A slash is always an operator
here: a regular expression, the inside of a template literal and the inside of markup are read by
the parser, which knows where they may stand.
-/

namespace Stencil.Script

/-- A token. -/
inductive Token where
  /-- A word: an identifier or a keyword, and whether it is spelled with an escape. -/
  | word (name : String) (escaped : Bool)
  /-- A private name, without its number sign. -/
  | hidden (name : String)
  | numeral (value : Numeral)
  | string (value : String)
  /-- A punctuation mark. -/
  | mark (text : String)
  /-- The end of the text. -/
  | finish

/-- A token in its place. -/
structure Lexeme where
  token : Token
  /-- A line end stands between the previous token and this one. -/
  afterLineEnd : Bool
  /-- The text from the first character of the token on. -/
  start : List Char
  /-- The text after the token. -/
  rest : List Char

/-- The punctuation marks, longer ones first. -/
def marks : List String :=
  [">>>=",
   "...", "===", "!==", "**=", "<<=", ">>=", ">>>", "&&=", "||=", "??=",
   "=>", "==", "!=", "<=", ">=", "&&", "||", "??", "?.", "++", "--", "+=", "-=", "*=", "/=", "%=",
   "&=", "|=", "^=", "<<", ">>", "**",
   "\x7b", "\x7d", "(", ")", "[", "]", ";", ",", "<", ">", "+", "-", "*", "/", "%", "&", "|", "^",
   "!", "~", "?", ":", "=", ".", "@", "`"]

/-- The longest punctuation mark at the start of the text. A question mark before a decimal fraction
stands alone. -/
def takeMark (s : List Char) : Option (String × List Char) :=
  match s with
  | '?' :: '.' :: c :: rest =>
    if c.isDigit then some ("?", '.' :: c :: rest) else some ("?.", c :: rest)
  | _ => (marks.find? fun m => m.toList.isPrefixOf s).map fun m => (m, s.drop m.length)

/-- The token at the start of the text. -/
def tokenAt (s : List Char) : Option (Token × List Char) :=
  match s with
  | [] => some (.finish, [])
  | c :: rest =>
    -- A point begins a numeral only before a digit, so numerals come before marks.
    if c.isDigit || (c = '.' && digitAhead rest) then
      (numeral s).map fun (value, rest) => (.numeral value, rest)
    else if c = '"' || c = '\'' then
      (takeString c s.length rest).map fun (value, rest) => (.string (String.ofList value), rest)
    -- A private name is a word behind its mark.
    else if c = '#' then
      (word rest).map fun (name, _, rest) => (.hidden name, rest)
    else if c = '\\' || Text.isIdentifierStart c then
      (word s).map fun (name, escaped, rest) => (.word name escaped, rest)
    else (takeMark s).map fun (m, rest) => (.mark m, rest)

/-- The next token, with the blanks in front of it skipped. -/
def nextToken (s : List Char) : Option Lexeme := do
  let (lineEnd, start) ← skipBlanks s
  let (token, rest) ← tokenAt start
  some ⟨token, lineEnd, start, rest⟩

end Stencil.Script
