import Stencil.Decimal.Read
import Stencil.Script.Blank
import Stencil.Text.Identifier

/-!
# Literals of scripts

Readers for numerals, string literals, the runs of template literals, regular expressions and words.
Each reader takes the text from the first character of the literal on and answers the value with
the rest of the text, or nothing if the literal is malformed.
-/

namespace Stencil.Script

/-! ### Escapes -/

/-- The value of a hexadecimal digit. -/
def hexValue? (c : Char) : Option Nat :=
  if c.isDigit then some (c.toNat - '0'.toNat)
  else if 'a' ≤ c && c ≤ 'f' then some (c.toNat - 'a'.toNat + 10)
  else if 'A' ≤ c && c ≤ 'F' then some (c.toNat - 'A'.toNat + 10)
  else none

/-- Reads exactly `count` hexadecimal digits onto `value`. -/
def takeHex (value : Nat) : Nat → List Char → Option (Nat × List Char)
  | 0, s => some (value, s)
  | count + 1, c :: rest => (hexValue? c).bind fun d => takeHex (16 * value + d) count rest
  | _ + 1, [] => none

/-- Reads hexadecimal digits onto `value` up to a closing brace. -/
def takeHexToBrace (value : Nat) : List Char → Option (Nat × List Char)
  | '}' :: rest => some (value, rest)
  | c :: rest =>
    match hexValue? c with
    | some d => if 16 * value + d ≤ 0x10FFFF then takeHexToBrace (16 * value + d) rest else none
    | none => none
  | [] => none

/-- The code unit or code point after `\u`: four digits, or digits in braces. -/
def takeUnicode : List Char → Option (Nat × List Char)
  | '{' :: '}' :: _ => none
  | '{' :: rest => takeHexToBrace 0 rest
  | s => takeHex 0 4 s

/-- The character of a code point; what is no character becomes the replacement character. -/
def charOf (n : Nat) : Char :=
  if n.isValidChar then Char.ofNat n else Char.ofNat 0xFFFD

/-- The character after `\u`. A pair of escapes that spells a surrogate pair is one character. -/
def takeUnicodeChar (s : List Char) : Option (Char × List Char) := do
  let (high, rest) ← takeUnicode s
  if 0xD800 ≤ high && high ≤ 0xDBFF then
    -- Only a low half directly behind the high one makes a character with it. A half that is left
    -- alone stays one.
    match rest with
    | '\\' :: 'u' :: after =>
      match takeHex 0 4 after with
      | some (low, rest') =>
        if 0xDC00 ≤ low && low ≤ 0xDFFF then
          some (Char.ofNat (0x10000 + (high - 0xD800) * 0x400 + (low - 0xDC00)), rest')
        else some (charOf high, rest)
      | none => some (charOf high, rest)
    | _ => some (charOf high, rest)
  else some (charOf high, rest)

/-- The value of an octal digit. -/
def octalValue? (c : Char) : Option Nat :=
  if '0' ≤ c && c ≤ '7' then some (c.toNat - '0'.toNat) else none

/-- The character of an octal escape: up to three digits, below 256. -/
def takeOctal (first : Nat) (s : List Char) : Char × List Char :=
  match s with
  | b :: rest =>
    match octalValue? b with
    | some vb =>
      -- A third digit belongs to the escape only if the value stays below 256.
      match rest with
      | c :: rest' =>
        match octalValue? c with
        | some vc =>
          if first ≤ 3 then (Char.ofNat (64 * first + 8 * vb + vc), rest')
          else (Char.ofNat (8 * first + vb), rest)
        | none => (Char.ofNat (8 * first + vb), rest)
      | [] => (Char.ofNat (8 * first + vb), rest)
    | none => (Char.ofNat first, s)
  | [] => (Char.ofNat first, s)

/-- The next character is a decimal digit. -/
def digitAhead : List Char → Bool
  | c :: _ => c.isDigit
  | [] => false

/-- The characters that the escape after a backslash stands for. A line end after the backslash
stands for nothing. Octal escapes exist in string literals only. -/
def takeEscape (octal : Bool) : List Char → Option (List Char × List Char)
  | [] => none
  | '\r' :: '\n' :: rest => some ([], rest)
  | 'n' :: rest => some (['\n'], rest)
  | 't' :: rest => some (['\t'], rest)
  | 'r' :: rest => some (['\r'], rest)
  | 'b' :: rest => some ([Char.ofNat 8], rest)
  | 'v' :: rest => some ([Char.ofNat 11], rest)
  | 'f' :: rest => some ([Char.ofNat 12], rest)
  -- Codes of two digits, and those of characters.
  | 'x' :: rest => (takeHex 0 2 rest).map fun (n, rest) => ([Char.ofNat n], rest)
  | 'u' :: rest => (takeUnicodeChar rest).map fun (c, rest) => ([c], rest)
  | c :: rest =>
    -- A line end behind a backslash continues the literal.
    if isLineEnd c then some ([], rest)
    else if c = '0' && !digitAhead rest then some ([Char.ofNat 0], rest)
    else if octal then
      match octalValue? c with
      | some v => let (c, rest) := takeOctal v rest; some ([c], rest)
      | none => some ([c], rest)
    -- A template has no octal escapes, and other digits are no escapes there either.
    else if c.isDigit then none
    else some ([c], rest)

/-! ### Strings and templates -/

/-- The value of a string literal after its opening quote, up to and without the closing one. The
first argument bounds the number of steps. -/
def takeString (quote : Char) : Nat → List Char → Option (List Char × List Char)
  | 0, _ => none
  | _ + 1, [] => none
  | bound + 1, c :: rest =>
    if c = quote then some ([], rest)
    else if c = '\\' then do
      let (value, rest) ← takeEscape true rest
      let (tail, rest) ← takeString quote bound rest
      some (value ++ tail, rest)
    -- The two separators of lines and paragraphs may stand in a string, these two line ends may
    -- not.
    else if c = '\n' || c = '\r' then none
    else (takeString quote bound rest).map fun (tail, rest) => (c :: tail, rest)

/-- How a run of a template literal ends. -/
inductive RunEnd where
  | literal | substitution
deriving DecidableEq

/-- A run of a template literal: as written, with its escapes read if they are all valid, what ends
it, and the rest of the text. -/
structure Run where
  raw : List Char
  cooked : Option (List Char)
  stop : RunEnd
  rest : List Char

/-- Puts characters in front of a run: `raw` as written, `cooked` as read. -/
def Run.prepend (raw : List Char) (cooked : Option (List Char)) (run : Run) : Run :=
  { run with
    raw := raw ++ run.raw
    cooked := cooked.bind fun c => run.cooked.map (c ++ ·) }

/-- The first characters of `before`, up to where its suffix `after` begins. -/
def consumed (before after : List Char) : List Char :=
  before.take (before.length - after.length)

/-- The text with every return, alone or before a line feed, as a line feed. -/
def lineFeeds : List Char → List Char
  | '\r' :: '\n' :: rest => '\n' :: lineFeeds rest
  | c :: rest => (if c = '\r' then '\n' else c) :: lineFeeds rest
  | [] => []

/-- A run of a template literal, up to the closing backtick or the next substitution. Every line end
reads as a line feed, also behind a backslash. The first argument bounds the number of steps. -/
def takeRun : Nat → List Char → Option Run
  | 0, _ => none
  | _ + 1, [] => none
  | _ + 1, '`' :: rest => some ⟨[], some [], .literal, rest⟩
  | _ + 1, '$' :: '{' :: rest => some ⟨[], some [], .substitution, rest⟩
  | bound + 1, '\\' :: rest =>
    match takeEscape false rest with
    | some (value, after) =>
      (takeRun bound after).map (·.prepend ('\\' :: lineFeeds (consumed rest after)) (some value))
    -- An escape without a meaning leaves the run without a cooked text. The character behind the
    -- backslash is taken with it, so that it cannot end the run.
    | none =>
      match rest with
      | c :: after => (takeRun bound after).map (·.prepend ['\\', c] none)
      | [] => none
  -- Carriage returns are read as line feeds, in the raw text too.
  | bound + 1, '\r' :: '\n' :: rest => (takeRun bound rest).map (·.prepend ['\n'] (some ['\n']))
  | bound + 1, c :: rest =>
    let c := if c = '\r' then '\n' else c
    (takeRun bound rest).map (·.prepend [c] (some [c]))

/-! ### Numerals -/

/-- A numeral is a number, or an integer of unbounded size whose value is never needed. -/
inductive Numeral where
  | number (value : Float)
  | bigint

/-- Digits with single underscores between them. -/
def takeSeparated (digit : Char → Bool) (afterDigit : Bool) :
    List Char → Option (List Char × List Char)
  | '_' :: d :: rest =>
    if afterDigit && digit d then
      (takeSeparated digit true rest).map fun (ds, rest) => (d :: ds, rest)
    else none
  | c :: rest =>
    if digit c then (takeSeparated digit true rest).map fun (ds, rest) => (c :: ds, rest)
    else some ([], c :: rest)
  | [] => some ([], [])

/-- The number that digits spell in a base up to sixteen. -/
def valueInBase (base : Nat) (ds : List Char) : Nat :=
  ds.foldl (fun n c => base * n + (hexValue? c).getD 0) 0

/-- The digits of a numeral with a base mark, or a big integer. -/
def takeBased (base : Nat) (s : List Char) : Option (Numeral × List Char) := do
  let digit := fun c => match hexValue? c with
    | some v => decide (v < base)
    | none => false
  let (ds, rest) ← takeSeparated digit false s
  if ds.isEmpty then none
  else match rest with
    | 'n' :: rest => some (.bigint, rest)
    | _ => some (.number (Decimal.ofScaled (valueInBase base ds) 0), rest)

/-- An exponent part if an exponent mark stands first. -/
def takeExponentPart : List Char → Option (Int × List Char)
  | c :: rest =>
    if c = 'e' || c = 'E' then do
      let (negative, rest) := match rest with
        | '-' :: r => (true, r)
        | '+' :: r => (false, r)
        | r => (false, r)
      -- The letter alone is no exponent.
      let (ds, rest) ← takeSeparated Char.isDigit false rest
      if ds.isEmpty then none
      else
        let n : Int := Decimal.digitsValue ds
        some (if negative then -n else n, rest)
    else some (0, c :: rest)
  | [] => some (0, [])

/-- The number after its whole digits: an optional fraction and an optional exponent. -/
def takeFraction (whole : List Char) (s : List Char) : Option (Numeral × List Char) := do
  let (fraction, rest) ← match s with
    | '.' :: r => takeSeparated Char.isDigit false r
    | r => some ([], r)
  if whole.isEmpty && fraction.isEmpty then none
  else
    let (exponent, rest) ← takeExponentPart rest
    some (.number (Decimal.ofScaled (Decimal.digitsValue (whole ++ fraction))
      (exponent - fraction.length)), rest)

/-- A numeral without regard to what follows it. -/
def takeNumeral : List Char → Option (Numeral × List Char)
  | '0' :: rest =>
    match rest with
    | c :: after =>
      if c = 'x' || c = 'X' then takeBased 16 after
      else if c = 'o' || c = 'O' then takeBased 8 after
      else if c = 'b' || c = 'B' then takeBased 2 after
      else if c = 'n' then some (.bigint, after)
      -- A leading zero makes the digits octal, if they can be.
      else if c.isDigit then
        let (ds, rest) := rest.span Char.isDigit
        if ds.all fun d => (octalValue? d).isSome then
          some (.number (Decimal.ofScaled (valueInBase 8 ds) 0), rest)
        else takeFraction ds rest
      else takeFraction ['0'] rest
    | [] => takeFraction ['0'] rest
  | s => do
    -- Digits without a leading zero may be separated, and none at all may stand before a point.
    let (whole, rest) ← takeSeparated Char.isDigit false s
    match rest with
    | 'n' :: rest => if whole.isEmpty then none else some (.bigint, rest)
    | _ => takeFraction whole rest

/-- Nothing that could continue a word or a numeral stands first. -/
def wordEnds : List Char → Bool
  | c :: _ => !(Text.isIdentifierPart c || c == '\\')
  | [] => true

/-- A numeral; a word or a digit must not follow it directly. -/
def numeral (s : List Char) : Option (Numeral × List Char) := do
  let (value, rest) ← takeNumeral s
  if wordEnds rest then some (value, rest) else none

/-! ### Regular expressions -/

/-- The rest of the text after the body of a regular expression, whose opening slash is read. -/
def skipRegex (inClass : Bool) : List Char → Option (List Char)
  | '\\' :: c :: rest => if isLineEnd c then none else skipRegex inClass rest
  | c :: rest =>
    if isLineEnd c then none
    else if c = '/' && !inClass then some rest
    else skipRegex (if c = '[' then true else if c = ']' then false else inClass) rest
  | [] => none

/-- The rest of the text after a regular expression and its flags. Each flag may stand once. -/
def regex (s : List Char) : Option (List Char) := do
  let rest ← skipRegex false s
  let (flags, rest) := rest.span Text.isIdentifierPart
  if flags.all (fun f => "dgimsuyv".toList.contains f) && flags.eraseDups.length == flags.length
  then some rest else none

/-! ### Words -/

/-- The characters of a word, whether an escape occurs in it, and the rest. The first argument
bounds the number of steps. -/
def takeWord (first : Bool) : Nat → List Char → Option (List Char × Bool × List Char)
  | 0, s => some ([], false, s)
  | _ + 1, [] => if first then none else some ([], false, [])
  | bound + 1, '\\' :: rest =>
    match rest with
    | 'u' :: rest => do
      -- An escape in a word spells a character that may stand there anyway.
      let (n, rest) ← takeUnicode rest
      let c := charOf n
      if (if first then Text.isIdentifierStart c else Text.isIdentifierPart c) then
        let (cs, _, rest) ← takeWord false bound rest
        some (c :: cs, true, rest)
      else none
    | _ => none
  | bound + 1, c :: rest =>
    if (if first then Text.isIdentifierStart c else Text.isIdentifierPart c) then
      (takeWord false bound rest).map fun (cs, escaped, rest) => (c :: cs, escaped, rest)
    -- The word ends at the first character that is no part of it.
    else if first then none
    else some ([], false, c :: rest)

/-- A word at the start of the text. -/
def word (s : List Char) : Option (String × Bool × List Char) :=
  (takeWord true (s.length + 1) s).map fun (cs, escaped, rest) => (String.ofList cs, escaped, rest)

end Stencil.Script
