import Stencil.Json.Basic

/-!
# Reading JSON

Every reader takes what it reads from the front of a text and gives the rest. `Value.read?` reads
one value with blanks in front of it, and `Value.parse?` a text that is nothing but a value.
-/

namespace Stencil.Json

/-- A blank between tokens. -/
def isBlank (c : Char) : Bool :=
  c == ' ' || c == '\n' || c == '\t' || c == '\r'

/-- The text without the blanks it starts with. -/
def skipBlanks (s : List Char) : List Char :=
  s.dropWhile isBlank

/-- Takes a mark after blanks. -/
def take? (mark : Char) (s : List Char) : Option (List Char) :=
  match skipBlanks s with
  | c :: rest => if c = mark then some rest else none
  | [] => none

/-- Takes a word. -/
def takeWord? (word : String) (s : List Char) : Option (List Char) :=
  if word.toList.isPrefixOf s then some (s.drop word.length) else none

/-! ### Strings -/

/-- A unit of a string: a character as it is, or a code unit named by an escape. -/
inductive CodeUnit where
  | char (c : Char)
  | escape (n : Nat)

/-- The value of a hexadecimal digit. -/
def hexValue? (c : Char) : Option Nat :=
  if c.isDigit then some (c.toNat - '0'.toNat)
  else if 'a' ≤ c && c ≤ 'f' then some (c.toNat - 'a'.toNat + 10)
  else if 'A' ≤ c && c ≤ 'F' then some (c.toNat - 'A'.toNat + 10)
  else none

/-- The number that four hexadecimal digits spell. -/
def hexNumber? (a b c d : Char) : Option Nat := do
  let a ← hexValue? a
  let b ← hexValue? b
  let c ← hexValue? c
  let d ← hexValue? d
  some (((a * 16 + b) * 16 + c) * 16 + d)

/-- The character that a letter stands for behind a backslash. -/
def escaped? (c : Char) : Option Char :=
  match c with
  | '"' | '\\' | '/' => some c
  | 'b' => some '\x08'
  | 'f' => some '\x0c'
  | 'n' => some '\n'
  | 'r' => some '\r'
  | 't' => some '\t'
  | _ => none

/-- The units of a string up to the closing quote, and the rest behind it. -/
def readUnits? : List Char → Option (List CodeUnit × List Char)
  | '"' :: rest => some ([], rest)
  -- The number is kept as it is: whether halves pair up is looked at later, if at all.
  | '\\' :: 'u' :: a :: b :: c :: d :: rest => do
    let n ← hexNumber? a b c d
    let (units, rest) ← readUnits? rest
    some (.escape n :: units, rest)
  | '\\' :: c :: rest => do
    let c ← escaped? c
    let (units, rest) ← readUnits? rest
    some (.char c :: units, rest)
  | c :: rest =>
    -- Control characters stand in a string only behind a backslash.
    if c.toNat < 0x20 then none
    else do
      let (units, rest) ← readUnits? rest
      some (.char c :: units, rest)
  | [] => none

/-- The first half of a surrogate pair. -/
def isHighHalf (n : Nat) : Bool :=
  0xD800 ≤ n && n < 0xDC00

/-- The second half of a surrogate pair. -/
def isLowHalf (n : Nat) : Bool :=
  0xDC00 ≤ n && n < 0xE000

/-- The text of units: two halves of a pair make one character, and a half alone has no text. -/
def unitsText? : List CodeUnit → Option (List Char)
  | [] => some []
  | .char c :: rest => (unitsText? rest).map (c :: ·)
  | .escape h :: .escape l :: rest =>
    if isHighHalf h then
      if isLowHalf l then
        (unitsText? rest).map (Char.ofNat (0x10000 + (h - 0xD800) * 0x400 + (l - 0xDC00)) :: ·)
      else none
    else if isLowHalf h then none
    else (unitsText? (.escape l :: rest)).map (Char.ofNat h :: ·)
  | .escape n :: rest =>
    if isHighHalf n || isLowHalf n then none else (unitsText? rest).map (Char.ofNat n :: ·)

/-- The text of a string behind its opening quote, and the rest. -/
def readText? (s : List Char) : Option (Option String × List Char) := do
  let (units, rest) ← readUnits? s
  some ((unitsText? units).map String.ofList, rest)

/-! ### Numbers -/

/-- The digits of a whole number: a zero, or digits that do not start with one. -/
def readWhole? (s : List Char) : Option (List Char × List Char) :=
  match Decimal.takeDigits s with
  | ([], _) => none
  | ('0' :: _ :: _, _) => none
  | (digits, rest) => some (digits, rest)

/-- A fraction, if there is a point. -/
def readFraction? : List Char → Option (Option (List Char) × List Char)
  | '.' :: rest =>
    match Decimal.takeDigits rest with
    | ([], _) => none
    | (digits, rest) => some (some digits, rest)
  | rest => some (none, rest)

/-- An exponent, if there is a mark for one. -/
def readExponent? (s : List Char) : Option (Option Int × List Char) :=
  match s with
  | c :: _ =>
    if c = 'e' || c = 'E' then (Decimal.takeExponent s).map fun (n, rest) => (some n, rest)
    else some (none, s)
  | [] => some (none, [])

/-- A numeral. -/
def readNumeral? (s : List Char) : Option (Numeral × List Char) := do
  let (negative, s) := match s with
    | '-' :: rest => (true, rest)
    | rest => (false, rest)
  let (whole, s) ← readWhole? s
  let (fraction, s) ← readFraction? s
  let (exponent, s) ← readExponent? s
  some (⟨negative, whole, fraction, exponent⟩, s)

/-! ### Values -/

mutual

/-- A value, where `fuel` bounds the steps of reading it. -/
def readValue? : Nat → List Char → Option (Value × List Char)
  | 0, _ => none
  | fuel + 1, s =>
    match skipBlanks s with
    | '"' :: rest => (readText? rest).map fun (text, rest) => (.string text, rest)
    -- An empty list is taken here, so that every item that is read has to be there.
    | '[' :: rest =>
      match take? ']' rest with
      | some rest => some (.array [], rest)
      | none => (readItems? fuel rest).map fun (items, rest) => (.array items, rest)
    | '{' :: rest =>
      match take? '}' rest with
      | some rest => some (.object [], rest)
      | none => (readMembers? fuel rest).map fun (members, rest) => (.object members, rest)
    | 'n' :: rest => (takeWord? "ull" rest).map fun rest => (.null, rest)
    | 't' :: rest => (takeWord? "rue" rest).map fun rest => (.bool true, rest)
    | 'f' :: rest => (takeWord? "alse" rest).map fun rest => (.bool false, rest)
    | rest => (readNumeral? rest).map fun (n, rest) => (.number n, rest)

/-- The items of an array up to its closing bracket. -/
def readItems? : Nat → List Char → Option (List Value × List Char)
  | 0, _ => none
  | fuel + 1, s => do
    let (v, s) ← readValue? fuel s
    match take? ',' s with
    | some s =>
      let (items, s) ← readItems? fuel s
      some (v :: items, s)
    | none =>
      let s ← take? ']' s
      some ([v], s)

/-- The members of an object up to its closing brace. -/
def readMembers? : Nat → List Char → Option (List Member × List Char)
  | 0, _ => none
  | fuel + 1, s => do
    let s ← take? '"' s
    let (key, s) ← readText? s
    let s ← take? ':' s
    let (v, s) ← readValue? fuel s
    match take? ',' s with
    | some s =>
      let (members, s) ← readMembers? fuel s
      some (.mk key v :: members, s)
    | none =>
      let s ← take? '}' s
      some ([.mk key v], s)

end

/-- A value, and the rest behind it. Two steps for each character are always enough. -/
def Value.read? (s : List Char) : Option (Value × List Char) :=
  readValue? (2 * s.length + 2) s

/-- The value of a text that holds nothing else. -/
def Value.parse? (s : String) : Option Value := do
  let (v, rest) ← Value.read? s.toList
  if (skipBlanks rest).isEmpty then some v else none

end Stencil.Json
