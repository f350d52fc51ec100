/-!
# Reading decimals

`ofScaled` is the double nearest to `digits * 10 ^ exponent`. `read?` accepts an optional sign,
then either one of the words `inf`, `infinity` and `nan` in any case, or digits with an optional
point and an optional exponent, with at least one digit beside the point.
-/

namespace Stencil.Decimal

/-- The value of a decimal digit. -/
def digitValue (c : Char) : Nat :=
  c.toNat - '0'.toNat

/-- The number that a list of decimal digits spells. -/
def digitsValue (ds : List Char) : Nat :=
  ds.foldl (fun n c => 10 * n + digitValue c) 0

/-- The double nearest to `digits * 10 ^ exponent`. Beyond the range of doubles the answer is known
without computing the power: every positive number from 10^310 up is infinite, and every number
below 10^-330 is zero. -/
def ofScaled (digits : Nat) (exponent : Int) : Float :=
  let size : Int := (Nat.toDigits 10 digits).length
  if digits = 0 then 0.0
  else if 310 < size + exponent then 1.0 / 0.0
  else if size + exponent < -330 then 0.0
  else Float.ofScientific digits (exponent < 0) exponent.natAbs

/-- Decimal digits at the start of a text, and the rest. -/
def takeDigits (s : List Char) : List Char × List Char :=
  s.span Char.isDigit

/-- An exponent part at the start of a text: a mark, an optional sign and digits. -/
def takeExponent : List Char → Option (Int × List Char)
  | c :: rest =>
    if c = 'e' || c = 'E' then
      let (negative, rest) := match rest with
        | '-' :: r => (true, r)
        | '+' :: r => (false, r)
        | r => (false, r)
      -- The letter alone is no exponent.
      let (ds, rest) := takeDigits rest
      if ds.isEmpty then none
      else
        let n : Int := digitsValue ds
        some (if negative then -n else n, rest)
    else none
  | [] => none

/-- Digits with an optional point, and at least one digit: the digits before and after the point. -/
def takeMantissa (s : List Char) : Option (List Char × List Char × List Char) :=
  let (whole, rest) := takeDigits s
  let (fraction, rest) := match rest with
    | '.' :: r => takeDigits r
    | r => ([], r)
  if whole.isEmpty && fraction.isEmpty then none else some (whole, fraction, rest)

/-- The double of an unsigned decimal numeral that fills the whole text. -/
def readUnsigned? (s : List Char) : Option Float := do
  let (whole, fraction, rest) ← takeMantissa s
  let (exponent, rest) ← match rest with
    | [] => some (0, [])
    | r => takeExponent r
  if rest.isEmpty then
    some (ofScaled (digitsValue (whole ++ fraction)) (exponent - fraction.length))
  else none

/-- The double of a named value, in any case. -/
def readNamed? (s : List Char) : Option Float :=
  let word := String.ofList (s.map Char.toLower)
  if word = "inf" || word = "infinity" then some (1.0 / 0.0)
  else if word = "nan" then some (0.0 / 0.0)
  else none

/-- The double that a whole text spells. -/
def read? (s : String) : Option Float :=
  let (negative, body) := match s.toList with
    | '-' :: r => (true, r)
    | '+' :: r => (false, r)
    | r => (false, r)
  ((readUnsigned? body).or (readNamed? body)).map fun x => if negative then -x else x

end Stencil.Decimal
