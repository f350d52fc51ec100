import Stencil.Decimal.Shortest

/-!
# Numbers as text

A `Layout` fixes how the shortest digits of a double are laid out; `Layout.write` lays them out.
Number texts in templates follow `plain`: positional from one millionth up to 10^21, with a signed
exponent beyond, and one spelling for the two zeros.
-/

namespace Stencil.Decimal

/-- How a double is written. -/
structure Layout where
  /-- Smallest exponent of the leading digit that is written positionally. -/
  positionalFrom : Int
  /-- Smallest exponent of the leading digit that needs an exponent part again. -/
  positionalBelow : Int
  exponentMark : String
  positiveExponentSign : String
  zero : String
  nan : String
  infinity : String

/-- Number texts in templates. -/
def plain : Layout where
  positionalFrom := -6
  positionalBelow := 21
  exponentMark := "e"
  positiveExponentSign := "+"
  zero := "0"
  nan := "NaN"
  infinity := "Infinity"

/-- The digits with a point after the first `point` of them; zeros fill the gap on either side. -/
def positional (digits : List Char) (point : Int) : List Char :=
  if point ≤ 0 then '0' :: '.' :: List.replicate (-point).toNat '0' ++ digits
  else if digits.length ≤ point.toNat then
    digits ++ List.replicate (point.toNat - digits.length) '0'
  else digits.take point.toNat ++ '.' :: digits.drop point.toNat

/-- The first digit, a point and the others if there are any, and the exponent. -/
def scientific (layout : Layout) (digits : List Char) (exponent : Int) : List Char :=
  let fraction := match digits.drop 1 with
    | [] => []
    | rest => '.' :: rest
  let sign := if exponent < 0 then "-" else layout.positiveExponentSign
  digits.take 1 ++ fraction ++ layout.exponentMark.toList ++ sign.toList
    ++ Nat.toDigits 10 exponent.natAbs

/-- The text of a positive finite magnitude. -/
def Layout.magnitude (layout : Layout) (b : Binary) : List Char :=
  let s := shortest b
  let digits := Nat.toDigits 10 s.digits
  let leading := s.exponent + digits.length - 1
  if layout.positionalFrom ≤ leading && leading < layout.positionalBelow then
    positional digits (leading + 1)
  else scientific layout digits leading

/-- The text of a double. -/
def Layout.write (layout : Layout) (x : Float) : String :=
  if x.isNaN then layout.nan
  else if x == 0.0 then layout.zero
  else
    let sign := if x < 0.0 then "-" else ""
    if x.isInf then sign ++ layout.infinity
    else sign ++ String.ofList (layout.magnitude (Binary.ofBits x.toBits))

/-- The text of a number in a template. -/
def text (x : Float) : String :=
  plain.write x

end Stencil.Decimal
