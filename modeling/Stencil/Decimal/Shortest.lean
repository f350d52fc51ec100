import Stencil.Decimal.Binary

/-!
# Shortest decimals

`shortest` gives the fewest decimal digits that read back as a given double. The reals that round
to `mantissa * 2 ^ exponent` form an interval around it, whose ends belong to it when the mantissa
is even. For one digit, two digits and so on, the two neighbours of the value on that decimal grid
are tried against the interval; the first grid with a hit wins, and of two hits the nearer. A tie
goes to the larger digit.

All of it is arithmetic on natural numbers.
-/

namespace Stencil.Decimal

/-- The number `digits * 10 ^ exponent`. -/
structure Scaled where
  digits : Nat
  exponent : Int
deriving DecidableEq, Repr

/-- A positive rational, and the interval of the rationals that round to it, over one
denominator. -/
structure Rounding where
  value : Nat
  low : Nat
  high : Nat
  denominator : Nat
  /-- Both ends of the interval belong to it. -/
  closed : Bool
deriving Repr

/-- The interval that rounds to a binary magnitude. Everything is counted in quarters of the last
binary place, the unit in which both half gaps are whole. -/
def Rounding.ofBinary (b : Binary) : Rounding :=
  let scale := Nat.pow 2 (b.exponent - 2).toNat
  { value := 4 * b.mantissa * scale
    low := (4 * b.mantissa - (if b.leastOfBinade then 1 else 2)) * scale
    high := (4 * b.mantissa + 2) * scale
    denominator := Nat.pow 2 (2 - b.exponent).toNat
    closed := b.mantissa % 2 == 0 }

/-- Measures the interval in units of `10 ^ place`. -/
def Rounding.inUnits (r : Rounding) (place : Int) : Rounding :=
  let up := Nat.pow 10 (-place).toNat
  { r with
    value := r.value * up
    low := r.low * up
    high := r.high * up
    denominator := r.denominator * Nat.pow 10 place.toNat }

/-- The whole number `n` lies in the interval. -/
def Rounding.holds (r : Rounding) (n : Nat) : Bool :=
  let point := n * r.denominator
  if r.closed then r.low ≤ point && point ≤ r.high else r.low < point && point < r.high

/-- The whole number next to the value that lies in the interval, if there is one. -/
def Rounding.whole? (r : Rounding) : Option Nat :=
  let below := r.value / r.denominator
  let above := below + 1
  match r.holds below, r.holds above with
  -- Where both are read back as the value, the nearer one is taken.
  | true, true =>
    if r.value - below * r.denominator < above * r.denominator - r.value then some below
    else some above
  | true, false => some below
  | false, true => some above
  | false, false => none

/-- How many decimal places the quotient `n / d` stays below one: the number of factors ten, at most
`bound`, that lift `n` to `d` or above. -/
def placesBelowOne (n d : Nat) : Nat → Nat
  | 0 => 0
  | bound + 1 => if d ≤ n then 0 else placesBelowOne (10 * n) d bound + 1

/-- The exponent of the leading decimal digit of a positive rational. -/
def Rounding.leading (r : Rounding) : Int :=
  if r.denominator ≤ r.value then ((Nat.toDigits 10 (r.value / r.denominator)).length : Int) - 1
  else -(placesBelowOne r.value r.denominator 400 : Int)

/-- Tries the grids with `count`, `count + 1`, … digits, `tries` of them. -/
def Rounding.search (r : Rounding) (count : Nat) : Nat → Scaled
  | 0 => ⟨0, 0⟩
  | tries + 1 =>
    let place := r.leading + 1 - count
    match (r.inUnits place).whole? with
    | some n => ⟨n, place⟩
    | none => r.search (count + 1) tries

/-- Moves the factors ten of the digits into the exponent, `bound` of them at most. -/
def Scaled.strip (s : Scaled) : Nat → Scaled
  | 0 => s
  | bound + 1 =>
    if s.digits ≠ 0 && s.digits % 10 == 0 then
      (Scaled.mk (s.digits / 10) (s.exponent + 1)).strip bound
    else s

/-- The fewest digits that read back as the given magnitude. Seventeen always suffice. -/
def shortest (b : Binary) : Scaled :=
  ((Rounding.ofBinary b).search 1 17).strip 18

end Stencil.Decimal
