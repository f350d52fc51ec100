/-!
# Binary doubles as exact numbers

A finite double is a sign and a product `mantissa * 2 ^ exponent` of a natural number and a power of
two. This module reads that product off the bits and computes the remainder of a division exactly,
which no rounded operation does.
-/

namespace Stencil.Decimal

/-- The exact magnitude `mantissa * 2 ^ exponent` of a finite double. -/
structure Binary where
  mantissa : Nat
  exponent : Int
  /-- The mantissa is the least of its binade, so the next double below lies half as far away. -/
  leastOfBinade : Bool
deriving DecidableEq, Repr

/-- The magnitude that the bits of a finite double spell. -/
def Binary.ofBits (bits : UInt64) : Binary :=
  let fraction : Nat := bits.toNat % Nat.pow 2 52
  let biased : Nat := bits.toNat / Nat.pow 2 52 % Nat.pow 2 11
  if biased = 0 then ⟨fraction, -1074, false⟩
  else ⟨Nat.pow 2 52 + fraction, (biased : Int) - 1075, fraction = 0 && biased != 1⟩

/-- The bits of a double carry a minus sign. -/
def signBit (bits : UInt64) : Bool :=
  bits.toNat / Nat.pow 2 63 == 1

/-- The magnitude in units of `2 ^ low`, where `low` is at most its exponent. -/
def Binary.inUnits (b : Binary) (low : Int) : Nat :=
  b.mantissa * Nat.pow 2 (b.exponent - low).toNat

/-- The remainder of `x` by `y` with the sign of `x`, computed without rounding. An infinite
dividend, a zero divisor and a NaN have none. -/
def remainder (x y : Float) : Float :=
  if x.isNaN || y.isNaN || x.isInf || y == 0.0 then 0.0 / 0.0
  else if y.isInf then x
  else
    let a := Binary.ofBits x.toBits
    let b := Binary.ofBits y.toBits
    -- In units of the smaller exponent both are whole, so the remainder is exact. It has the sign
    -- of the dividend, also where it is zero.
    let low := min a.exponent b.exponent
    let r := (a.inUnits low) % (b.inUnits low)
    let magnitude := (Float.ofNat r).scaleB low
    if signBit x.toBits then -magnitude else magnitude

end Stencil.Decimal
