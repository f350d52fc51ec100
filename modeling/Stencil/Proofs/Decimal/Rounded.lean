import Mathlib
import Stencil.Decimal.Read

/-!
# Rounding gives a number

A double that a decimal rounds to is a number: zero, finite or infinite (`isNaN_ofScaled`). A
numeral of `read?` is scaled by a multiplication with or a division by a power of ten, or rounded
at once, and none of these steps ends in a double that is not a number.

* `isNaN_unpack_pack`: packing an unpacked number into bits and unpacking it keeps it a number.
* `isNaN_mul`, `isNaN_div`: scaling by a number that is finite and not zero does the same.
-/

namespace Stencil.Decimal

open Float.Model UnpackedFloat

/-! ### Packed numbers -/

/-- Only an exponent of ones over a mantissa that is not zero reads as no number. -/
theorem isNaN_unpack_iff {spec : Format} (b : BitVec spec.numBits) :
    (UnpackedFloat.unpack spec b).isNaN = true ↔
      unpackExponent b = -BitVec.ofNat spec.exponentBits 1 ∧
        unpackMantissa b ≠ BitVec.ofNat spec.mantissaBitsWithoutImplicit 0 := by
  unfold UnpackedFloat.unpack
  dsimp only
  split
  · next hexponent =>
    split
    · next hmantissa => simp [UnpackedFloat.isNaN, hmantissa]
    · next hmantissa => simp [UnpackedFloat.isNaN, hexponent, hmantissa]
  · next hexponent =>
    -- With any other exponent the pattern reads as zero or as a finite number.
    refine iff_of_false ?_ fun h => hexponent h.1
    split
    · split <;> simp [UnpackedFloat.isNaN]
    · simp [UnpackedFloat.isNaN]

/-- Packing rounds no number to a pattern that is not one: what is too large is packed as infinity,
and all else under an exponent that is not all ones. -/
theorem isNaN_unpack_pack (u : UnpackedFloat) (h : u.isNaN = false) :
    (UnpackedFloat.unpack .binary64 (UnpackedFloat.pack .binary64 u)).isNaN = false := by
  rw [Bool.eq_false_iff, Ne, isNaN_unpack_iff]
  rintro ⟨hexponent, hmantissa⟩
  cases u with
  | notANumber => cases h
  | infinity s =>
    rw [UnpackedFloat.pack, packedInfinity, unpackMantissa_packComponents] at hmantissa
    exact hmantissa rfl
  | zero s =>
    rw [UnpackedFloat.pack, packedZero, unpackExponent_packComponents] at hexponent
    exact absurd hexponent (by decide)
  | finite s m e hm =>
    -- Too large a number is packed as infinity, whose mantissa is zero; the exponent of the rest
    -- is kept below the one of all ones.
    rw [UnpackedFloat.pack] at hexponent hmantissa
    dsimp only at hexponent hmantissa
    split at hexponent
    · next hlarge =>
      rw [if_pos hlarge, packedInfinity, unpackMantissa_packComponents] at hmantissa
      exact hmantissa rfl
    · next hsmall =>
      split at hexponent
      · rw [unpackExponent_packComponents] at hexponent
        have hnat := congrArg BitVec.toNat hexponent
        simp at hnat hsmall
        omega
      · rw [unpackExponent_packComponents] at hexponent
        exact absurd hexponent (by decide)

/-! ### Operations -/

/-- Rounding gives a number. -/
theorem isNaN_roundWithAccuracy (spec : Format) (s : Sign) (m : Nat) (e : Int) (a : Accuracy) :
    (roundWithAccuracy spec s m e a).isNaN = false := by
  unfold roundWithAccuracy
  dsimp only
  split <;> rfl

theorem isNaN_normalize (spec : Format) (m e : Int) (s : Sign) :
    (UnpackedFloat.normalize spec m e s).isNaN = false := by
  unfold UnpackedFloat.normalize
  split
  · exact isNaN_roundWithAccuracy ..
  · rfl
  · exact isNaN_roundWithAccuracy ..

/-- A number times a finite one other than zero is a number. -/
theorem isNaN_mul_finite (spec : Format) {u : UnpackedFloat} (hu : u.isNaN = false) (s : Sign)
    (m : Nat) (e : Int) (hm : 0 < m) :
    (UnpackedFloat.mul spec u (.finite s m e hm)).isNaN = false := by
  cases u with
  | notANumber => cases hu
  | infinity s' => rfl
  | zero s' => rfl
  | finite s' m' e' hm' => exact isNaN_roundWithAccuracy ..

theorem isNaN_div_finite (spec : Format) {u : UnpackedFloat} (hu : u.isNaN = false) (s : Sign)
    (m : Nat) (e : Int) (hm : 0 < m) :
    (UnpackedFloat.div spec u (.finite s m e hm)).isNaN = false := by
  cases u with
  | notANumber => cases hu
  | infinity s' => rfl
  | zero s' => rfl
  | finite s' m' e' hm' => exact isNaN_roundWithAccuracy ..

theorem isNaN_neg {x : Float} (h : x.isNaN = false) : (-x).isNaN = false := by
  refine isNaN_unpack_pack _ ?_
  have hx : x.toModel.unpack.isNaN = false := h
  revert hx
  cases x.toModel.unpack <;> exact fun hx => hx

/-- The number is finite and not zero. -/
def isProper (x : Float) : Bool :=
  match x.toModel.unpack with
  | .finite _ _ _ _ => true
  | _ => false

/-- The same for the type `Float`. -/
theorem isNaN_mul {x y : Float} (hx : x.isNaN = false) (hy : isProper y = true) :
    (x * y).isNaN = false := by
  refine isNaN_unpack_pack _ ?_
  unfold isProper at hy
  split at hy
  · next s m e hm hunpack =>
    rw [hunpack]
    exact isNaN_mul_finite _ hx ..
  · cases hy

/-- The same for the type `Float`. -/
theorem isNaN_div {x y : Float} (hx : x.isNaN = false) (hy : isProper y = true) :
    (x / y).isNaN = false := by
  refine isNaN_unpack_pack _ ?_
  unfold isProper at hy
  split at hy
  · next s m e hm hunpack =>
    rw [hunpack]
    exact isNaN_div_finite _ hx ..
  · cases hy

/-! ### Decimals -/

/-- A whole number is a number. -/
theorem isNaN_ofUInt64 (n : UInt64) : n.toFloat.isNaN = false :=
  isNaN_unpack_pack _ (isNaN_normalize ..)

/-- The tabulated powers of ten are finite and not zero. -/
theorem isProper_power : ∀ (e : Nat) (he : e < Float.exactlyRepresentablePowersOfTen.size),
    isProper Float.exactlyRepresentablePowersOfTen[e] = true := by
  decide

/-- So digits with an exponent are a number, in the model of floats. -/
theorem isNaN_ofScientific_model (m : Nat) (e : Int) :
    (Float.Model.ofScientific m e).isNaN = false := by
  refine isNaN_unpack_pack _ ?_
  -- Zero, overflow, underflow, and a whole number or a fraction that is rounded.
  unfold UnpackedFloat.ofScientific
  split
  · rfl
  · split
    · rfl
    · split
      · rfl
      · split
        · exact isNaN_roundWithAccuracy ..
        · exact isNaN_roundWithAccuracy ..

/-- Short decimals are scaled by an exact power of ten, and all others rounded once. -/
theorem isNaN_ofScientific (m : Nat) (s : Bool) (e : Nat) :
    (Float.ofScientific m s e).isNaN = false := by
  unfold Float.ofScientific
  split
  · dsimp only
    split
    · exact isNaN_div (isNaN_ofUInt64 _) (isProper_power _ _)
    · exact isNaN_mul (isNaN_ofUInt64 _) (isProper_power _ _)
  · exact isNaN_ofScientific_model ..

/-- So they are one as `Float`, whichever way they are scaled. -/
theorem isNaN_ofScaled (digits : Nat) (exponent : Int) :
    (ofScaled digits exponent).isNaN = false := by
  unfold ofScaled
  dsimp only
  -- Zero and both ends of the range come first; everything between is scaled.
  split
  · decide +kernel
  · split
    · decide +kernel
    · split
      · decide +kernel
      · exact isNaN_ofScientific ..

end Stencil.Decimal
