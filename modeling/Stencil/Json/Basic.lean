import Stencil.Decimal.Read

/-!
# JSON values

A JSON text as it is written: members in their order, repeated ones included, and numerals by their
digits. A string whose escapes name half of a surrogate pair has no text.

`isReadable` says which values can be held as data: their strings have a text, their numbers are in
the range of doubles, and they nest less than 128 deep.
-/

namespace Stencil.Json

/-- A numeral as it is written. -/
structure Numeral where
  negative : Bool
  whole : List Char
  fraction : Option (List Char)
  exponent : Option Int
deriving DecidableEq, Repr

mutual

/-- A JSON value. -/
inductive Value where
  | null
  | bool (value : Bool)
  | number (numeral : Numeral)
  | string (text : Option String)
  | array (items : List Value)
  | object (members : List Member)

/-- A member of an object. -/
inductive Member where
  | mk (key : Option String) (value : Value)

end

/-! ### Numbers -/

namespace Numeral

/-- The number of values that 64 bits can hold. -/
def wordSize : Nat := Nat.pow 2 64

/-- The numeral of a natural number that fits into 64 bits. -/
def natural? (n : Numeral) : Option Nat :=
  match n with
  | ⟨false, whole, none, none⟩ =>
    let value := Decimal.digitsValue whole
    if value < wordSize then some value else none
  | _ => none

/-- A decimal that is read digit by digit: a significand of 64 bits and a power of ten. -/
structure Scaled where
  significand : Nat
  exponent : Int
  /-- A digit did not fit any more. -/
  full : Bool

/-- Takes in a digit before the point; a digit that does not fit only counts. -/
def Scaled.addWhole (s : Scaled) (c : Char) : Scaled :=
  let next := 10 * s.significand + Decimal.digitValue c
  if s.full || wordSize ≤ next then { s with exponent := s.exponent + 1, full := true }
  else { s with significand := next }

/-- Takes in a digit after the point; from the first that does not fit on they are left out. -/
def Scaled.addFraction (s : Scaled) (c : Char) : Scaled :=
  let next := 10 * s.significand + Decimal.digitValue c
  if s.full || wordSize ≤ next then { s with full := true }
  else { s with significand := next, exponent := s.exponent - 1 }

/-- The digits of a numeral in 64 bits. -/
def scaled (n : Numeral) : Scaled :=
  let whole := n.whole.foldl Scaled.addWhole ⟨0, 0, false⟩
  let all := (n.fraction.getD []).foldl Scaled.addFraction { whole with full := false }
  { all with exponent := all.exponent + n.exponent.getD 0 }

/-- The number is in the range of doubles. -/
def inRange (n : Numeral) : Bool :=
  let s := n.scaled
  if s.significand = 0 || s.exponent < 0 then true
  else if 308 < s.exponent then false
  else !(Decimal.ofScaled s.significand 0 * Decimal.ofScaled 1 s.exponent).isInf

end Numeral

/-! ### Readable values -/

/-- How deep values may nest. -/
def maxDepth : Nat := 127

mutual

/-- The value can be held as data, inside at most `depth` more brackets. -/
def Value.isReadableWithin (depth : Nat) : Value → Bool
  | .null | .bool _ => true
  | .number n => n.inRange
  | .string text => text.isSome
  | .array items => 0 < depth && areReadable (depth - 1) items
  | .object members => 0 < depth && membersReadable (depth - 1) members

def areReadable (depth : Nat) : List Value → Bool
  | [] => true
  | v :: rest => v.isReadableWithin depth && areReadable depth rest

def membersReadable (depth : Nat) : List Member → Bool
  | [] => true
  | .mk key value :: rest =>
    key.isSome && value.isReadableWithin depth && membersReadable depth rest

end

/-- The value can be held as data. -/
def Value.isReadable (v : Value) : Bool :=
  v.isReadableWithin maxDepth

/-- The key of a member. -/
def Member.key : Member → Option String
  | .mk key _ => key

/-- The value of a member. -/
def Member.value : Member → Value
  | .mk _ value => value

/-- The last member of an object under a key. -/
def Value.member? (v : Value) (key : String) : Option Value :=
  match v with
  | .object members => (members.reverse.find? fun m => m.key == some key).map Member.value
  | _ => none

/-- The text of a string. -/
def Value.text? : Value → Option String
  | .string text => text
  | _ => none

end Stencil.Json
