import Stencil.Decimal.Binary
import Stencil.Decimal.Notation
import Stencil.Decimal.Read
import Stencil.Script.Tree
import Stencil.Text.Blank

/-!
# Constant values

The primitive values that an expression can have when it is compiled, their conversions, and the
operators on them.
-/

namespace Stencil

/-- A primitive value. -/
inductive Value where
  | undefined
  | null
  | bool (b : Bool)
  | number (x : Float)
  | string (s : String)

namespace Value

/-- The value counts as true in a test. -/
def truthy : Value → Bool
  | .undefined | .null => false
  | .bool b => b
  | .number x => x != 0.0 && !x.isNaN
  | .string s => !s.isEmpty

/-- The value is missing: undefined or null. -/
def nullish : Value → Bool
  | .undefined | .null => true
  | _ => false

/-- The text of a value. -/
def text : Value → String
  | .undefined => "undefined"
  | .null => "null"
  | .bool true => "true"
  | .bool false => "false"
  | .number x => Decimal.text x
  | .string s => s

/-- Not a number. -/
def nan : Float := 0.0 / 0.0

/-- The number of a value. A blank text is zero, and a text that is no numeral is not a number. -/
def toNumber : Value → Float
  | .undefined => nan
  | .null => 0.0
  | .bool b => if b then 1.0 else 0.0
  | .number x => x
  | .string s =>
    let trimmed := Text.trim s
    if trimmed.isEmpty then 0.0 else (Decimal.read? trimmed).getD nan

/-- What `typeof` answers. -/
def typeName : Value → String
  | .undefined => "undefined"
  | .null => "object"
  | .bool _ => "boolean"
  | .number _ => "number"
  | .string _ => "string"

def isString : Value → Bool
  | .string _ => true
  | _ => false

/-! ### Comparisons -/

/-- Equal without any conversion. -/
def strictEq : Value → Value → Bool
  | .undefined, .undefined => true
  | .null, .null => true
  | .bool a, .bool b => a == b
  | .number a, .number b => a == b
  | .string a, .string b => a == b
  | _, _ => false

/-- Equal after conversion to numbers, two texts aside. A missing value equals missing values
only. -/
def looseEq (a b : Value) : Bool :=
  if a.nullish || b.nullish then a.nullish && b.nullish
  else
    match a, b with
    | .string a, .string b => a == b
    | a, b => a.toNumber == b.toNumber

/-- The answer of an ordering operator: two texts compare by code points, all else as numbers. -/
def orderedBy (texts : String → String → Bool) (numbers : Float → Float → Bool) (a b : Value) :
    Bool :=
  match a, b with
  | .string a, .string b => texts a b
  | a, b => numbers a.toNumber b.toNumber

def less (a b : Value) : Bool :=
  orderedBy (fun a b => a < b) (fun x y => x < y) a b

def lessOrEq (a b : Value) : Bool :=
  orderedBy (fun a b => !(b < a)) (fun x y => x ≤ y) a b

/-! ### Operators -/

/-- The value of a prefix operator, where it has one on primitive values. -/
def unary : Script.UnaryOp → Value → Option Value
  | .not, v => some (.bool !v.truthy)
  | .negate, v => some (.number (-v.toNumber))
  | .plus, v => some (.number v.toNumber)
  | .typeof, v => some (.string v.typeName)
  | .void, _ => some .undefined
  | _, _ => none

/-- The value of a sum: joined texts if one operand is a text. -/
def add (a b : Value) : Value :=
  if a.isString || b.isString then .string (a.text ++ b.text)
  else .number (a.toNumber + b.toNumber)

/-- The value of an operator between two operands, where it has one on primitive values. -/
def binary : Script.BinaryOp → Value → Value → Option Value
  | .add, a, b => some (a.add b)
  | .sub, a, b => some (.number (a.toNumber - b.toNumber))
  | .mul, a, b => some (.number (a.toNumber * b.toNumber))
  | .div, a, b => some (.number (a.toNumber / b.toNumber))
  | .rem, a, b => some (.number (Decimal.remainder a.toNumber b.toNumber))
  | .strictEq, a, b => some (.bool (a.strictEq b))
  | .strictNe, a, b => some (.bool !(a.strictEq b))
  | .looseEq, a, b => some (.bool (a.looseEq b))
  | .looseNe, a, b => some (.bool !(a.looseEq b))
  | .lt, a, b => some (.bool (a.less b))
  | .le, a, b => some (.bool (a.lessOrEq b))
  -- These are the two above with their sides swapped, not their opposites: all four are false where
  -- a side is no number.
  | .gt, a, b => some (.bool (b.less a))
  | .ge, a, b => some (.bool (b.lessOrEq a))
  -- Bitwise operators, powers and tests of membership are left to the engine.
  | _, _, _ => none

/-- The left operand decides a logical operator on its own. -/
def decides : Script.LogicalOp → Value → Bool
  | .and, v => !v.truthy
  | .or, v => v.truthy
  | .coalesce, v => !v.nullish

end Value

end Stencil
