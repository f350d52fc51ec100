import Stencil.Constant.Value
import Stencil.Dict
import Stencil.Script.Parser.Module

/-!
# Constant evaluation

The value of an expression that is known when it is compiled. The answer is conservative: nothing
whenever the value could be different when the template is rendered.

A scope binds names to code. A name is evaluated through the code it is bound to, and that code in
the same scope again; bindings nest `maxDepth` deep at most, so names that refer to each other in a
circle are unknown.
-/

namespace Stencil

open Script

/-- Names bound to the code of their value. -/
abbrev Scope := Dict String

/-- How deep names may refer to other names. -/
def maxDepth : Nat := 16

/-- The value of a name that every script knows. -/
def globalValue? (name : String) : Option Value :=
  if name = "undefined" then some .undefined
  else if name = "NaN" then some (.number Value.nan)
  else if name = "Infinity" then some (.number (1.0 / 0.0))
  else none

/-- The text of a template literal: its runs and the texts of its substitutions in turn. -/
def interleave : List Quasi → List Value → String
  | [], _ => ""
  | q :: runs, [] => q.cooked ++ interleave runs []
  | q :: runs, v :: values => q.cooked ++ v.text ++ interleave runs values

mutual

/-- The value of an expression, where `lookup` gives the values of names. -/
def Script.Expr.eval (lookup : String → Option Value) : Expr → Option Value
  | .mk _ form => form.eval lookup

/-- The value of a form, where `lookup` gives the values of names. -/
def Script.Form.eval (lookup : String → Option Value) : Form → Option Value
  | .string s => some (.string s)
  | .number x => some (.number x)
  | .boolean b => some (.bool b)
  | .null => some .null
  | .identifier name => lookup name
  | .paren inner => inner.eval lookup
  | .template runs substitutions =>
    (evalAll lookup substitutions).map fun values => .string (interleave runs values)
  | .unary op operand => (operand.eval lookup).bind (Value.unary op)
  | .binary op left right =>
    (left.eval lookup).bind fun a => (right.eval lookup).bind fun b => Value.binary op a b
  -- The right operand need not be known if the left one decides.
  | .logical op left right =>
    (left.eval lookup).bind fun a => if Value.decides op a then some a else right.eval lookup
  -- Nor need the branch that is not taken.
  | .conditional test consequent alternate =>
    (test.eval lookup).bind fun t =>
      if t.truthy then consequent.eval lookup else alternate.eval lookup
  | _ => none

/-- The values of all the expressions. -/
def evalAll (lookup : String → Option Value) : List Expr → Option (List Value)
  | [] => some []
  | e :: rest => (e.eval lookup).bind fun v => (evalAll lookup rest).map (v :: ·)

end

/-- The value of a name in a scope, through `depth` bindings at most. -/
def Dict.valueOf? (scope : Scope) : Nat → String → Option Value
  | 0, name => globalValue? name
  | depth + 1, name =>
    (globalValue? name).or
      ((scope.get? name).bind fun code =>
        (Expr.parse? code).bind fun e => e.eval (valueOf? scope depth))

/-- The value of an expression in a scope. -/
def Script.Expr.valueIn? (scope : Scope) (e : Expr) : Option Value :=
  e.eval (scope.valueOf? maxDepth)

/-- The value of the expression that a code text begins with. -/
def evaluate? (code : String) (scope : Scope) : Option Value :=
  (Expr.parse? code).bind (·.valueIn? scope)

/-- The form is a literal that counts as true whatever it holds. -/
def isTruthyLiteral : Form → Bool
  | .element _ _ _ | .fragment _ | .object _ | .other .array _ | .arrow _ | .function _ => true
  | _ => false

/-- Whether an expression counts as true, where that is known. -/
def Script.Expr.truthIn? (scope : Scope) (e : Expr) : Option Bool :=
  if isTruthyLiteral e.bare.form then some true else (e.bare.valueIn? scope).map Value.truthy

/-- Whether the expression that a code text begins with counts as true, where that is known. -/
def truth? (code : String) (scope : Scope) : Option Bool :=
  (Expr.parse? code).bind (·.truthIn? scope)

end Stencil
