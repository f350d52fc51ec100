import Stencil.Constant.Evaluate
import Stencil.Text.Search

/-!
# Shapes of expressions

Questions that the optimizer asks about code: is it a string literal, is it a guard, which name is
it rooted in, and which parts of a template literal are constant.
-/

namespace Stencil

open Script

/-- The value of code that is a string literal, in parentheses or not. -/
def stringLiteral? (code : String) : Option String :=
  (Expr.parse? code).bind fun e =>
    match e.bare.form with
    | .string s => some s
    | _ => none

/-- The name that a guard tests: a name joined with a string literal by `&&`, on either side. -/
def guardName? (code : String) : Option String :=
  (Expr.parse? code).bind fun e =>
    match e.bare.form with
    | .logical .and left right =>
      match left.bare.form, right.bare.form with
      | .identifier name, .string _ => some name
      -- The literal counts as true here, also the empty one.
      | .string _, .identifier name => some name
      | _, _ => none
    | _ => none

/-! ### Roots -/

mutual

/-- The name that an expression is rooted in, down its members, calls and optional links. -/
def Script.Expr.root? : Expr → Option String
  | .mk _ form => form.root?

/-- The name that a form is rooted in. -/
def Script.Form.root? : Form → Option String
  | .identifier name => some name
  | .paren inner => inner.root?
  | .member object _ => object.root?
  | .index object _ => object.root?
  | .call callee _ => callee.root?
  | .chain inner => inner.root?
  | _ => none

end

/-- The name that code is rooted in. -/
def rootName? (code : String) : Option String :=
  (Expr.parse? code).bind Expr.root?

/-! ### Template literals -/

/-- The spelling of a text inside a template literal. -/
def escapeTemplate : List Char → List Char
  | '\\' :: rest => '\\' :: '\\' :: escapeTemplate rest
  | '`' :: rest => '\\' :: '`' :: escapeTemplate rest
  -- A dollar sign on its own needs no escape.
  | '$' :: '{' :: rest => '\\' :: '$' :: '{' :: escapeTemplate rest
  | c :: rest => c :: escapeTemplate rest
  | [] => []

/-- The text that a constant substitution contributes: only texts and numbers are written out. -/
def foldedText? (scope : Scope) (e : Expr) : Option String :=
  match e.valueIn? scope with
  | some (.string s) => some s
  -- A Boolean or a missing value keeps its place, although its text is known.
  | some (.number x) => some (Value.text (.number x))
  | _ => none

/-- A substitution in a rebuilt template literal: written out if it is constant. -/
def foldedPart (scope : Scope) (e : Expr) : List Char :=
  match foldedText? scope e with
  | some s => escapeTemplate s.toList
  | none => '$' :: '{' :: e.text.toList ++ ['}']

/-- The runs as written and the substitutions, in turn. -/
def foldedBody (scope : Scope) : List Quasi → List Expr → List Char
  | [], _ => []
  | q :: runs, [] => q.raw.toList ++ foldedBody scope runs []
  | q :: runs, e :: substitutions =>
    q.raw.toList ++ foldedPart scope e ++ foldedBody scope runs substitutions

/-- A template literal with its constant substitutions written out, if it has any. -/
def foldTemplate? (code : String) (scope : Scope) : Option String :=
  (Expr.parse? code).bind fun e =>
    match e.bare.form with
    | .template runs substitutions =>
      if substitutions.any fun e => (foldedText? scope e).isSome then
        some (String.ofList ('`' :: foldedBody scope runs substitutions ++ ['`']))
      else none
    | _ => none

end Stencil
