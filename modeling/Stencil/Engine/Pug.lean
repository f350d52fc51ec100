import Stencil.Engine.Line
import Stencil.Text.Quoted

/-!
# Pug

Nesting is by indentation alone. Code stands in the template as it is, and bindings are assignments
in front of the body they are for.
-/

namespace Stencil.Pug

/-- A line of a Pug template. -/
inductive Directive where
  | tag (tag : String) (attributes : List Attribute)
  | text (value : String)
  | value (code : Code)
  | startIf (test : Code)
  | startUnless (test : Code)
  | otherwise
  | each (item : String) (index : Option String) (iterable : String)
  | assign (name value : String)

/-! ### Spelling -/

/-- An attribute in a tag. An attribute whose value counts as false does not show. -/
def attribute? (a : Attribute) : Option String :=
  match a.value with
  | .flag true => some a.name
  | .flag false => none
  | .literal s => some (a.name ++ "=" ++ Text.quoted s)
  | .dynamic code => some (a.name ++ "=" ++ code.text)

/-- The text of a line. -/
def Directive.spell : Directive → String
  | .tag name attributes =>
    let shown := attributes.filterMap attribute?
    -- Attributes that are left out leave no parentheses either.
    if shown.isEmpty then name else name ++ "(" ++ ", ".intercalate shown ++ ")"
  | .text s => "| " ++ s
  | .value code => "= " ++ code.text
  | .startIf test => "if " ++ test.text
  | .startUnless test => "unless " ++ test.text
  | .otherwise => "else"
  | .each item none iterable => "each " ++ item ++ " in " ++ iterable
  | .each item (some index) iterable => "each " ++ item ++ ", " ++ index ++ " in " ++ iterable
  | .assign name v => "- var " ++ name ++ " = " ++ v

/-! ### Emission -/

/-- The lines that a loop starts with. -/
def startLoop (loop : Loop) : List Directive :=
  match loop.array with
  | none => [.each loop.item loop.index loop.iterable.text]
  | some array => [.assign array loop.iterable.text, .each loop.item loop.index array]

/-- The line for a binding. -/
def assignment (b : Binding) : Directive :=
  .assign b.name b.script

mutual

/-- What a piece gives off at a level. -/
def emit (level : Nat) : Piece → List (Emission Directive)
  | .element head content =>
    head.warnings ++ .line level (.tag head.tag head.attributes) :: emitAll (level + 1) content
  | .text value => [.line level (.text value)]
  | .interpolation code => [.line level (.value code)]
  -- Without a first branch the test is turned around. There are no closing lines: the indentation
  -- ends a block.
  | .condition test none (some alternate) =>
    .line level (.startUnless test) :: emitAll (level + 1) alternate
  | .condition test consequent alternate =>
    .line level (.startIf test) :: emitConsequent (level + 1) consequent
      ++ emitAlternate level alternate
  | .iteration loop body =>
    (startLoop loop).map (.line level) ++ emitAll (level + 1) body
  -- Props are assigned where the call stands, at the same level as what follows.
  | .scope bindings body => bindings.map (fun b => .line level (assignment b)) ++ emitAll level body

def emitAll (level : Nat) : List Piece → List (Emission Directive)
  | [] => []
  | p :: rest => emit level p ++ emitAll level rest

def emitConsequent (level : Nat) : Option (List Piece) → List (Emission Directive)
  | none => []
  | some ps => emitAll level ps

def emitAlternate (level : Nat) : Option (List Piece) → List (Emission Directive)
  | none => []
  | some ps => .line level .otherwise :: emitAll (level + 1) ps

end

end Stencil.Pug
