import Stencil.Engine.Ejs
import Stencil.Engine.Liquid
import Stencil.Engine.Pug
import Stencil.Layout.Inline

/-!
# Template engines

The engines that templates are written for, with their names, the extensions of their files, and the
generation of a template from a tree and a table.
-/

namespace Stencil

/-- A template engine. -/
inductive Engine where
  | ejs | pug | liquid
deriving DecidableEq, Repr

namespace Engine

/-- The name of an engine. -/
def name : Engine → String
  | .ejs => "ejs"
  | .pug => "pug"
  | .liquid => "liquid"

/-- The engine of a name. -/
def ofName? (s : String) : Option Engine :=
  if s = "ejs" then some .ejs
  else if s = "pug" then some .pug
  else if s = "liquid" then some .liquid
  else none

@[simp] theorem ofName?_name (e : Engine) : ofName? e.name = some e := by
  cases e <;> rfl

/-- The extension of the files of an engine. -/
def extension (e : Engine) : String :=
  e.name

/-- The engine that is taken where none is named. -/
def standard : Engine := .pug

/-- Prints pieces, the outermost at the given level. -/
def print (e : Engine) (level : Nat) (ps : List Piece) : Outcome String :=
  match e with
  | .ejs => Emission.outcome Ejs.Directive.spell (Ejs.emitAll level ps)
  | .pug => Emission.outcome Pug.Directive.spell (Pug.emitAll level ps)
  | .liquid => Emission.outcome Liquid.Directive.spell (Liquid.emitAll level ps)

/-- Generates the template of a tree, where the table holds the components. -/
def generate (e : Engine) (level : Nat) (tree : Node) (table : Table) : Outcome String :=
  e.print level (tree.layout table)

end Engine

end Stencil
