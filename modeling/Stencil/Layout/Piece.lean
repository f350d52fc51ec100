import Stencil.Template.Node
import Stencil.Text.Quoted

/-!
# Pieces

What is left of a template tree once its components are inlined: the constructs that an engine has
to spell, in the order of the output. Groups are opened, empty texts are gone, and an inlined call
is a scope that binds the declared props around the body of the component.
-/

namespace Stencil

/-- A prop that an inlined call binds, with the value the call gives it. -/
structure Binding where
  name : String
  value : Option AttributeValue
deriving DecidableEq, Repr

/-- The value of a binding as a script expression. -/
def Binding.script (b : Binding) : String :=
  match b.value with
  | none => "undefined"
  | some (.flag on) => if on then "true" else "false"
  | some (.literal s) => Text.quoted s
  | some (.dynamic code) => code.text

/-- The tag of an element that is not inlined, and what is in it. -/
structure Head where
  tag : String
  attributes : List Attribute
  /-- The element was written without children. -/
  isEmpty : Bool
  /-- The tag names a component whose inlining is going on already. -/
  isRecursive : Bool
deriving DecidableEq, Repr

/-- A construct of the output. -/
inductive Piece where
  | element (head : Head) (content : List Piece)
  | text (value : String)
  | interpolation (code : Code)
  | condition (test : Code) (consequent alternate : Option (List Piece))
  | iteration (loop : Loop) (body : List Piece)
  | scope (bindings : List Binding) (body : List Piece)

/-- What a call binds: the declared props except the children, each with the first attribute of its
name. -/
def Signature.bind (s : Signature) (attributes : List Attribute) : List Binding :=
  (s.props.filter (·.name != "children")).map fun p =>
    ⟨p.name, (attributes.find? (·.name == p.name)).map (·.value)⟩

end Stencil
