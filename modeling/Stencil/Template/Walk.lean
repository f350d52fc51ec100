import Stencil.Template.Node

/-!
# Walking a template tree

The order in which every pass meets the parts of a tree: document order, with the attributes of an
element after its children, so that whatever changes attributes sees finished subtrees.
-/

namespace Stencil

/-- A step of a walk over a tree. Nodes with content are entered and left; the lists and places in
between are announced with what they hold. -/
inductive Visit where
  | enterRoot | leaveRoot
  | enterFragment | leaveFragment
  | enterElement (tag : String) | leaveElement (tag : String)
  | enterCondition (test : String) | leaveCondition
  | enterIteration (item : String) | leaveIteration
  | enterMixin (name : String) | leaveMixin
  | text (value : String)
  | interpolation (code : String)
  | attributes (count : Nat)
  | attribute (name : String) (settled : Bool)
  | children (count : Nat)
  | branch (present : Bool)
deriving DecidableEq, Repr

/-- The visits to the attributes of an element. -/
def visitAttributes (attributes : List Attribute) : List Visit :=
  .attributes attributes.length :: attributes.map fun a => .attribute a.name a.isSettled

mutual

/-- The visits to a node and everything below it. -/
def Node.visits : Node → List Visit
  | .root cs => .enterRoot :: childVisits cs ++ [.leaveRoot]
  | .fragment cs => .enterFragment :: childVisits cs ++ [.leaveFragment]
  -- The children come before the attributes.
  | .element tag attributes cs =>
    .enterElement tag :: childVisits cs ++ visitAttributes attributes ++ [.leaveElement tag]
  | .text value => [.text value]
  | .interpolation code => [.interpolation code.text]
  | .condition test consequent alternate =>
    .enterCondition test.text :: branchVisits consequent ++ branchVisits alternate
      ++ [.leaveCondition]
  | .iteration loop body => .enterIteration loop.item :: childVisits body ++ [.leaveIteration]
  | .mixin signature cs => .enterMixin signature.name :: childVisits cs ++ [.leaveMixin]

/-- The visits to a list of children, announced by its length. -/
def childVisits (cs : List Node) : List Visit :=
  .children cs.length :: siblingVisits cs

/-- The visits to siblings in their order. -/
def siblingVisits : List Node → List Visit
  | [] => []
  | n :: rest => n.visits ++ siblingVisits rest

/-- The visits to a branch of a condition, announced whether it is there or not. -/
def branchVisits : Option Node → List Visit
  | none => [.branch false]
  | some n => .branch true :: n.visits

end

end Stencil
