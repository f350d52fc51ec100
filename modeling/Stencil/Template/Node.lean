import Stencil.Dict
import Stencil.Template.Attribute

/-!
# Template trees

The tree that a component is lowered to, that the optimizer simplifies and that the engines print. A
fragment is a group of siblings in a place for one node, such as a branch of a condition. A mixin is
the body of a component with its signature.
-/

namespace Stencil

/-- A prop that a component declares. -/
structure PropDef where
  name : String
  required : Bool
deriving DecidableEq, Repr

/-- The name of a component, the props it declares, and the constants its body can see. -/
structure Signature where
  name : String
  props : List PropDef := []
  constants : Dict String := Dict.empty
deriving DecidableEq

/-- What an iteration runs over, and what it binds for each round. -/
structure Loop where
  iterable : Code
  item : String
  index : Option String := none
  array : Option String := none
deriving DecidableEq, Repr

/-- What a loop binds: the item, then the index and the array if they are named. -/
def Loop.bindings (l : Loop) : List String :=
  l.item :: (l.index.toList ++ l.array.toList)

/-- A node of a template tree. -/
inductive Node where
  | root (children : List Node)
  | fragment (children : List Node)
  | element (tag : String) (attributes : List Attribute) (children : List Node)
  | text (value : String)
  | interpolation (code : Code)
  | condition (test : Code) (consequent alternate : Option Node)
  | iteration (loop : Loop) (body : List Node)
  | mixin (signature : Signature) (children : List Node)

namespace Node

/-- The nodes directly below a node, the branches of a condition aside. -/
def children : Node → List Node
  | .root cs | .fragment cs | .element _ _ cs | .iteration _ cs | .mixin _ cs => cs
  | .text _ | .interpolation _ | .condition _ _ _ => []

/-- Adds a child at the end. A condition takes its consequent first and its alternate second; a full
condition, a text and an interpolation stay as they are. -/
def append (node child : Node) : Node :=
  match node with
  | .root cs => .root (cs ++ [child])
  | .fragment cs => .fragment (cs ++ [child])
  | .element tag attributes cs => .element tag attributes (cs ++ [child])
  | .iteration loop body => .iteration loop (body ++ [child])
  | .mixin signature cs => .mixin signature (cs ++ [child])
  -- The first child of a condition is its first branch, the second one the other. There is no place
  -- for more.
  | .condition test none alternate => .condition test (some child) alternate
  | .condition test (some c) none => .condition test (some c) (some child)
  | .condition test (some c) (some a) => .condition test (some c) (some a)
  | .text value => .text value
  | .interpolation code => .interpolation code

/-- Adds an attribute at the end; only elements have attributes. -/
def addAttribute (node : Node) (a : Attribute) : Node :=
  match node with
  | .element tag attributes cs => .element tag (attributes ++ [a]) cs
  | other => other

/-- The siblings as the content of a place for one node: none, the only one, or a fragment. -/
def slotOf : List Node → Option Node
  | [] => none
  | [only] => some only
  | several => some (.fragment several)

/-- The node as the content of a place for one node: a fragment gives up its bracket where it
can. -/
def toSlot : Node → Option Node
  | .fragment cs => slotOf cs
  | other => some other

@[simp] theorem toSlot_fragment (cs : List Node) : (fragment cs).toSlot = slotOf cs := rfl

/-! ### Equality -/

mutual

/-- Two nodes are equal. -/
def beq : Node → Node → Bool
  | .root as, .root bs => beqList as bs
  | .fragment as, .fragment bs => beqList as bs
  | .element t as xs, .element u bs ys => t == u && as == bs && beqList xs ys
  | .text a, .text b => a == b
  | .interpolation a, .interpolation b => a == b
  | .condition t a b, .condition u c d => t == u && beqOption a c && beqOption b d
  | .iteration l as, .iteration m bs => l == m && beqList as bs
  | .mixin s as, .mixin t bs => s == t && beqList as bs
  | _, _ => false

def beqList : List Node → List Node → Bool
  | [], [] => true
  | a :: as, b :: bs => beq a b && beqList as bs
  | _, _ => false

def beqOption : Option Node → Option Node → Bool
  | none, none => true
  | some a, some b => beq a b
  | _, _ => false

end

instance : BEq Node := ⟨beq⟩

/-! ### Tags -/

mutual

/-- The tags of all the elements in a tree. -/
def tags : Node → List String
  | .root cs | .fragment cs | .iteration _ cs | .mixin _ cs => tagsOfList cs
  | .element tag _ cs => tag :: tagsOfList cs
  | .text _ | .interpolation _ => []
  | .condition _ consequent alternate => tagsOfOption consequent ++ tagsOfOption alternate

def tagsOfList : List Node → List String
  | [] => []
  | n :: rest => n.tags ++ tagsOfList rest

def tagsOfOption : Option Node → List String
  | none => []
  | some n => n.tags

end

end Node

end Stencil
