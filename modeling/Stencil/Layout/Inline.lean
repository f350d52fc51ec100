import Stencil.Layout.Piece
import Stencil.Template.Table

/-!
# Inlining components

A tree is laid out by putting the body of a component in the place of each element that names it,
and the children of that element in the place of each `children` slot of the body. The children were
written outside the component, so they are laid out with the slots of the call around them.

A component whose inlining is going on already, by tag, is not inlined again: its element stays as
it is. Every inlining therefore uses up a tag, and the number of tags bounds how deep they nest.
-/

namespace Stencil

/-- The code stands for the children of the call. -/
def isChildrenSlot (code : Code) : Bool :=
  let text := Text.trim code.text
  text == "children" || text == "props.children"

/-- What surrounds a node while it is laid out. -/
structure Surroundings where
  table : Table
  /-- The tags of the calls around the node, the innermost first. -/
  stack : List String
  /-- The pieces of the body of a component, inlined for a call with this tag and these children. -/
  inline : String → List Node → Component → List Piece
  /-- The pieces of the children of the innermost call. -/
  slot : Option (Unit → List Piece)

mutual

/-- The pieces of a node. -/
def Node.pieces (s : Surroundings) : Node → List Piece
  | .root cs | .fragment cs | .mixin _ cs => piecesOfList s cs
  | .element tag attributes cs =>
    match s.table.resolve? tag with
    | none => [.element ⟨tag, attributes, cs.isEmpty, false⟩ (piecesOfList s cs)]
    | some c =>
      -- A component that is being inlined is not entered again.
      if s.stack.contains tag then
        [.element ⟨tag, attributes, cs.isEmpty, true⟩ (piecesOfList s cs)]
      else [.scope (c.signature.bind attributes) (s.inline tag cs c)]
  -- An empty text gives no line.
  | .text value => if value.isEmpty then [] else [.text value]
  | .interpolation code =>
    -- The slot is filled by the children of the call that is being inlined; outside of any call it
    -- is code like any other.
    match isChildrenSlot code, s.slot with
    | true, some slot => slot ()
    | _, _ => [.interpolation code]
  | .condition test consequent alternate =>
    [.condition test (piecesOfBranch s consequent) (piecesOfBranch s alternate)]
  | .iteration loop body => [.iteration loop (piecesOfList s body)]

/-- The pieces of siblings. -/
def piecesOfList (s : Surroundings) : List Node → List Piece
  | [] => []
  | n :: rest => n.pieces s ++ piecesOfList s rest

/-- The pieces of a branch of a condition. -/
def piecesOfBranch (s : Surroundings) : Option Node → Option (List Piece)
  | none => none
  | some n => some (n.pieces s)

end

/-- The pieces of nodes inside calls with the given children, the innermost call first, where
`inline` lays out the body of a component inside calls. -/
def piecesInSlots (table : Table) (stack : List String)
    (inline : List (List Node) → String → List Node → Component → List Piece) :
    List (List Node) → List Node → List Piece
  | [], nodes => piecesOfList ⟨table, stack, inline [], none⟩ nodes
  | slot :: outer, nodes =>
    piecesOfList
      ⟨table, stack, inline (slot :: outer),
        some fun _ => piecesInSlots table stack inline outer slot⟩
      nodes

/-- The pieces of nodes inside calls with the given tags and children, with `depth` more calls
inside each other at most. -/
def piecesInCalls (table : Table) :
    Nat → List String → List (List Node) → List Node → List Piece
  | 0, stack, slots, nodes => piecesInSlots table stack (fun _ _ _ _ => []) slots nodes
  | depth + 1, stack, slots, nodes =>
    piecesInSlots table stack
      (fun slots tag children c =>
        piecesInCalls table depth (tag :: stack) (children :: slots) c.body)
      slots nodes

/-- The tags of all the elements in a table. -/
def Table.tags (t : Table) : List String :=
  t.components.values.flatMap fun c => Node.tagsOfList c.body

/-- How deep calls can nest: no tag is inlined inside itself. -/
def inliningDepth (n : Node) (t : Table) : Nat :=
  (n.tags ++ t.tags).eraseDups.length

/-- The pieces of a tree with all its components inlined. -/
def Node.layout (n : Node) (t : Table) : List Piece :=
  piecesInCalls t (inliningDepth n t) [] [] [n]

end Stencil
