import Stencil.Proofs.Layout.Inlining

/-!
# Slots by copying

A layout keeps the children of the calls that are going on, and takes them for the slots as it
comes to them. The rule behind it needs no such memory: what stands in the body of a component is
what one gets by writing the children of the call into the slots of that body. The children may
hold slots themselves; those belong to the call around, and are filled before.

* `fillAll` — siblings with children written into their slots;
* `copied` — siblings with the slots filled from the calls around them;
* `lays_copied` — siblings within calls come to the same pieces as their copies outside of any.

A call inside the siblings brings its own children, and those are copied with the rest. So the
proof goes by induction on the number of calls that can still nest, and for each number by
induction on the calls that are going on.
-/

namespace Stencil

/-! ### Copies -/

mutual

/-- A node with the children in the place of each of its slots. -/
def Node.fill (children : List Node) : Node → Node
  | .root cs => .root (fillAll children cs)
  | .fragment cs => .fragment (fillAll children cs)
  | .element tag attributes cs => .element tag attributes (fillAll children cs)
  | .text value => .text value
  | .interpolation code =>
    if isChildrenSlot code then .fragment children else .interpolation code
  | .condition test yes no =>
    .condition test (fillBranch children yes) (fillBranch children no)
  | .iteration loop body => .iteration loop (fillAll children body)
  | .mixin signature cs => .mixin signature (fillAll children cs)

/-- Siblings with the children in the place of each of their slots. -/
def fillAll (children : List Node) : List Node → List Node
  | [] => []
  | n :: ns => n.fill children :: fillAll children ns

/-- A branch of a condition with the children in the place of each of its slots. -/
def fillBranch (children : List Node) : Option Node → Option Node
  | none => none
  | some n => some (n.fill children)

end

/-- Siblings with their slots filled, within calls with these children, the innermost first: the
children of a call are filled from the calls around it. -/
def copied : List (List Node) → List Node → List Node
  | [], ns => ns
  | slot :: outer, ns => fillAll (copied outer slot) ns

/-- Filling keeps the number of nodes, so it leaves none only where there were none. -/
theorem isEmpty_fillAll (children ns : List Node) : (fillAll children ns).isEmpty = ns.isEmpty := by
  cases ns <;> rfl

/-! ### The pieces of a copy -/

section

variable {s s' : Surroundings} {children : List Node}

/-- `s'` is `s` without the slot, for siblings that have the children of the slot written into
them. -/
structure Filled (children : List Node) (s s' : Surroundings) : Prop where
  table : s'.table = s.table
  stack : s'.stack = s.stack
  slot : ∃ content, s.slot = some content ∧ piecesOfList s' children = content ()
  inline : ∀ tag cs c, s'.inline tag (fillAll children cs) c = s.inline tag cs c

mutual

/-- A filled node has the pieces that the node has with the slot open. -/
theorem pieces_fill (h : Filled children s s') : ∀ n : Node,
    (n.fill children).pieces s' = n.pieces s
  | .root cs | .fragment cs | .mixin _ cs => by
    rw [Node.fill, Node.pieces, Node.pieces, piecesOfList_fillAll h cs]
  | .element tag attributes cs => by
    rw [Node.fill, Node.pieces, Node.pieces, h.table, h.stack, isEmpty_fillAll,
      piecesOfList_fillAll h cs]
    -- An inlined call hands its children on with the slots in them filled, which `h.inline`
    -- accounts for.
    cases s.table.resolve? tag with
    | none => rfl
    | some c => simp only [h.inline]
  | .text _ => by rw [Node.fill, Node.pieces, Node.pieces]
  | .interpolation code => by
    obtain ⟨content, hslot, hcontent⟩ := h.slot
    rw [Node.fill]
    cases hcode : isChildrenSlot code with
    -- The slot is replaced by a fragment of the children, which is laid out as the content of the
    -- slot.
    | true =>
      rw [if_pos rfl, Node.pieces, Node.pieces, hcode, hslot]
      exact hcontent
    | false =>
      rw [if_neg Bool.false_ne_true, Node.pieces, Node.pieces, hcode]
  | .condition test yes no => by
    rw [Node.fill, Node.pieces, Node.pieces, piecesOfBranch_fillBranch h yes,
      piecesOfBranch_fillBranch h no]
  | .iteration loop body => by
    rw [Node.fill, Node.pieces, Node.pieces, piecesOfList_fillAll h body]

theorem piecesOfList_fillAll (h : Filled children s s') : ∀ ns : List Node,
    piecesOfList s' (fillAll children ns) = piecesOfList s ns
  | [] => by rw [fillAll, piecesOfList, piecesOfList]
  | n :: ns => by
    rw [fillAll, piecesOfList, piecesOfList, pieces_fill h n, piecesOfList_fillAll h ns]

theorem piecesOfBranch_fillBranch (h : Filled children s s') : ∀ b : Option Node,
    piecesOfBranch s' (fillBranch children b) = piecesOfBranch s b
  | none => by rw [fillBranch, piecesOfBranch, piecesOfBranch]
  | some n => by rw [fillBranch, piecesOfBranch, piecesOfBranch, pieces_fill h n]

end

end

/-- **Siblings within calls have the pieces of their copies outside of any**, up to every depth. -/
theorem piecesInCalls_copied (t : Table) (depth : Nat) (stack : List String)
    (slots : List (List Node)) (ns : List Node) :
    piecesInCalls t depth stack [] (copied slots ns) = piecesInCalls t depth stack slots ns := by
  induction depth generalizing stack slots ns with
  | zero =>
    induction slots generalizing ns with
    | nil => rfl
    | cons slot outer ih =>
      have hfilled : Filled (copied outer slot) (Site.surroundings t 0 stack (slot :: outer))
          (Site.surroundings t 0 stack []) :=
        { table := rfl
          stack := rfl
          slot := ⟨_, rfl, (piecesInCalls_eq ..).symm.trans (ih slot)⟩
          inline := fun _ _ _ => rfl }
      rw [piecesInCalls_eq, piecesInCalls_eq, copied, piecesOfList_fillAll hfilled]
  | succ depth ihdepth =>
    induction slots generalizing ns with
    | nil => rfl
    | cons slot outer ih =>
      have hinline (tag : String) (cs body : List Node) :
          piecesInCalls t depth (tag :: stack) [fillAll (copied outer slot) cs] body
            = piecesInCalls t depth (tag :: stack) (cs :: slot :: outer) body :=
        -- Both are the copy of the body that has the copied children of the call in its slots.
        (ihdepth (tag :: stack) [fillAll (copied outer slot) cs] body).symm.trans
          (ihdepth (tag :: stack) (cs :: slot :: outer) body)
      have hfilled : Filled (copied outer slot)
          (Site.surroundings t (depth + 1) stack (slot :: outer))
          (Site.surroundings t (depth + 1) stack []) :=
        { table := rfl
          stack := rfl
          slot := ⟨_, rfl, (piecesInCalls_eq ..).symm.trans (ih slot)⟩
          inline := fun tag cs c => hinline tag cs c.body }
      rw [piecesInCalls_eq, piecesInCalls_eq, copied, piecesOfList_fillAll hfilled]

/-- **A slot stands for the children of the call whose body it is written in**: within calls,
siblings come to the pieces of their copies outside of any. -/
theorem lays_copied {t : Table} {stack : List String} {slots : List (List Node)} {ns : List Node}
    {ps : List Piece} (h : Lays t ⟨stack, slots, ns⟩ ps) :
    Lays t ⟨stack, [], copied slots ns⟩ ps := by
  obtain ⟨qs, hqs⟩ := exists_lays t ⟨stack, [], copied slots ns⟩
  have hps := piecesInCalls_of_lays h
    (Nat.le_max_left _ (Site.fresh t ⟨stack, [], copied slots ns⟩))
  have hsame := piecesInCalls_of_lays hqs (Nat.le_max_right (Site.fresh t ⟨stack, slots, ns⟩) _)
  rw [piecesInCalls_copied, hps] at hsame
  exact hsame ▸ hqs

/-- A slot in the children of the inner call belongs to the outer one. -/
example :
    copied [[.interpolation ⟨"children"⟩], [.text "x"]]
        [.element "p" [] [.interpolation ⟨"props.children"⟩]]
      = [.element "p" [] [.fragment [.fragment [.text "x"]]]] := by
  cbv

end Stencil
