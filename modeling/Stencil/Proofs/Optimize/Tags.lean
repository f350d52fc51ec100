import Stencil.Optimize.Required

/-!
# The elements that optimizing leaves

The passes drop the branches that are never taken and change attributes, but they make no element:
the tags of an optimized tree are among those of the tree it was made of, in the same order
(`tags_optimize`).
-/

namespace Stencil

open Node (tags tagsOfList tagsOfOption)

/-- The tags of nodes side by side stand side by side. -/
theorem Node.tagsOfList_append (as bs : List Node) :
    tagsOfList (as ++ bs) = tagsOfList as ++ tagsOfList bs := by
  induction as with
  | nil => rfl
  | cons n as ih => rw [List.cons_append, tagsOfList, tagsOfList, ih, List.append_assoc]

/-- A single node has its own tags. -/
theorem Node.tagsOfList_singleton (n : Node) : tagsOfList [n] = n.tags := by
  rw [tagsOfList, tagsOfList, List.append_nil]

/-- Nodes that are put into one place keep their tags. -/
theorem Node.tagsOfOption_slotOf (ns : List Node) : tagsOfOption (slotOf ns) = tagsOfList ns := by
  match ns with
  | [] => rfl
  | [n] => exact (tagsOfList_singleton n).symm
  | _ :: _ :: _ => rfl

/-! One theorem for each function of the pass, by recursion on the tree. -/

mutual

/-- Simplifying leaves some of the tags, in order. -/
theorem tags_simplify (scope : Scope) : ∀ n : Node, (n.simplify scope).tags.Sublist n.tags
  | .root cs => tags_simplifyChildren scope cs
  | .fragment cs => tags_simplifyChildren scope cs
  | .element tag _ cs => (tags_simplifyChildren scope cs).cons_cons tag
  | .text _ => .slnil
  | .interpolation _ => .slnil
  | .condition _ consequent alternate =>
    (tags_simplifyBranch scope consequent).append (tags_simplifyBranch scope alternate)
  | .iteration loop body => tags_simplifyChildren (loop.scopeInside scope) body
  | .mixin signature cs => tags_simplifyChildren signature.constants cs
termination_by n => (sizeOf n, 0)

theorem tags_simplifyChildren (scope : Scope) :
    ∀ cs : List Node, (tagsOfList (simplifyChildren scope cs)).Sublist (tagsOfList cs)
  | [] => .slnil
  | n :: rest => by
    rw [simplifyChildren, Node.tagsOfList_append, tagsOfList]
    exact (tags_simplifyAmong scope n).append (tags_simplifyChildren scope rest)
termination_by cs => (sizeOf cs, 0)

/-- The same of the nodes that are put in place of one node. -/
theorem tags_simplifyAmong (scope : Scope) (n : Node) :
    (tagsOfList (n.simplifyAmong scope)).Sublist n.tags := by
  rcases n.kept_cases with hkept | ⟨code, rfl⟩ | ⟨test, consequent, alternate, rfl⟩
  · rw [simplifyAmong_of_kept scope hkept, Node.tagsOfList_singleton]
    exact tags_simplify scope n
  · rw [Node.simplifyAmong]
    split
    · exact .slnil
    · exact .slnil
  · rw [Node.simplifyAmong, tags]
    -- The branch that is not taken is dropped with its elements.
    split
    · exact (tags_simplifyTaken scope consequent).trans (List.sublist_append_left _ _)
    · exact (tags_simplifyTaken scope alternate).trans (List.sublist_append_right _ _)
    · rw [Node.tagsOfList_singleton, tags]
      exact (tags_simplifyBranch scope consequent).append (tags_simplifyBranch scope alternate)
termination_by (sizeOf n, 1)

theorem tags_simplifyTaken (scope : Scope) :
    ∀ b : Option Node, (tagsOfList (simplifyTaken scope b)).Sublist (tagsOfOption b)
  | none => .slnil
  | some n => by
    rcases simplifyTaken_cases scope n with ⟨cs, rfl⟩ | htaken
    · exact tags_simplifyChildren scope cs
    · rw [htaken]
      exact tags_simplifyAmong scope n
termination_by b => (sizeOf b, 2)

theorem tags_simplifyBranch (scope : Scope) :
    ∀ b : Option Node, (tagsOfOption (simplifyBranch scope b)).Sublist (tagsOfOption b)
  | none => .slnil
  | some n => tags_simplifySlot scope n
termination_by b => (sizeOf b, 2)

/-- The same of what is left of a node that stands alone in its place. -/
theorem tags_simplifySlot (scope : Scope) (n : Node) :
    (tagsOfOption (n.simplifySlot scope)).Sublist n.tags := by
  -- A condition keeps the elements of both branches, or of the one that is taken.
  rcases n.kept_cases with hkept | ⟨code, rfl⟩ | ⟨test, consequent, alternate, rfl⟩
  · rw [simplifySlot_of_kept scope hkept]
    exact tags_simplify scope n
  · rw [Node.simplifySlot]
    split
    · exact .slnil
    · exact .slnil
  · rw [Node.simplifySlot, tags]
    split
    · exact (tags_simplifyBranch scope consequent).trans (List.sublist_append_left _ _)
    · exact (tags_simplifyBranch scope alternate).trans (List.sublist_append_right _ _)
    · exact (tags_simplifyBranch scope consequent).append (tags_simplifyBranch scope alternate)
termination_by (sizeOf n, 1)

end

/-! Marking attributes leaves the elements as they are. -/

mutual

/-- Marking attributes leaves the tags. -/
theorem tags_markRequiredIn (required : Option (List String)) :
    ∀ n : Node, (n.markRequiredIn required).tags = n.tags
  | .root cs => tags_markRequiredAll required cs
  | .fragment cs => tags_markRequiredAll required cs
  | .element tag _ cs => congrArg (tag :: ·) (tags_markRequiredAll required cs)
  | .text _ => rfl
  | .interpolation _ => rfl
  | .condition _ consequent alternate => by
    rw [Node.markRequiredIn, tags, tags, tags_markRequiredBranch required consequent,
      tags_markRequiredBranch required alternate]
  | .iteration _ body => tags_markRequiredAll required body
  -- The required names change here, but not the tags.
  | .mixin signature cs => tags_markRequiredAll (some signature.requiredNames) cs

theorem tags_markRequiredAll (required : Option (List String)) :
    ∀ cs : List Node, tagsOfList (markRequiredAll required cs) = tagsOfList cs
  | [] => rfl
  | n :: rest => by
    rw [markRequiredAll, tagsOfList, tagsOfList, tags_markRequiredIn required n,
      tags_markRequiredAll required rest]

theorem tags_markRequiredBranch (required : Option (List String)) :
    ∀ b : Option Node, tagsOfOption (markRequiredBranch required b) = tagsOfOption b
  | none => rfl
  | some n => tags_markRequiredIn required n

end

/-- The elements of an optimized tree are elements that it had. -/
theorem Node.tags_optimize (n : Node) : n.optimize.tags.Sublist n.tags := by
  rw [Node.optimize, Node.markRequired, tags_markRequiredIn]
  exact tags_simplify Dict.empty n

/-- The elements of an optimized component are elements that it had. -/
theorem tags_optimize (c : Component) :
    (tagsOfList c.optimize.body).Sublist (tagsOfList c.body) := by
  rw [Component.optimize, tags_markRequiredAll]
  exact tags_simplifyChildren c.signature.constants c.body

end Stencil
