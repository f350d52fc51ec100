import Stencil.Optimize.Required

/-!
# The shape of a tree

A root stands only at the top of a tree, a mixin only right under a root, and a fragment only in a
branch of a condition. `Node.Shaped` says so by the place that each node stands in, and also asks a
number of children of every fragment.

Simplifying moves nodes: a condition of known truth gives way to the branch it takes. A fragment may
not stand among siblings, so it is opened there; every other node of a branch may be a child
(`Node.Shaped.child_of_branch`), and a child may stand anywhere (`Node.Shaped.anywhere`). So the
passes keep the shape (`shaped_optimize`, `allShaped_optimize`), but they may leave any number of
children in a fragment.
-/

namespace Stencil

/-- Where a node stands. -/
inductive Position where
  | top
  | underRoot
  | child
  | branch
deriving DecidableEq

mutual

/-- Everything in a tree stands where it may, and fragments have at least `least` children. -/
def Node.Shaped (least : Nat) (place : Position) : Node → Prop
  | .root cs => place = .top ∧ AllShaped least .underRoot cs
  | .mixin _ cs => place = .underRoot ∧ AllShaped least .child cs
  | .fragment cs => place = .branch ∧ least ≤ cs.length ∧ AllShaped least .child cs
  | .element _ _ cs => AllShaped least .child cs
  | .iteration _ body => AllShaped least .child body
  | .condition _ consequent alternate =>
    BranchShaped least consequent ∧ BranchShaped least alternate
  | .text _ | .interpolation _ => True

/-- Siblings in a place. -/
def AllShaped (least : Nat) (place : Position) : List Node → Prop
  | [] => True
  | n :: rest => n.Shaped least place ∧ AllShaped least place rest

/-- A branch of a condition. -/
def BranchShaped (least : Nat) : Option Node → Prop
  | none => True
  | some n => n.Shaped least .branch

end

section

variable {least : Nat} {place : Position}

/-- Nodes are shaped if each of them is. -/
theorem allShaped_iff {ns : List Node} :
    AllShaped least place ns ↔ ∀ n ∈ ns, n.Shaped least place := by
  induction ns with
  | nil => exact iff_of_true trivial nofun
  | cons n ns ih => rw [AllShaped, ih, List.forall_mem_cons]

/-- A single node among nodes. -/
theorem allShaped_singleton {n : Node} :
    AllShaped least place [n] ↔ n.Shaped least place := by
  rw [allShaped_iff, List.forall_mem_singleton]

/-- Shaped nodes side by side are shaped. -/
theorem allShaped_append {as bs : List Node} (has : AllShaped least place as)
    (hbs : AllShaped least place bs) : AllShaped least place (as ++ bs) := by
  rw [allShaped_iff] at has hbs ⊢
  exact List.forall_mem_append.2 ⟨has, hbs⟩

/-- A child is no root, no mixin and no fragment, so it may stand anywhere. -/
theorem Node.Shaped.anywhere {n : Node} (h : n.Shaped least .child) (place : Position) :
    n.Shaped least place := by
  cases n with
  | root cs => cases h.1
  | mixin signature cs => cases h.1
  | fragment cs => cases h.1
  | _ => exact h

/-- What may stand among children may stand anywhere. -/
theorem AllShaped.anywhere {ns : List Node} (h : AllShaped least .child ns) (place : Position) :
    AllShaped least place ns := by
  rw [allShaped_iff] at h ⊢
  intro n hn
  exact (h n hn).anywhere place

/-- Only a fragment has to stay in a branch. -/
theorem Node.Shaped.child_of_branch {n : Node} (h : n.Shaped least .branch)
    (hfragment : ∀ cs, n ≠ .fragment cs) : n.Shaped least .child := by
  cases n with
  | root cs => cases h.1
  | mixin signature cs => cases h.1
  | fragment cs => exact absurd rfl (hfragment cs)
  | _ => exact h

/-- Siblings in a place for one node: they are put in a fragment only if there are two of them. -/
theorem branchShaped_slotOf (hleast : least ≤ 2) {ns : List Node} (h : AllShaped least .child ns) :
    BranchShaped least (Node.slotOf ns) := by
  match ns, h with
  | [], _ => trivial
  | [n], h => exact h.1.anywhere .branch
  | a :: b :: rest, h =>
    have hlength : least ≤ (a :: b :: rest).length :=
      Nat.le_trans hleast (Nat.le_add_left 2 rest.length)
    exact ⟨rfl, hlength, h⟩

end

/-! ### Simplifying

One theorem for each function of the pass, by recursion on the tree. -/

mutual

/-- A simplified node keeps the shape for its place. -/
theorem shaped_simplify (scope : Scope) {place : Position} :
    ∀ n : Node, n.Shaped 0 place → (n.simplify scope).Shaped 0 place
  | .root cs, h => ⟨h.1, allShaped_simplifyChildren scope cs h.2⟩
  -- Nothing is asked of the number of children that are left.
  | .fragment cs, h => ⟨h.1, Nat.zero_le _, allShaped_simplifyChildren scope cs h.2.2⟩
  | .element _ _ cs, h => allShaped_simplifyChildren scope cs h
  | .text _, _ => trivial
  | .interpolation _, _ => trivial
  | .condition _ consequent alternate, h =>
    ⟨branchShaped_simplifyBranch scope consequent h.1,
      branchShaped_simplifyBranch scope alternate h.2⟩
  | .iteration loop body, h => allShaped_simplifyChildren (loop.scopeInside scope) body h
  | .mixin signature cs, h => ⟨h.1, allShaped_simplifyChildren signature.constants cs h.2⟩
termination_by n => (sizeOf n, 0)

theorem allShaped_simplifyChildren (scope : Scope) {place : Position} :
    ∀ cs : List Node, AllShaped 0 place cs → AllShaped 0 place (simplifyChildren scope cs)
  | [], _ => trivial
  | n :: rest, h => by
    rw [simplifyChildren]
    exact allShaped_append (allShaped_simplifyAmong scope n h.1)
      (allShaped_simplifyChildren scope rest h.2)
termination_by cs => (sizeOf cs, 0)

/-- So do the nodes that are put in place of one node. -/
theorem allShaped_simplifyAmong (scope : Scope) {place : Position} (n : Node)
    (h : n.Shaped 0 place) : AllShaped 0 place (n.simplifyAmong scope) := by
  rcases n.kept_cases with hkept | ⟨code, rfl⟩ | ⟨test, consequent, alternate, rfl⟩
  · rw [simplifyAmong_of_kept scope hkept, allShaped_singleton]
    exact shaped_simplify scope n h
  · rw [Node.simplifyAmong]
    split
    · exact ⟨trivial, trivial⟩
    · exact ⟨trivial, trivial⟩
  · rw [Node.simplifyAmong]
    -- The branch that is taken comes as children, which may stand where the condition did.
    split
    · exact (allShaped_simplifyTaken scope consequent h.1).anywhere place
    · exact (allShaped_simplifyTaken scope alternate h.2).anywhere place
    · rw [allShaped_singleton]
      exact ⟨branchShaped_simplifyBranch scope consequent h.1,
        branchShaped_simplifyBranch scope alternate h.2⟩
termination_by (sizeOf n, 1)

/-- The nodes of a branch that is taken have the shape of children. -/
theorem allShaped_simplifyTaken (scope : Scope) :
    ∀ b : Option Node, BranchShaped 0 b → AllShaped 0 .child (simplifyTaken scope b)
  | none, _ => trivial
  | some n, h => by
    -- A fragment gives its children to the place of the branch.
    by_cases hfragment : ∃ cs, n = .fragment cs
    · obtain ⟨cs, rfl⟩ := hfragment
      exact allShaped_simplifyChildren scope cs h.2.2
    · have hchild : n.Shaped 0 .child :=
        h.child_of_branch fun cs hcs => hfragment ⟨cs, hcs⟩
      rw [(simplifyTaken_cases scope n).resolve_left hfragment]
      exact allShaped_simplifyAmong scope n hchild
termination_by b => (sizeOf b, 2)

/-- A branch that is kept keeps its shape. -/
theorem branchShaped_simplifyBranch (scope : Scope) :
    ∀ b : Option Node, BranchShaped 0 b → BranchShaped 0 (simplifyBranch scope b)
  | none, _ => trivial
  | some n, h => branchShaped_simplifySlot scope n h
termination_by b => (sizeOf b, 2)

/-- So does what is left of a node that stands alone in its place. -/
theorem branchShaped_simplifySlot (scope : Scope) (n : Node) (h : n.Shaped 0 .branch) :
    BranchShaped 0 (n.simplifySlot scope) := by
  -- A branch is replaced by what is simplified in it, or keeps its condition.
  rcases n.kept_cases with hkept | ⟨code, rfl⟩ | ⟨test, consequent, alternate, rfl⟩
  · rw [simplifySlot_of_kept scope hkept]
    exact shaped_simplify scope n h
  · rw [Node.simplifySlot]
    split
    · trivial
    · trivial
  · rw [Node.simplifySlot]
    split
    · exact branchShaped_simplifyBranch scope consequent h.1
    · exact branchShaped_simplifyBranch scope alternate h.2
    · exact ⟨branchShaped_simplifyBranch scope consequent h.1,
        branchShaped_simplifyBranch scope alternate h.2⟩
termination_by (sizeOf n, 1)

end

/-! ### Marking -/

mutual

/-- Marks do not matter to the shape. -/
theorem shaped_markRequiredIn {place : Position} (required : Option (List String)) :
    ∀ n : Node, n.Shaped 0 place → (n.markRequiredIn required).Shaped 0 place
  | .root cs, h => ⟨h.1, allShaped_markRequiredAll required cs h.2⟩
  | .fragment cs, h => ⟨h.1, Nat.zero_le _, allShaped_markRequiredAll required cs h.2.2⟩
  | .element _ _ cs, h => allShaped_markRequiredAll required cs h
  | .text _, _ => trivial
  | .interpolation _, _ => trivial
  | .condition _ consequent alternate, h =>
    ⟨branchShaped_markRequiredBranch required consequent h.1,
      branchShaped_markRequiredBranch required alternate h.2⟩
  | .iteration _ body, h => allShaped_markRequiredAll required body h
  -- The required names change here, but not the shape.
  | .mixin signature cs, h =>
    ⟨h.1, allShaped_markRequiredAll (some signature.requiredNames) cs h.2⟩

theorem allShaped_markRequiredAll {place : Position} (required : Option (List String)) :
    ∀ cs : List Node, AllShaped 0 place cs → AllShaped 0 place (markRequiredAll required cs)
  | [], _ => trivial
  | n :: rest, h =>
    ⟨shaped_markRequiredIn required n h.1, allShaped_markRequiredAll required rest h.2⟩

theorem branchShaped_markRequiredBranch (required : Option (List String)) :
    ∀ b : Option Node, BranchShaped 0 b → BranchShaped 0 (markRequiredBranch required b)
  | none, _ => trivial
  | some n, h => shaped_markRequiredIn required n h

end

/-! ### All the passes -/

/-- An optimized tree keeps the shape for its place. -/
theorem shaped_optimize {n : Node} {place : Position} (h : n.Shaped 0 place) :
    n.optimize.Shaped 0 place := by
  have hsimplify : (n.simplify Dict.empty).Shaped 0 place := shaped_simplify Dict.empty n h
  exact shaped_markRequiredIn none _ hsimplify

theorem allShaped_optimize {c : Component} {place : Position} (h : AllShaped 0 place c.body) :
    AllShaped 0 place c.optimize.body := by
  have hsimplify : AllShaped 0 place (simplifyChildren c.signature.constants c.body) :=
    allShaped_simplifyChildren c.signature.constants c.body h
  exact allShaped_markRequiredAll (some c.signature.requiredNames) _ hsimplify

end Stencil
