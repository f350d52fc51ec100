import Stencil.Proofs.Lower.Built
import Stencil.Proofs.Optimize.Shape

/-!
# The shape of lowered trees

Lowering puts siblings in a branch of a condition and nowhere else under one node, and it makes a
fragment only of two siblings or more. Markup that only groups its children hands them on, so no
fragment gets among siblings (`builds_siblings`, for each way in which lowering builds trees). Roots
and mixins are made once, for the tree of the default component.

The main theorem is `shaped_lowered`: a lowered source has this shape, and it keeps the shape under
any number of runs of the passes, up to the number of children in a fragment.
-/

namespace Stencil

namespace Lower

variable {least : Nat}

/-- Nodes that may stand among siblings. -/
def Siblings (least : Nat) (ns : List Node) : Prop :=
  ∀ n ∈ ns, n.Shaped least .child

/-- A shaped node is a sibling by itself. -/
theorem siblings_singleton {n : Node} (h : n.Shaped least .child) : Siblings least [n] :=
  List.forall_mem_singleton.2 h

/-- Lowering makes fragments of two children or more, in the branches of conditions. -/
theorem builds_siblings {Q : String → Prop} (hleast : least ≤ 2) :
    BuildsNodes Q (Siblings least) where
  nil := nofun
  append has hbs := List.forall_mem_append.2 ⟨has, hbs⟩
  text _ := siblings_singleton trivial
  interpolation _ := siblings_singleton trivial
  element _ _ _ hcs := siblings_singleton (allShaped_iff.2 hcs)
  condition _ _ _ has hbs := siblings_singleton
    ⟨branchShaped_slotOf hleast (allShaped_iff.2 has),
      branchShaped_slotOf hleast (allShaped_iff.2 hbs)⟩
  iteration _ _ hbody := siblings_singleton (allShaped_iff.2 hbody)

end Lower

/-! ### Sources -/

/-- Every lowered body has the shape of children. -/
theorem allShaped_body {file : Option Path} {source : String} {l : Lowered}
    (h : Lowered.ofSource file source = .ok l) {least : Nat} (hleast : least ≤ 2) {c : Component}
    (hc : c ∈ l.table.components.values) : AllShaped least .child c.body :=
  allShaped_iff.2 (built_body (Lower.builds_siblings hleast) h hc)

/-- Every lowered tree has the shape of a whole. -/
theorem shaped_tree {file : Option Path} {source : String} {l : Lowered}
    (h : Lowered.ofSource file source = .ok l) {least : Nat} (hleast : least ≤ 2) :
    l.tree.Shaped least .top := by
  obtain ⟨c, hdefault, htree⟩ := mirrors_ofSource h
  have hbody : AllShaped least .child c.body :=
    allShaped_body h hleast (List.mem_of_find?_eq_some hdefault)
  have hnode : c.node.Shaped least .underRoot := ⟨rfl, hbody⟩
  rw [htree]
  exact ⟨rfl, hnode, trivial⟩

/-- Optimizing keeps it, however often. -/
theorem shaped_iterate {n : Node} {place : Position} (h : n.Shaped 0 place) (runs : Nat) :
    (Node.optimize^[runs] n).Shaped 0 place := by
  induction runs with
  | zero => exact h
  | succ runs ih =>
    rw [Function.iterate_succ_apply']
    exact shaped_optimize ih

theorem allShaped_iterate {c : Component} {place : Position} (h : AllShaped 0 place c.body)
    (runs : Nat) : AllShaped 0 place (Component.optimize^[runs] c).body := by
  induction runs with
  | zero => exact h
  | succ runs ih =>
    rw [Function.iterate_succ_apply']
    exact allShaped_optimize ih

/-- **The shape of lowered trees.** In the tree of a source and in the body of each of its
components a root stands only at the top, a mixin only right under a root, and a fragment only in a
branch of a condition, with at least two children. After any number of runs of the passes everything
still stands where it may; only the children of a fragment may have become fewer. -/
theorem shaped_lowered {file : Option Path} {source : String} {l : Lowered}
    (h : Lowered.ofSource file source = .ok l) :
    (l.tree.Shaped 2 .top ∧ ∀ c ∈ l.table.components.values, AllShaped 2 .child c.body) ∧
      ∀ runs, (Node.optimize^[runs] l.tree).Shaped 0 .top ∧
        ∀ c ∈ (Table.optimize^[runs] l.table).components.values, AllShaped 0 .child c.body := by
  refine ⟨⟨shaped_tree h (Nat.le_refl 2), fun c hc => allShaped_body h (Nat.le_refl 2) hc⟩, ?_⟩
  intro runs
  refine ⟨shaped_iterate (shaped_tree h (Nat.zero_le 2)) runs, fun c hc => ?_⟩
  -- A run of the passes keeps the weaker shape only: fragments may be left with few children.
  obtain ⟨c₀, hc₀, rfl⟩ := Table.exists_iterate_of_mem hc
  exact allShaped_iterate (allShaped_body h (Nat.zero_le 2) hc₀) runs

/-- A branch with two children, of which one run leaves one: the fragment is kept. -/
theorem shaped_lowered_branch :
    let source := "export default ({ open }) => <p>{open ? <><i />{false && <b />}</> : null}</p>;"
    let tree : Node → Node := fun branch => .root
      [.mixin ⟨"DefaultComponent", [⟨"open", false⟩], Dict.empty⟩
        [.element "p" [] [.condition ⟨"open"⟩ (some branch) none]]]
    let two : Node := .fragment
      [.element "i" [] [], .condition ⟨"false"⟩ (some (.element "b" [] [])) none]
    let one : Node := .fragment [.element "i" [] []]
    ∃ l, Lowered.ofSource none source = .ok l ∧ l.tree == tree two ∧ l.tree.optimize == tree one ∧
      l.tree.Shaped 2 .top ∧ l.tree.optimize.Shaped 0 .top := by
  intro source tree two one
  have hrun : (Lowered.ofSource none source).toOption.any (fun l =>
      l.tree == tree two && l.tree.optimize == tree one) = true := by
    decide +kernel
  obtain ⟨l, hl, hrun⟩ := exists_ok_of_any hrun
  obtain ⟨hlowered, hoptimized⟩ := Bool.and_eq_true_iff.1 hrun
  obtain ⟨⟨htree, -⟩, hruns⟩ := shaped_lowered hl
  exact ⟨l, hl, hlowered, hoptimized, htree, (hruns 1).1⟩

end Stencil
