import Mathlib.Logic.Function.Iterate
import Stencil.Proofs.Bundle.Linked

/-!
# The tree and the table

A lowered module holds its default component twice: as the only child of its tree, and among the
components of its table. The passes run over the two apart from each other. They judge the tree in
an empty scope and outside of every component, and the component in the scope and by the required
props of its own signature; but whatever stands below a mixin is judged by the mixin alone.

So a tree that mirrors its table (`Mirrors`) does so after every run of the passes
(`Mirrors.optimize`), and after any number of them (`Mirrors.iterate`). Lowering starts with such a
pair (`Lowered.ofSource_ok`), which gives `tree_mirrors_default`.
-/

namespace Stencil

/-! ### Lowered sources -/

/-- The body of a component is what a candidate returns, whatever is declared about its props. -/
theorem Lower.Harvest.exists_candidate_of_mem {h : Harvest} {file : Option Path} {c : Component}
    (hc : c ∈ (h.components file).values) : ∃ k ∈ h.candidates, c.body
      = (nest k.returns).nodes := by
  obtain ⟨name, c₀, hc₀, rfl⟩ := Dict.mem_values_mapValues hc
  have hbody : (withRequired h.required name c₀).body = c₀.body := by
    unfold withRequired
    split
    · rfl
    · rfl
  rw [hbody]
  -- A candidate may take the place of another one with its name, but each entry is one of them.
  rcases Dict.mem_values_foldl_insert hc₀ with hnone | ⟨e, he, rfl⟩
  · cases hnone
  · obtain ⟨marked, hmarked, rfl⟩ := List.mem_map.1 he
    obtain ⟨k, hk, rfl⟩ := List.mem_map.1 hmarked
    exact ⟨k, hk, rfl⟩

/-- The components of a table after runs of the passes, each with the one it was made of. -/
theorem Table.exists_iterate_of_mem {t : Table} {n : Nat} {c : Component}
    (hc : c ∈ (Table.optimize^[n] t).components.values) :
    ∃ c₀ ∈ t.components.values, c = Component.optimize^[n] c₀ := by
  -- Each run maps the components one by one.
  induction n generalizing c with
  | zero => exact ⟨c, hc, rfl⟩
  | succ n ih =>
    rw [Function.iterate_succ_apply'] at hc
    obtain ⟨-, c', hc', rfl⟩ := Dict.mem_values_mapValues hc
    obtain ⟨c₀, hc₀, rfl⟩ := ih hc'
    exact ⟨c₀, hc₀, (Function.iterate_succ_apply' _ n c₀).symm⟩

/-! ### Mirrors -/

/-- The tree is a root whose only child is the default component of the table. -/
def Mirrors (t : Table) (tree : Node) : Prop :=
  ∃ c, t.default? = some c ∧ tree = .root [c.node]

/-- Every component stays under its name and keeps its flag, so the default stays the default. -/
theorem Table.default?_optimize (t : Table) :
    t.optimize.default? = t.default?.map Component.optimize := by
  unfold Table.default?
  rw [values_optimize, List.find?_map]
  rfl

/-- What stands below a mixin is judged by its signature, wherever the mixin stands. -/
theorem optimize_root_node (c : Component) :
    (Node.root [c.node]).optimize = .root [c.optimize.node] := rfl

/-- Optimizing keeps the table and the tree mirrored. -/
theorem Mirrors.optimize {t : Table} {tree : Node} (h : Mirrors t tree) :
    Mirrors t.optimize tree.optimize := by
  obtain ⟨c, hc, rfl⟩ := h
  refine ⟨c.optimize, ?_, optimize_root_node c⟩
  rw [Table.default?_optimize, hc]
  rfl

/-- So it does, however often. -/
theorem Mirrors.iterate {t : Table} {tree : Node} (h : Mirrors t tree) (n : Nat) :
    Mirrors (Table.optimize^[n] t) (Node.optimize^[n] tree) := by
  induction n with
  | zero => exact h
  | succ n ih =>
    rw [Function.iterate_succ_apply', Function.iterate_succ_apply']
    exact ih.optimize

/-- A lowered source has its tree mirrored in the table. -/
theorem mirrors_ofSource {file : Option Path} {source : String} {l : Lowered}
    (h : Lowered.ofSource file source = .ok l) : Mirrors l.table l.tree := by
  obtain ⟨m, c, -, -, hc, htree⟩ := Lowered.ofSource_ok h
  exact ⟨c, hc, htree⟩

/-- **The tree and the table never diverge.** Whether a source is only lowered or optimized as well,
its tree is a root with one child, and this child is the default component of its table: with the
same signature, which holds the props, their required marks and the constants, and with the same
body. Any number of further runs of the passes over both leaves them equal. -/
theorem tree_mirrors_default {file : Option Path} {source : String} {l : Lowered}
    (h : Lowered.ofSource file source = .ok l ∨ Lowered.optimized file source = .ok l) (n : Nat) :
    ∃ c, (Table.optimize^[n] l.table).default? = some c ∧
      Node.optimize^[n] l.tree = .root [.mixin c.signature c.body] := by
  have hmirrors : Mirrors l.table l.tree := by
    rcases h with h | h
    · exact mirrors_ofSource h
    · obtain ⟨l₀, hl₀, htree, htable⟩ := Lowered.optimized_ok h
      rw [htree, htable]
      exact (mirrors_ofSource hl₀).optimize
  exact hmirrors.iterate n

/-- A component with a constant, a required prop and a condition of known truth, beside one that is
not the default. -/
theorem tree_mirrors_default_card :
    let source := "const wide = true;
      function Tile() { return <i />; }
      export default function Card({ title }) { return wide && <p title={title}><Tile /></p>; }
      Card.propTypes = { title: String.isRequired };"
    ∃ l, Lowered.optimized none source = .ok l ∧
      ∃ c, (Table.optimize^[2] l.table).default? = some c ∧
        c.signature.name = "Card" ∧ c.signature.props = [⟨"title", true⟩] ∧
        Node.tagsOfList c.body = ["p", "Tile"] ∧
        Node.optimize^[2] l.tree = .root [.mixin c.signature c.body] := by
  intro source
  have hrun : (Lowered.optimized none source).toOption.any (fun l =>
      (Table.optimize^[2] l.table).default?.any fun c =>
        decide (c.signature.name = "Card" ∧ c.signature.props = [⟨"title", true⟩] ∧
          Node.tagsOfList c.body = ["p", "Tile"])) = true := by
    decide +kernel
  obtain ⟨l, hl, hrun⟩ := exists_ok_of_any hrun
  obtain ⟨c, hc, htree⟩ := tree_mirrors_default (.inr hl) 2
  rw [hc] at hrun
  obtain ⟨hname, hprops, htags⟩ := of_decide_eq_true hrun
  exact ⟨l, hl, c, hc, hname, hprops, htags, htree⟩

end Stencil
