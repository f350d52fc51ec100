import Mathlib.Logic.Relation
import Stencil.Proofs.Optimize.Normal

/-!
# Nothing foldable is left at any spot

`Demand.below` asks something of all the parts of a tree by recursion on the tree, and works out the
scope of each part on the way. Here the scope is read off the place itself: a `Spot` is the
constants of the nearest mixin with the loops entered since, and its scope is those constants
without the names that the loops bind.

* `Holds` — a node is directly below another one, each at its spot;
* `Contains` — a node is strictly below another one, at any depth;
* `Demand.of_contains` — what is asked of everything below a node is met at every spot below it;
* `IsNormal` — no test and no attribute in a tree gives the optimizer anything to do;
* `isNormal_optimize` — optimized trees and components are normal.
-/

namespace Stencil

/-! ### Spots -/

/-- Where a node stands, as far as its scope depends on it. -/
structure Spot where
  /-- The constants of the nearest mixin around it. -/
  constants : Scope := Dict.empty
  /-- The loops between that mixin and the spot, the outermost first. -/
  loops : List Loop := []

namespace Spot

/-- The spot of a whole tree. -/
def outermost : Spot := {}

/-- The names that the loops around the spot bind. -/
def boundNames (p : Spot) : List String :=
  p.loops.flatMap fun l => l.bindings.flatMap bindingNames

/-- The constants that the spot can see. -/
def scope (p : Spot) : Scope :=
  p.constants.eraseAll p.boundNames

/-- The spot inside a loop. -/
def inLoop (p : Spot) (l : Loop) : Spot :=
  { p with loops := p.loops ++ [l] }

/-- The spot inside a mixin, wherever the mixin stands. -/
def inMixin (signature : Signature) : Spot where
  constants := signature.constants

/-- A loop takes the names it binds out of the scope around it. -/
theorem scope_inLoop (p : Spot) (l : Loop) : (p.inLoop l).scope = l.scopeInside p.scope := by
  have hnames : (p.inLoop l).boundNames = p.boundNames ++ l.bindings.flatMap bindingNames := by
    unfold boundNames inLoop
    rw [List.flatMap_append, List.flatMap_singleton]
  calc (p.inLoop l).scope
      = p.constants.eraseAll (p.inLoop l).boundNames := rfl
    _ = (p.constants.eraseAll p.boundNames).eraseAll (l.bindings.flatMap bindingNames) := by
        rw [hnames]
        exact List.foldl_append
    _ = l.scopeInside p.scope := rfl

example :
    let signature : Signature :=
      { name := "App", constants := Dict.ofList [("hue", "'red'"), ("k", "1"), ("v", "2")] }
    ((inMixin signature).inLoop { iterable := ⟨"pairs"⟩, item := "[k, v]" }).scope.entries
      = [("hue", "'red'")] := by
  decide +kernel

end Spot

/-! ### Nodes below nodes -/

/-- The second node is directly below the first one, each given with its spot. -/
inductive Holds : Spot × Node → Spot × Node → Prop where
  | root {p : Spot} {cs : List Node} {n : Node} (h : n ∈ cs) : Holds (p, .root cs) (p, n)
  | fragment {p : Spot} {cs : List Node} {n : Node} (h : n ∈ cs) : Holds (p, .fragment cs) (p, n)
  | element {p : Spot} {tag : String} {attributes : List Attribute} {cs : List Node} {n : Node}
    (h : n ∈ cs) : Holds (p, .element tag attributes cs) (p, n)
  | consequent {p : Spot} {test : Code} {n : Node} {alternate : Option Node} :
    Holds (p, .condition test (some n) alternate) (p, n)
  | alternate {p : Spot} {test : Code} {consequent : Option Node} {n : Node} :
    Holds (p, .condition test consequent (some n)) (p, n)
  | iteration {p : Spot} {loop : Loop} {body : List Node} {n : Node} (h : n ∈ body) :
    Holds (p, .iteration loop body) (p.inLoop loop, n)
  | mixin {p : Spot} {signature : Signature} {cs : List Node} {n : Node} (h : n ∈ cs) :
    Holds (p, .mixin signature cs) (.inMixin signature, n)

/-- The second node is strictly below the first one. -/
def Contains : Spot × Node → Spot × Node → Prop :=
  Relation.TransGen Holds

namespace Demand

/-- Children meet a demand if each of them does. -/
theorem among_iff {d : Demand} {scope : Scope} {cs : List Node} :
    d.among scope cs ↔ ∀ n ∈ cs, d.own scope n ∧ d.below scope n := by
  induction cs with
  | nil => exact iff_of_true trivial nofun
  | cons n cs ih => rw [among, ih, List.forall_mem_cons, and_assoc]

/-- A demand made of everything below a node is met by each node directly below it, in the scope of
its spot, and is made of everything below that node in turn. -/
theorem of_holds {d : Demand} {whole part : Spot × Node} (h : Holds whole part)
    (hwhole : d.below whole.1.scope whole.2) :
    d.own part.1.scope part.2 ∧ d.below part.1.scope part.2 := by
  cases h with
  | root h => exact among_iff.1 hwhole _ h
  | fragment h => exact among_iff.1 hwhole _ h
  | element h => exact among_iff.1 hwhole.2 _ h
  | consequent => exact hwhole.1
  | alternate => exact hwhole.2
  | @iteration p loop body n h =>
    -- The scope that the recursion computes is the scope of the spot.
    have hbody : d.among (p.inLoop loop).scope body := by
      rw [Spot.scope_inLoop]
      exact hwhole
    exact among_iff.1 hbody n h
  | mixin h => exact among_iff.1 hwhole _ h

/-- **A demand made of everything below a node is met at every spot below it**, at any depth. -/
theorem of_contains {d : Demand} {whole part : Spot × Node} (h : Contains whole part)
    (hwhole : d.below whole.1.scope whole.2) :
    d.own part.1.scope part.2 ∧ d.below part.1.scope part.2 := by
  induction h with
  | single hpart => exact of_holds hpart hwhole
  | tail _ hpart ih => exact of_holds hpart ih.2

end Demand

/-! ### Normal trees -/

/-- Code that an attribute keeps: it is no constant, and no part of a template literal in it is. -/
structure Code.IsSettled (scope : Scope) (code : Code) : Prop where
  ne_true : Text.trim code.text ≠ "true"
  ne_undefined : Text.trim code.text ≠ "undefined"
  value_unknown : evaluate? (Text.trim code.text) scope = none
  nothing_folded : foldTemplate? (Text.trim code.text) scope = none

/-- A look at code that keeps it has found nothing to do. -/
theorem Code.isSettled_of_settleOnce {scope : Scope} {code : Code}
    (h : settleOnce scope code = .done (some (.dynamic code))) : code.IsSettled scope := by
  unfold settleOnce at h
  dsimp only at h
  split at h
  · cases h
  · next htrue =>
    split at h
    · cases h
    · next hundefined =>
      cases hvalue : evaluate? (Text.trim code.text) scope with
      | some v =>
        -- Every known value settles the attribute to something that is no code, or drops it.
        rw [hvalue] at h
        rcases v with s | x | (_ | _) | _ | _ <;> cases h
      | none =>
        rw [hvalue] at h
        dsimp only at h
        split at h
        · cases h
        · next hfold => exact ⟨htrue, hundefined, hvalue, hfold⟩

/-- No test below a node and no attribute in it or below it gives the optimizer anything to do, each
in the scope of its spot. -/
structure IsNormal (whole : Spot × Node) : Prop where
  tests : ∀ spot test consequent alternate,
    Contains whole (spot, .condition test consequent alternate) →
      guardName? test.text = none ∧ truth? test.text spot.scope = none
  /-- The node itself counts here: its attributes are rewritten even where it is the whole tree. -/
  attributes : ∀ spot tag attributes children,
    Relation.ReflTransGen Holds whole (spot, .element tag attributes children) →
      ∀ a ∈ attributes, ∀ code, a.value = .dynamic code → code.IsSettled spot.scope

/-- The normal form of the recursion over the tree holds at every spot. -/
theorem isNormal_of_below {whole : Spot × Node} (h : normalForm.below whole.1.scope whole.2) :
    IsNormal whole where
  tests := by
    intro spot test consequent alternate hcontains
    have hown : normalForm.own spot.scope (.condition test consequent alternate) :=
      (Demand.of_contains hcontains h).1
    exact hown
  attributes := by
    intro spot tag attributes children hcontains a ha code hcode
    have hbelow : normalForm.below spot.scope (.element tag attributes children) := by
      -- The element may be the whole tree, and then its attributes are below it all the same.
      rcases Relation.reflTransGen_iff_eq_or_transGen.1 hcontains with hself | hcontains
      · rw [← hself] at h
        exact h
      · exact (Demand.of_contains hcontains h).2
    have hlook : settleOnce spot.scope code = .done (some (.dynamic code)) :=
      hbelow.1 a ha code hcode
    exact Code.isSettled_of_settleOnce hlook

/-- **Optimized trees and components are normal.** Whatever was spliced in, collapsed or partly
folded on the way, no condition that is left is a guard or has a known truth, and no code that an
attribute still has is a constant or has a constant part. A chain of conditions and folds has been
followed to its end: one that has none leaves no code behind. -/
theorem isNormal_optimize (n : Node) (t : Table) :
    IsNormal (.outermost, n.optimize) ∧
      ∀ c ∈ t.optimize.components.values, IsNormal (.outermost, c.node) := by
  constructor
  · apply isNormal_of_below
    exact normal_optimize n
  · intro c hc
    rw [Table.values_optimize] at hc
    obtain ⟨original, -, rfl⟩ := List.mem_map.1 hc
    apply isNormal_of_below
    -- A component is the body of a mixin, so what is outside of it does not matter.
    change normalForm.among original.signature.constants original.optimize.body
    exact normal_optimize_component original

end Stencil
