import Mathlib.Data.List.Forall2
import Stencil.Proofs.Optimize.Guard
import Stencil.Proofs.Optimize.Spot

/-!
# Literal interpolations become texts

The leaves of a tree are its texts and its interpolations, in the order in which they stand, each
with the scope at its place. An interpolation of a string literal or of `undefined` is as good as a
text, and the optimizer makes it one, in place.

* `Node.leaves` — the leaves of a tree, where `Resolution` says which conditions are looked through;
* `Degrades` — what may become of a leaf;
* `leaves_simplify` — simplifying leaves the leaves that no resolved condition drops, each degraded;
* `literals_degrade` — so no literal is left as an interpolation, and none is lost.

Only literals degrade. An interpolation of another constant, such as a sum of two literals, can stay
(`sum_of_literals_stays`), although an attribute with the same code is settled.
-/

namespace Stencil

open Script

/-! ### Leaves -/

/-- A text or an interpolation. -/
inductive Leaf where
  | text (value : String)
  | interpolation (code : Code)
deriving DecidableEq

/-- Which conditions are known to take which branch. -/
abbrev Resolution := Scope → Code → Option Bool

/-- Every condition has both its branches. -/
def Resolution.unresolved : Resolution := fun _ _ => none

/-- The conditions that the optimizer resolves: their truth is known once guards are reduced. -/
def Resolution.known : Resolution := fun scope test => truth? (reduceTest test).text scope

mutual

/-- The leaves of a tree without the branches that a resolved condition does not take. -/
def Node.leaves (resolution : Resolution) (scope : Scope) : Node → List (Scope × Leaf)
  | .root cs => leavesAmong resolution scope cs
  | .fragment cs => leavesAmong resolution scope cs
  | .element _ _ cs => leavesAmong resolution scope cs
  | .text value => [(scope, .text value)]
  | .interpolation code => [(scope, .interpolation code)]
  | .condition test consequent alternate =>
    match resolution scope test with
    | some true => leavesOfBranch resolution scope consequent
    | some false => leavesOfBranch resolution scope alternate
    | none =>
      leavesOfBranch resolution scope consequent ++ leavesOfBranch resolution scope alternate
  | .iteration loop body => leavesAmong resolution (loop.scopeInside scope) body
  | .mixin signature cs => leavesAmong resolution signature.constants cs

/-- The leaves of siblings. -/
def leavesAmong (resolution : Resolution) (scope : Scope) : List Node → List (Scope × Leaf)
  | [] => []
  | n :: rest => n.leaves resolution scope ++ leavesAmong resolution scope rest

/-- The leaves of a branch of a condition. -/
def leavesOfBranch (resolution : Resolution) (scope : Scope) : Option Node → List (Scope × Leaf)
  | none => []
  | some n => n.leaves resolution scope

end

/-- The leaves strictly below a node; a condition that is the whole tree has both its branches. -/
def Node.leavesBelow (resolution : Resolution) (scope : Scope) : Node → List (Scope × Leaf)
  | .text _ | .interpolation _ => []
  | .condition _ consequent alternate =>
    leavesOfBranch resolution scope consequent ++ leavesOfBranch resolution scope alternate
  | n => n.leaves resolution scope

/-- Siblings have the leaves of each of them, in order. -/
theorem leavesAmong_append (resolution : Resolution) (scope : Scope) (as bs : List Node) :
    leavesAmong resolution scope (as ++ bs)
      = leavesAmong resolution scope as ++ leavesAmong resolution scope bs := by
  induction as with
  | nil => rfl
  | cons n as ih => rw [List.cons_append, leavesAmong, leavesAmong, ih, List.append_assoc]

/-- A single node has its own leaves. -/
theorem leavesAmong_singleton (resolution : Resolution) (scope : Scope) (n : Node) :
    leavesAmong resolution scope [n] = n.leaves resolution scope :=
  List.append_nil _

/-- A resolved condition has the leaves of the branch it takes. -/
theorem leaves_condition_of_known {resolution : Resolution} {scope : Scope} {test : Code} {b : Bool}
    (h : resolution scope test = some b) (consequent alternate : Option Node) :
    (Node.condition test consequent alternate).leaves resolution scope
      = leavesOfBranch resolution scope (if b then consequent else alternate) := by
  rw [Node.leaves, h]
  cases b <;> rfl

/-- Any other condition has the leaves of both its branches. -/
theorem leaves_condition_of_unknown {resolution : Resolution} {scope : Scope} {test : Code}
    (h : resolution scope test = none) (consequent alternate : Option Node) :
    (Node.condition test consequent alternate).leaves resolution scope
      = leavesOfBranch resolution scope consequent
          ++ leavesOfBranch resolution scope alternate := by
  rw [Node.leaves, h]

/-- Of a node that the pass keeps, all the leaves are below it, unless it is a text. -/
theorem leavesBelow_of_kept (resolution : Resolution) (scope : Scope) {n : Node} (h : n.Kept)
    (htext : ∀ value, n ≠ .text value) :
    n.leavesBelow resolution scope = n.leaves resolution scope := by
  cases n with
  | text value => exact absurd rfl (htext value)
  | interpolation code => cases h
  | condition test consequent alternate => cases h
  | _ => rfl

/-! ### Degrading -/

/-- The code is `undefined` or a string literal, in parentheses or not. -/
def Code.IsLiteral (code : Code) : Prop :=
  Text.trim code.text = "undefined" ∨
    ∃ e s, Expr.parse? (Text.trim code.text) = some e ∧ e.bare.form = .string s

/-- What may become of a leaf. A literal becomes the text it comes to, and `undefined` an empty one.
An interpolation that is no literal stays, or it becomes the text it comes to. -/
inductive Degrades : Scope × Leaf → Scope × Leaf → Prop where
  | text {scope : Scope} {value : String} : Degrades (scope, .text value) (scope, .text value)
  | nothing {scope : Scope} {code : Code} (h : Text.trim code.text = "undefined") :
    Degrades (scope, .interpolation code) (scope, .text "")
  | constant {scope : Scope} {code : Code} {s : String}
    (h : evaluate? (Text.trim code.text) scope = some (.string s)) :
    Degrades (scope, .interpolation code) (scope, .text s)
  | kept {scope : Scope} {code : Code} (h : ¬code.IsLiteral) :
    Degrades (scope, .interpolation code) (scope, .interpolation code)

/-- What the optimizer makes of a leaf. -/
def Leaf.degraded : Leaf → Leaf
  | .text value => .text value
  | .interpolation code =>
    match constantText? code with
    | some s => .text s
    | none => .interpolation code

/-- An interpolated constant text degrades to the text. -/
theorem Leaf.degraded_of_constantText? {code : Code} {s : String}
    (h : constantText? code = some s) :
    (Leaf.interpolation code).degraded = .text s := by
  rw [degraded, h]

/-- Any other interpolation stays one. -/
theorem Leaf.degraded_of_no_constantText? {code : Code} (h : constantText? code = none) :
    (Leaf.interpolation code).degraded = .interpolation code := by
  rw [degraded, h]

/-- The text of a string literal is its value, in every scope. -/
theorem evaluate?_of_stringLiteral? {text s : String} (h : stringLiteral? text = some s)
    (scope : Scope) : evaluate? text scope = some (.string s) := by
  obtain ⟨e, he, hs⟩ := Option.bind_eq_some_iff.1 h
  split at hs
  · next hform =>
    cases hs
    rw [evaluate?, he, Option.bind_some, Expr.valueIn?, eval_of_form hform]
    rfl
  · cases hs

/-- The interpolations that the optimizer leaves alone are those of no literal. -/
theorem constantText?_eq_none_iff {code : Code} : constantText? code = none ↔ ¬code.IsLiteral := by
  unfold constantText? Code.IsLiteral
  dsimp only
  by_cases hundefined : Text.trim code.text = "undefined"
  · simp [hundefined]
  · -- What is left are the string literals, and the two readings of them agree.
    rw [if_neg hundefined]
    constructor
    · rintro hnone (h | ⟨e, s, he, hs⟩)
      · exact hundefined h
      · rw [stringLiteral?, he, Option.bind_some, hs] at hnone
        cases hnone
    · intro hliteral
      apply Option.eq_none_iff_forall_ne_some.2
      intro s hs
      obtain ⟨e, he, hform⟩ := Option.bind_eq_some_iff.1 hs
      split at hform
      · next hstring => exact hliteral (.inr ⟨e, _, he, hstring⟩)
      · cases hform

/-- What the optimizer makes of a leaf is what may become of it. -/
theorem degrades_degraded (scope : Scope) (leaf : Leaf) :
    Degrades (scope, leaf) (scope, leaf.degraded) := by
  cases leaf with
  | text value => exact .text
  | interpolation code =>
    cases hcode : constantText? code with
    | none =>
      rw [Leaf.degraded_of_no_constantText? hcode]
      exact .kept (constantText?_eq_none_iff.1 hcode)
    | some s =>
      rw [Leaf.degraded_of_constantText? hcode]
      -- The text is empty for `undefined`, and otherwise what the literal evaluates to.
      unfold constantText? at hcode
      dsimp only at hcode
      split at hcode
      · next hundefined =>
        cases hcode
        exact .nothing hundefined
      · exact .constant (evaluate?_of_stringLiteral? hcode scope)

/-- All the leaves, degraded. -/
def degradedAll (leaves : List (Scope × Leaf)) : List (Scope × Leaf) :=
  leaves.map (Prod.map id Leaf.degraded)

/-- Leaves degrade one by one, so those side by side stay so. -/
theorem degradedAll_append (as bs : List (Scope × Leaf)) :
    degradedAll (as ++ bs) = degradedAll as ++ degradedAll bs :=
  List.map_append

/-- An interpolation alone has one leaf, under either resolution. -/
theorem degradedAll_interpolation (resolution : Resolution) (scope : Scope) (code : Code) :
    degradedAll ((Node.interpolation code).leaves resolution scope)
      = [(scope, (Leaf.interpolation code).degraded)] := rfl

/-- Each of the degraded leaves is the leaf in its place, degraded. -/
theorem forall₂_degrades (leaves : List (Scope × Leaf)) :
    List.Forall₂ Degrades leaves (degradedAll leaves) := by
  unfold degradedAll
  rw [List.forall₂_map_right_iff, List.forall₂_same]
  intro leaf _
  exact degrades_degraded leaf.1 leaf.2

/-! ### Simplifying

One theorem for each function of the pass, by recursion on the tree. After the pass both branches of
every condition count; before it, those that the pass does not drop. -/

open Resolution (unresolved known)

-- The second part of the measure orders the functions that look at one and the same node.
mutual

/-- The leaves below a simplified node are those whose conditions were not known to exclude them,
degraded. -/
theorem leaves_simplify (scope : Scope) : ∀ n : Node,
    (n.simplify scope).leavesBelow unresolved scope = degradedAll (n.leavesBelow known scope)
  | .root cs => leaves_simplifyChildren scope cs
  | .fragment cs => leaves_simplifyChildren scope cs
  | .element _ _ cs => leaves_simplifyChildren scope cs
  | .text _ => rfl
  | .interpolation _ => rfl
  -- The condition itself stays here, so both branches do.
  | .condition _ consequent alternate => by
    rw [Node.simplify, Node.leavesBelow, Node.leavesBelow, degradedAll_append,
      leaves_simplifyBranch scope consequent, leaves_simplifyBranch scope alternate]
  | .iteration loop body => leaves_simplifyChildren (loop.scopeInside scope) body
  | .mixin signature cs => leaves_simplifyChildren signature.constants cs
termination_by n => (sizeOf n, 0)

theorem leaves_simplifyChildren (scope : Scope) : ∀ cs : List Node,
    leavesAmong unresolved scope (simplifyChildren scope cs)
      = degradedAll (leavesAmong known scope cs)
  | [] => rfl
  | n :: rest => by
    rw [simplifyChildren, leavesAmong_append, leaves_simplifyAmong scope n,
      leaves_simplifyChildren scope rest, leavesAmong, degradedAll_append]
termination_by cs => (sizeOf cs, 0)

/-- A node that is kept keeps its leaves. -/
theorem leaves_simplify_of_kept (scope : Scope) (n : Node) (h : n.Kept) :
    (n.simplify scope).leaves unresolved scope = degradedAll (n.leaves known scope) := by
  -- A text is its own leaf. The leaves of any other node that is kept are below it, on both sides.
  by_cases htext : ∃ value, n = .text value
  · obtain ⟨value, rfl⟩ := htext
    rfl
  · have hno : ∀ value, n ≠ .text value := fun value hvalue => htext ⟨value, hvalue⟩
    have hno' : ∀ value, n.simplify scope ≠ .text value := by
      intro value hvalue
      cases n with
      | text value => exact absurd rfl (hno value)
      | interpolation code => cases h
      | condition test consequent alternate => cases h
      | _ => cases hvalue
    rw [← leavesBelow_of_kept _ _ (h.simplify scope) hno', leaves_simplify scope n,
      leavesBelow_of_kept _ _ h hno]
termination_by (sizeOf n, 1)

/-- So are those of the nodes that are put in place of one node. -/
theorem leaves_simplifyAmong (scope : Scope) (n : Node) :
    leavesAmong unresolved scope (n.simplifyAmong scope) = degradedAll (n.leaves known scope) := by
  rcases n.kept_cases with hkept | ⟨code, rfl⟩ | ⟨test, consequent, alternate, rfl⟩
  · rw [simplifyAmong_of_kept scope hkept, leavesAmong_singleton]
    exact leaves_simplify_of_kept scope n hkept
  · rw [Node.simplifyAmong]
    split
    · next hcode =>
      rw [degradedAll_interpolation, Leaf.degraded_of_constantText? hcode]
      rfl
    · next hcode =>
      rw [degradedAll_interpolation, Leaf.degraded_of_no_constantText? hcode]
      rfl
  · rw [Node.simplifyAmong]
    split
    · next htrue =>
      -- The condition is resolved, before the pass and by it.
      rw [leaves_condition_of_known htrue]
      exact leaves_simplifyTaken scope consequent
    · next hfalse =>
      rw [leaves_condition_of_known hfalse]
      exact leaves_simplifyTaken scope alternate
    · next hunknown =>
      rw [leavesAmong_singleton, leaves_condition_of_unknown rfl,
        leaves_condition_of_unknown hunknown, degradedAll_append,
        leaves_simplifyBranch scope consequent, leaves_simplifyBranch scope alternate]
termination_by (sizeOf n, 2)

theorem leaves_simplifyTaken (scope : Scope) : ∀ b : Option Node,
    leavesAmong unresolved scope (simplifyTaken scope b)
      = degradedAll (leavesOfBranch known scope b)
  | none => rfl
  | some n => by
    -- A fragment is spliced in, and anything else is looked at again where the condition stood.
    rcases simplifyTaken_cases scope n with ⟨cs, rfl⟩ | htaken
    · exact leaves_simplifyChildren scope cs
    · rw [htaken]
      exact leaves_simplifyAmong scope n
termination_by b => (sizeOf b, 3)

theorem leaves_simplifyBranch (scope : Scope) : ∀ b : Option Node,
    leavesOfBranch unresolved scope (simplifyBranch scope b)
      = degradedAll (leavesOfBranch known scope b)
  | none => rfl
  | some n => leaves_simplifySlot scope n
termination_by b => (sizeOf b, 3)

/-- So are those of what is left of a node that stands alone in its place. -/
theorem leaves_simplifySlot (scope : Scope) (n : Node) :
    leavesOfBranch unresolved scope (n.simplifySlot scope)
      = degradedAll (n.leaves known scope) := by
  rcases n.kept_cases with hkept | ⟨code, rfl⟩ | ⟨test, consequent, alternate, rfl⟩
  · rw [simplifySlot_of_kept scope hkept]
    exact leaves_simplify_of_kept scope n hkept
  · rw [Node.simplifySlot]
    split
    · next hcode =>
      rw [degradedAll_interpolation, Leaf.degraded_of_constantText? hcode]
      rfl
    · next hcode =>
      rw [degradedAll_interpolation, Leaf.degraded_of_no_constantText? hcode]
      rfl
  · rw [Node.simplifySlot]
    split
    · next htrue =>
      -- Alone in its place, the branch that is taken stays one node.
      rw [leaves_condition_of_known htrue]
      exact leaves_simplifyBranch scope consequent
    · next hfalse =>
      rw [leaves_condition_of_known hfalse]
      exact leaves_simplifyBranch scope alternate
    · next hunknown =>
      rw [leavesOfBranch, leaves_condition_of_unknown rfl, leaves_condition_of_unknown hunknown,
        degradedAll_append, leaves_simplifyBranch scope consequent,
        leaves_simplifyBranch scope alternate]
termination_by (sizeOf n, 2)

end

/-! ### Marking -/

mutual

/-- Marking attributes leaves the leaves as they are. -/
theorem leaves_markRequiredIn (scope : Scope) (required : Option (List String)) : ∀ n : Node,
    (n.markRequiredIn required).leaves unresolved scope = n.leaves unresolved scope
  | .root cs => leavesAmong_markRequiredAll scope required cs
  | .fragment cs => leavesAmong_markRequiredAll scope required cs
  | .element _ _ cs => leavesAmong_markRequiredAll scope required cs
  | .text _ => rfl
  | .interpolation _ => rfl
  -- Marking touches attributes only, and no scope depends on them.
  | .condition _ consequent alternate => by
    rw [Node.markRequiredIn, leaves_condition_of_unknown rfl, leaves_condition_of_unknown rfl,
      leavesOfBranch_markRequiredBranch scope required consequent,
      leavesOfBranch_markRequiredBranch scope required alternate]
  | .iteration loop body => leavesAmong_markRequiredAll (loop.scopeInside scope) required body
  | .mixin signature cs =>
    leavesAmong_markRequiredAll signature.constants (some signature.requiredNames) cs

/-- Marks are no leaves. -/
theorem leavesAmong_markRequiredAll (scope : Scope) (required : Option (List String)) :
    ∀ cs : List Node,
      leavesAmong unresolved scope (markRequiredAll required cs) = leavesAmong unresolved scope cs
  | [] => rfl
  | n :: rest => by
    rw [markRequiredAll, leavesAmong, leavesAmong, leaves_markRequiredIn scope required n,
      leavesAmong_markRequiredAll scope required rest]

theorem leavesOfBranch_markRequiredBranch (scope : Scope) (required : Option (List String)) :
    ∀ b : Option Node,
      leavesOfBranch unresolved scope (markRequiredBranch required b)
        = leavesOfBranch unresolved scope b
  | none => rfl
  | some n => leaves_markRequiredIn scope required n

end

theorem leavesBelow_markRequiredIn (scope : Scope) (required : Option (List String)) (n : Node) :
    (n.markRequiredIn required).leavesBelow unresolved scope = n.leavesBelow unresolved scope := by
  cases n with
  | condition test consequent alternate =>
    rw [Node.markRequiredIn, Node.leavesBelow, Node.leavesBelow,
      leavesOfBranch_markRequiredBranch scope required consequent,
      leavesOfBranch_markRequiredBranch scope required alternate]
  | text value => rfl
  | interpolation code => rfl
  | _ => exact leaves_markRequiredIn scope required _

/-! ### All the passes -/

/-- The leaves of an optimized tree are those that it had, degraded. -/
theorem leavesBelow_optimize (n : Node) :
    n.optimize.leavesBelow unresolved Dict.empty
      = degradedAll (n.leavesBelow known Dict.empty) := by
  rw [Node.optimize, Node.markRequired, leavesBelow_markRequiredIn]
  exact leaves_simplify Dict.empty n

/-- The leaves of an optimized component are those that it had, degraded. -/
theorem leaves_optimize_component (c : Component) (scope : Scope) :
    c.optimize.node.leaves unresolved scope = degradedAll (c.node.leaves known scope) := by
  -- The scope around the component does not matter, as it is a mixin.
  change leavesAmong unresolved c.signature.constants (markRequiredAll _ _)
    = degradedAll (leavesAmong known c.signature.constants c.body)
  rw [leavesAmong_markRequiredAll]
  exact leaves_simplifyChildren c.signature.constants c.body

/-- No interpolation in a normal tree is one of a literal. -/
theorem not_isLiteral_of_below {whole : Spot × Node}
    (h : normalForm.below whole.1.scope whole.2) {spot : Spot} {code : Code}
    (hcontains : Contains whole (spot, .interpolation code)) : ¬code.IsLiteral := by
  have hown : normalForm.own spot.scope (.interpolation code) := (Demand.of_contains hcontains h).1
  exact constantText?_eq_none_iff.1 hown

/-- **Literals degrade to texts.** Below an optimized tree and in an optimized component there is no
interpolation of a string literal or of `undefined`. And none is lost: the leaves of the result are,
one by one and in the same scopes, what may become of the leaves that the tree or the component had,
those aside that only a resolved condition held. -/
theorem literals_degrade (n : Node) (t : Table) :
    (∀ spot code, Contains (.outermost, n.optimize) (spot, .interpolation code) →
      ¬code.IsLiteral) ∧
    (∀ c ∈ t.optimize.components.values, ∀ spot code,
      Contains (.outermost, c.node) (spot, .interpolation code) → ¬code.IsLiteral) ∧
    List.Forall₂ Degrades (n.leavesBelow known Dict.empty)
      (n.optimize.leavesBelow unresolved Dict.empty) ∧
    List.Forall₂
      (fun c optimized => List.Forall₂ Degrades (c.node.leaves known Dict.empty)
        (optimized.node.leaves unresolved Dict.empty))
      t.components.values t.optimize.components.values := by
  refine ⟨?_, ?_, ?_, ?_⟩
  · intro spot code hcontains
    have hbelow : normalForm.below Spot.outermost.scope n.optimize := normal_optimize n
    exact not_isLiteral_of_below hbelow hcontains
  · intro c hc spot code hcontains
    rw [Table.values_optimize] at hc
    obtain ⟨original, -, rfl⟩ := List.mem_map.1 hc
    have hbody : normalForm.below Spot.outermost.scope original.optimize.node :=
      normal_optimize_component original
    exact not_isLiteral_of_below hbody hcontains
  · rw [leavesBelow_optimize]
    exact forall₂_degrades _
  · -- The components stay in their order, so they can be compared one by one.
    rw [Table.values_optimize, List.forall₂_map_right_iff, List.forall₂_same]
    intro c _
    rw [leaves_optimize_component]
    exact forall₂_degrades _

/-- **Not every constant text degrades.** A sum of two string literals is left as an
interpolation. -/
theorem sum_of_literals_stays :
    ¬∀ (n : Node) (spot : Spot) (code : Code),
      Contains (.outermost, n.optimize) (spot, .interpolation code) →
        ∀ s, evaluate? code.text spot.scope ≠ some (.string s) := by
  intro hall
  let sum : Code := ⟨"'a' + 'b'"⟩
  let signature : Signature := { name := "App" }
  let page : Node := .root [.mixin signature [.element "p" [] [.interpolation sum]]]
  have hkept : constantText? sum = none := by decide +kernel
  -- The page is in normal form already, so it is its own result.
  have hnormal : normalForm.below Dict.empty page :=
    ⟨trivial, ⟨trivial, ⟨nofun, hkept, trivial, trivial⟩, trivial⟩, trivial⟩
  have hpage : page.optimize = page := by
    rw [Node.optimize, simplify_of_normal Dict.empty page hnormal]
    rfl
  have hcontains : Contains (.outermost, page) (.inMixin signature, .interpolation sum) :=
    .tail (.tail (.single (.root List.mem_cons_self)) (.mixin List.mem_cons_self))
      (.element List.mem_cons_self)
  rw [← hpage] at hcontains
  have hvalue : evaluate? sum.text (Spot.inMixin signature).scope = some (.string "ab") :=
    evaluate?_eq_string (by decide +kernel) (by decide +kernel)
  exact hall page _ sum hcontains "ab" hvalue

end Stencil
