import Stencil.Proofs.Optimize.Normal
import Stencil.Proofs.Template.Shown

/-!
# Optimizing changes nothing that is shown

The optimizer removes the branches that are never taken and opens the fragments it finds in their
places. Whatever a run makes of the tests that are left, the tree shows the same as before: the same
elements, texts, iterations and interpolations, in the same order and nested in the same way.

* `Choice` — a run, as far as conditions are concerned: the truth of every test in every scope;
* `Choice.Respects` — the choice at a test is the choice at the name that a guard is reduced to, and
  it is the known truth of that name or test if there is one;
* `shown_simplify_eq` — simplifying a tree changes nothing of what it shows, for every choice that
  respects the tests below it;
* `shown_optimize` — neither do all the passes together.

Respect is asked at the tests that the tree has, each in the scope at its place. Asked of every code
at once it would be contradictory: a guard of a known name can be known itself, and differently. For
the tests of a tree there always is such a choice (`Choice.respects_completed`).

The attributes of elements and the marks on them are no part of what is shown here, and constant
interpolations are read as texts (`Choice.view`).
-/

namespace Stencil

/-! ### Choices -/

/-- The truth of every test in every scope. -/
abbrev Choice := Scope → Code → Bool

/-- The tree as the choice shows it: without attributes, and with constant texts read as texts. -/
def Choice.view (choice : Choice) : View where
  choice := choice
  reading := constantText?
  details _ := []

/-- A choice is what its view chooses by. -/
@[simp] theorem Choice.choice_view (choice : Choice) (scope : Scope) (test : Code) :
    choice.view.choice scope test = choice scope test := rfl

/-- An element shows its tag and what its children show; attributes are left aside. -/
theorem Choice.shown_element (choice : Choice) (scope : Scope) (tag : String)
    (attributes : List Attribute) (cs : List Node) :
    (Node.element tag attributes cs).shown choice.view scope
      = [.element tag [] (shownAll choice.view scope cs)] := rfl

/-- A choice respects a test: a guard is as true as the name it tests, and where the truth of the
name or the test is known, the choice is that truth. -/
structure Choice.Respects (choice : Choice) (scope : Scope) (test : Code) : Prop where
  reduced : choice scope test = choice scope (reduceTest test)
  known : ∀ b, truth? (reduceTest test).text scope = some b → choice scope (reduceTest test) = b

/-- The choice respects every test. -/
def Choice.respected (choice : Choice) : Demand where
  tests := choice.Respects

/-- Any choice, corrected where it does not respect a test. -/
def Choice.completed (choice : Choice) : Choice := fun scope test =>
  (truth? (reduceTest test).text scope).getD (choice scope (reduceTest test))

/-- A reduced test is not reduced further. -/
theorem reduceTest_reduceTest (test : Code) : reduceTest (reduceTest test) = reduceTest test :=
  reduceTest_eq_self (guardName?_reduceTest test)

/-- Every test of every tree can be respected, and freely wherever its truth is not known. -/
theorem Choice.respects_completed (choice : Choice) (scope : Scope) (test : Code) :
    choice.completed.Respects scope test where
  reduced := by
    unfold Choice.completed
    rw [reduceTest_reduceTest]
  known := by
    intro b hb
    unfold Choice.completed
    rw [reduceTest_reduceTest, hb]
    rfl

/-- A condition of known truth shows the branch it takes. -/
theorem shown_condition_of_truth {choice : Choice} {scope : Scope} {test : Code} {b : Bool}
    (h : choice.Respects scope test) (hb : truth? (reduceTest test).text scope = some b)
    (consequent alternate : Option Node) :
    (Node.condition test consequent alternate).shown choice.view scope
      = shownBranch choice.view scope (if b then consequent else alternate) := by
  rw [Node.shown, Choice.choice_view, h.reduced, h.known b hb]
  cases b <;> rfl

/-- A condition shows the same with its test reduced. -/
theorem shown_condition_reduceTest {choice : Choice} {scope : Scope} {test : Code}
    (h : choice.Respects scope test) (consequent alternate : Option Node) :
    (Node.condition (reduceTest test) consequent alternate).shown choice.view scope
      = (Node.condition test consequent alternate).shown choice.view scope := by
  rw [Node.shown, Node.shown, Choice.choice_view, Choice.choice_view, h.reduced]

/-! ### Simplifying

One theorem for each function of the pass, by recursion on the tree. A node that is kept shows what
its simplified parts show. A condition of known truth is the branch it takes, whether that branch is
put among the siblings or into the slot of the condition. -/

mutual

/-- Simplifying a node shows the same under a choice that the optimizer respects. -/
theorem shown_simplify (choice : Choice) (scope : Scope) : ∀ n : Node,
    choice.respected.below scope n →
      (n.simplify scope).shown choice.view scope = n.shown choice.view scope
  | .root cs, h => by
    rw [Node.simplify, Node.shown, Node.shown, shown_simplifyChildren choice scope cs h]
  | .fragment cs, h => by
    rw [Node.simplify, Node.shown, Node.shown, shown_simplifyChildren choice scope cs h]
  -- Attributes are no part of what is shown.
  | .element _ _ cs, h => by
    rw [Node.simplify, Choice.shown_element, Choice.shown_element,
      shown_simplifyChildren choice scope cs h.2]
  | .text _, _ => rfl
  | .interpolation _, _ => rfl
  | .condition _ consequent alternate, h => by
    rw [Node.simplify, Node.shown, Node.shown, shown_simplifyBranch choice scope consequent h.1,
      shown_simplifyBranch choice scope alternate h.2]
  | .iteration loop body, h => by
    rw [Node.simplify, Node.shown, Node.shown,
      shown_simplifyChildren choice (loop.scopeInside scope) body h]
  | .mixin signature cs, h => by
    rw [Node.simplify, Node.shown, Node.shown,
      shown_simplifyChildren choice signature.constants cs h]
termination_by n => (sizeOf n, 0)

theorem shown_simplifyChildren (choice : Choice) (scope : Scope) : ∀ cs : List Node,
    choice.respected.among scope cs →
      shownAll choice.view scope (simplifyChildren scope cs) = shownAll choice.view scope cs
  | [], _ => rfl
  | n :: rest, h => by
    obtain ⟨hown, hbelow, hrest⟩ := h
    rw [simplifyChildren, shownAll_append, shown_simplifyAmong choice scope n hown hbelow,
      shown_simplifyChildren choice scope rest hrest, shownAll]
termination_by cs => (sizeOf cs, 0)

/-- The same of the nodes that are put in place of one node. -/
theorem shown_simplifyAmong (choice : Choice) (scope : Scope) (n : Node)
    (hown : choice.respected.own scope n) (hbelow : choice.respected.below scope n) :
    shownAll choice.view scope (n.simplifyAmong scope) = n.shown choice.view scope := by
  rcases n.kept_cases with hkept | ⟨code, rfl⟩ | ⟨test, consequent, alternate, rfl⟩
  · -- The same node again, so the recursion is on the tree and then on the function.
    rw [simplifyAmong_of_kept scope hkept, shownAll_singleton,
      shown_simplify choice scope n hbelow]
  · rw [Node.simplifyAmong]
    split
    · next s hs => rw [shownAll_singleton, Node.shown, Node.shown, View.interpolated_of_reading hs]
    · exact shownAll_singleton choice.view scope _
  · obtain ⟨hconsequent, halternate⟩ := hbelow
    rw [Node.simplifyAmong]
    split
    · next htrue =>
      -- The choice agrees with the known truth, so the condition shows the branch that is left.
      rw [shown_condition_of_truth hown htrue]
      exact shown_simplifyTaken choice scope consequent hconsequent
    · next hfalse =>
      rw [shown_condition_of_truth hown hfalse]
      exact shown_simplifyTaken choice scope alternate halternate
    · -- The truth is not known: the condition stays, with its test reduced.
      rw [shownAll_singleton, shown_condition_reduceTest hown, Node.shown, Node.shown,
        shown_simplifyBranch choice scope consequent hconsequent,
        shown_simplifyBranch choice scope alternate halternate]
termination_by (sizeOf n, 1)

theorem shown_simplifyTaken (choice : Choice) (scope : Scope) : ∀ b : Option Node,
    choice.respected.branch scope b →
      shownAll choice.view scope (simplifyTaken scope b) = shownBranch choice.view scope b
  | none, _ => rfl
  | some n, h => by
    rcases simplifyTaken_cases scope n with ⟨cs, rfl⟩ | htaken
    · -- An opened fragment shows what its children show.
      exact shown_simplifyChildren choice scope cs h.2
    · rw [htaken, shown_simplifyAmong choice scope n h.1 h.2, shownBranch]
termination_by b => (sizeOf b, 2)

theorem shown_simplifyBranch (choice : Choice) (scope : Scope) : ∀ b : Option Node,
    choice.respected.branch scope b →
      shownBranch choice.view scope (simplifyBranch scope b) = shownBranch choice.view scope b
  | none, _ => rfl
  | some n, h => by
    rw [simplifyBranch, shown_simplifySlot choice scope n h.1 h.2, shownBranch]
termination_by b => (sizeOf b, 2)

/-- The same of what is left of a node that stands alone in its place. -/
theorem shown_simplifySlot (choice : Choice) (scope : Scope) (n : Node)
    (hown : choice.respected.own scope n) (hbelow : choice.respected.below scope n) :
    shownBranch choice.view scope (n.simplifySlot scope) = n.shown choice.view scope := by
  -- A node that is kept is shown as what it is simplified to; a constant interpolation is shown as
  -- its text on both sides.
  rcases n.kept_cases with hkept | ⟨code, rfl⟩ | ⟨test, consequent, alternate, rfl⟩
  · rw [simplifySlot_of_kept scope hkept, shownBranch, shown_simplify choice scope n hbelow]
  · rw [Node.simplifySlot]
    split
    · next s hs => rw [shownBranch, Node.shown, Node.shown, View.interpolated_of_reading hs]
    · rfl
  · obtain ⟨hconsequent, halternate⟩ := hbelow
    rw [Node.simplifySlot]
    -- A known test takes the branch that every respectful choice takes.
    split
    · next htrue =>
      rw [shown_condition_of_truth hown htrue]
      exact shown_simplifyBranch choice scope consequent hconsequent
    · next hfalse =>
      rw [shown_condition_of_truth hown hfalse]
      exact shown_simplifyBranch choice scope alternate halternate
    · rw [shownBranch, shown_condition_reduceTest hown, Node.shown, Node.shown,
        shown_simplifyBranch choice scope consequent hconsequent,
        shown_simplifyBranch choice scope alternate halternate]
termination_by (sizeOf n, 1)

end

/-- **Simplifying changes nothing of what is shown.** The node that the pass is started on, the
siblings below a node and the branches of a condition show the same, in the same order and nested in
the same way, before and after the pass. -/
theorem shown_simplify_eq (choice : Choice) (scope : Scope) :
    (∀ n : Node, choice.respected.below scope n →
      (n.simplify scope).shown choice.view scope = n.shown choice.view scope) ∧
    (∀ cs : List Node, choice.respected.among scope cs →
      shownAll choice.view scope (simplifyChildren scope cs) = shownAll choice.view scope cs) ∧
    (∀ b : Option Node, choice.respected.branch scope b →
      shownBranch choice.view scope (simplifyBranch scope b) = shownBranch choice.view scope b) :=
  ⟨shown_simplify choice scope, shown_simplifyChildren choice scope,
    shown_simplifyBranch choice scope⟩

/-- A guard of an unknown name around a fragment, with a condition of known truth in it. -/
theorem shown_simplify_guarded_fragment :
    let choice : Choice := Choice.completed fun _ _ => true
    let inner : Node := .condition ⟨"false"⟩ (some (.text "no")) (some (.interpolation ⟨"'yes'"⟩))
    let tree : Node := .root [.condition ⟨"open && 'x'"⟩ (some (.fragment [.text "a", inner])) none]
    choice.respected.below Dict.empty tree ∧
      (tree.simplify Dict.empty).shown choice.view Dict.empty
        = tree.shown choice.view Dict.empty := by
  intro choice inner tree
  -- Respect is for the tests alone; of texts and fragments nothing is asked.
  have hinner : choice.respected.branch Dict.empty (some (.fragment [.text "a", inner])) :=
    ⟨trivial, ⟨trivial, trivial, Choice.respects_completed _ _ _,
      ⟨⟨trivial, trivial⟩, trivial, trivial⟩, trivial⟩⟩
  have htree : choice.respected.below Dict.empty tree :=
    ⟨Choice.respects_completed _ _ _, ⟨hinner, trivial⟩, trivial⟩
  exact ⟨htree, (shown_simplify_eq choice Dict.empty).1 tree htree⟩

example :
    let inner : Node := .condition ⟨"false"⟩ (some (.text "no")) (some (.interpolation ⟨"'yes'"⟩))
    let tree : Node := .root [.condition ⟨"open && 'x'"⟩ (some (.fragment [.text "a", inner])) none]
    tree.simplify Dict.empty
      == .root [.condition ⟨"open"⟩ (some (.fragment [.text "a", .text "yes"])) none] := by
  decide +kernel

/-! ### Marking -/

mutual

/-- The marks are not shown. -/
theorem shown_markRequiredIn (choice : Choice) (scope : Scope) (required : Option (List String)) :
    ∀ n : Node, (n.markRequiredIn required).shown choice.view scope = n.shown choice.view scope
  | .root cs => by
    rw [Node.markRequiredIn, Node.shown, Node.shown, shown_markRequiredAll choice scope required cs]
  | .fragment cs => by
    rw [Node.markRequiredIn, Node.shown, Node.shown, shown_markRequiredAll choice scope required cs]
  | .element _ _ cs => by
    rw [Node.markRequiredIn, Choice.shown_element, Choice.shown_element,
      shown_markRequiredAll choice scope required cs]
  | .text _ => rfl
  | .interpolation _ => rfl
  | .condition _ consequent alternate => by
    rw [Node.markRequiredIn, Node.shown, Node.shown,
      shown_markRequiredBranch choice scope required consequent,
      shown_markRequiredBranch choice scope required alternate]
  | .iteration loop body => by
    rw [Node.markRequiredIn, Node.shown, Node.shown,
      shown_markRequiredAll choice (loop.scopeInside scope) required body]
  -- The required names change here, and the scope with them. Neither is shown.
  | .mixin signature cs => by
    rw [Node.markRequiredIn, Node.shown, Node.shown,
      shown_markRequiredAll choice signature.constants (some signature.requiredNames) cs]

/-- Marks are not shown. -/
theorem shown_markRequiredAll (choice : Choice) (scope : Scope) (required : Option (List String)) :
    ∀ cs : List Node,
      shownAll choice.view scope (markRequiredAll required cs) = shownAll choice.view scope cs
  | [] => rfl
  | n :: rest => by
    rw [markRequiredAll, shownAll, shown_markRequiredIn choice scope required n,
      shown_markRequiredAll choice scope required rest, shownAll]

theorem shown_markRequiredBranch (choice : Choice) (scope : Scope)
    (required : Option (List String)) : ∀ b : Option Node,
      shownBranch choice.view scope (markRequiredBranch required b)
        = shownBranch choice.view scope b
  | none => rfl
  | some n => shown_markRequiredIn choice scope required n

end

/-- **All the passes together change nothing of what is shown.** -/
theorem shown_optimize (choice : Choice) (n : Node)
    (h : choice.respected.below Dict.empty n) :
    n.optimize.shown choice.view Dict.empty = n.shown choice.view Dict.empty := by
  rw [Node.optimize, Node.markRequired, shown_markRequiredIn]
  exact shown_simplify choice Dict.empty n h

/-- The same for the body of a component. -/
theorem shown_optimize_component (choice : Choice) (c : Component)
    (h : choice.respected.among c.signature.constants c.body) :
    shownAll choice.view c.signature.constants c.optimize.body
      = shownAll choice.view c.signature.constants c.body := by
  rw [Component.optimize, shown_markRequiredAll]
  exact shown_simplifyChildren choice c.signature.constants c.body h

end Stencil
