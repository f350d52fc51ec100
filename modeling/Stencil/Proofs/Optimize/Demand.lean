import Stencil.Optimize.Required

/-!
# Demands on the parts of a tree

The optimizer judges every part of a tree in the scope at its place: the constants of the nearest
mixin, without the names that the iterations in between bind. A `Demand` asks something of the
tests, the attributes and the interpolations of a tree, each with that scope.

The node that a pass is started on stays as it is, whatever it is; only what stands below it is
rewritten. So a demand is made of what stands strictly below a node (`Demand.below`), of siblings
(`Demand.among`) and of a branch of a condition (`Demand.branch`), and siblings and branches answer
for themselves as well (`Demand.own`).
-/

namespace Stencil

/-- Something asked of the tests, the attributes and the interpolations of a tree, where each is
judged in the scope at its place. -/
structure Demand where
  tests : Scope → Code → Prop := fun _ _ => True
  attributes : Scope → Attribute → Prop := fun _ _ => True
  interpolations : Scope → Code → Prop := fun _ _ => True

namespace Demand

/-- A test or an interpolation meets the demand itself. -/
def own (d : Demand) (scope : Scope) : Node → Prop
  | .condition test _ _ => d.tests scope test
  | .interpolation code => d.interpolations scope code
  | _ => True

mutual

/-- Everything strictly below a node meets the demand; the attributes of an element count as below
it. -/
def below (d : Demand) (scope : Scope) : Node → Prop
  | .root cs => d.among scope cs
  | .fragment cs => d.among scope cs
  | .element _ attributes cs => (∀ a ∈ attributes, d.attributes scope a) ∧ d.among scope cs
  | .text _ => True
  | .interpolation _ => True
  -- The test is the condition's own; only the branches are below it.
  | .condition _ consequent alternate => d.branch scope consequent ∧ d.branch scope alternate
  | .iteration loop body => d.among (loop.scopeInside scope) body
  -- A mixin sees its own constants only.
  | .mixin signature cs => d.among signature.constants cs

/-- Siblings and everything below them meet the demand. -/
def among (d : Demand) (scope : Scope) : List Node → Prop
  | [] => True
  | n :: rest => d.own scope n ∧ d.below scope n ∧ d.among scope rest

/-- A branch and everything below it meets the demand. -/
def branch (d : Demand) (scope : Scope) : Option Node → Prop
  | none => True
  | some n => d.own scope n ∧ d.below scope n

end

/-- Nodes side by side meet a demand if both parts do. -/
theorem among_append {d : Demand} {scope : Scope} {as bs : List Node} (ha : d.among scope as)
    (hb : d.among scope bs) : d.among scope (as ++ bs) := by
  induction as with
  | nil => exact hb
  | cons n as ih =>
    obtain ⟨hown, hbelow, has⟩ := ha
    exact ⟨hown, hbelow, ih has⟩

/-- Of a node that the pass keeps nothing is asked itself. -/
theorem own_of_kept (d : Demand) (scope : Scope) {n : Node} (h : n.Kept) : d.own scope n := by
  cases n <;> trivial

/-! ### Weaker demands -/

/-- Whatever meets one demand meets the other. -/
structure Implies (d d' : Demand) : Prop where
  tests : ∀ scope test, d.tests scope test → d'.tests scope test
  attributes : ∀ scope a, d.attributes scope a → d'.attributes scope a
  interpolations : ∀ scope code, d.interpolations scope code → d'.interpolations scope code

section Implies

variable {d d' : Demand} (h : d.Implies d')
include h

/-- What a node meets of a demand, it meets of every weaker one. -/
theorem Implies.own (scope : Scope) (n : Node) (hn : d.own scope n) : d'.own scope n := by
  cases n with
  | condition test consequent alternate => exact h.tests scope test hn
  | interpolation code => exact h.interpolations scope code hn
  | _ => trivial

mutual

theorem Implies.below (scope : Scope) : ∀ n : Node, d.below scope n → d'.below scope n
  | .root cs, hn => Implies.among scope cs hn
  | .fragment cs, hn => Implies.among scope cs hn
  | .element _ _ cs, hn =>
    ⟨fun a ha => h.attributes scope a (hn.1 a ha), Implies.among scope cs hn.2⟩
  | .text _, _ => trivial
  | .interpolation _, _ => trivial
  | .condition _ c a, hn => ⟨Implies.branch scope c hn.1, Implies.branch scope a hn.2⟩
  | .iteration loop body, hn => Implies.among (loop.scopeInside scope) body hn
  | .mixin signature cs, hn => Implies.among signature.constants cs hn

theorem Implies.among (scope : Scope) : ∀ cs : List Node, d.among scope cs → d'.among scope cs
  | [], _ => trivial
  | n :: rest, hn =>
    ⟨h.own scope n hn.1, Implies.below scope n hn.2.1, Implies.among scope rest hn.2.2⟩

theorem Implies.branch (scope : Scope) :
    ∀ b : Option Node, d.branch scope b → d'.branch scope b
  | none, _ => trivial
  | some n, hn => ⟨h.own scope n hn.1, Implies.below scope n hn.2⟩

end

end Implies

end Demand

end Stencil
