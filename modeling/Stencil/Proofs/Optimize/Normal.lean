import Stencil.Proofs.Optimize.Demand
import Stencil.Proofs.Script.Name

/-!
# The normal form of the optimizer

A tree is in normal form if no part of it gives the optimizer anything to do in the scope at its
place: its tests are no guards and of unknown truth, its interpolations are no constant texts, and
its attributes with code are at the end of settling. `normalForm` is that demand.

* `normal_simplify` — what stands below a simplified node is in normal form;
* `simplify_of_normal` — a node with everything below it in normal form is simplified to itself;
* `below_markRequiredIn` — marking required attributes leaves the normal form alone, since nothing
  in it depends on the marks;
* `optimize_optimize` — so optimizing is idempotent, on trees and on tables.

Two rewrites could expose each other. A guard gives way to the name it tests, which is then read as
code again: a name reads as an identifier, so it is no guard (`guardName?_of_guardName?`). And a
template literal is folded again and again: `Code.settle?` ends only where the last look found
nothing to fold, and a second run begins with that look (`settleOnce_of_settle?`).
-/

namespace Stencil

open Script

/-! ### Settling attributes -/

/-- Looking at the code of an attribute comes to an end after finitely many folds. -/
inductive Settles (scope : Scope) : Code → Prop where
  | done {code : Code} {value : Option AttributeValue} (h : settleOnce scope code = .done value) :
    Settles scope code
  | again {code folded : Code} (h : settleOnce scope code = .again folded)
    (hfolded : Settles scope folded) : Settles scope code

/-- Counting the first looks changes nothing. -/
theorem settleFrom?_eq_settle? (scope : Scope) (looks : Nat) (code : Code) :
    settleFrom? scope looks code = code.settle? scope := by
  induction looks generalizing code with
  | zero => rfl
  | succ looks ih =>
    rw [settleFrom?, Code.settle?]
    split
    · rfl
    · exact ih _

/-- Code that stays, stays as it is. -/
theorem eq_of_settleOnce {scope : Scope} {code code' : Code}
    (h : settleOnce scope code = .done (some (.dynamic code'))) : code' = code := by
  unfold settleOnce at h
  dsimp only at h
  repeat' split at h
  all_goals cases h
  rfl

/-- Code that is looked at again is folded. -/
theorem foldTemplate?_of_settleOnce {scope : Scope} {code folded : Code}
    (h : settleOnce scope code = .again folded) :
    foldTemplate? (Text.trim code.text) scope = some folded.text := by
  unfold settleOnce at h
  dsimp only at h
  repeat' split at h
  all_goals cases h
  next hfold => exact hfold

/-- **Where settling ends with code, nothing is left to settle.** -/
theorem settleOnce_of_settle? {scope : Scope} {code code' : Code}
    (h : code.settle? scope = some (.dynamic code')) :
    settleOnce scope code' = .done (some (.dynamic code')) := by
  -- Partial correctness of the loop: the property is one of its answer alone.
  have hend : ∀ code value, Code.settle? scope code = some value →
      ∀ code', value = .dynamic code' → settleOnce scope code' = .done (some (.dynamic code')) := by
    refine Code.settle?.partial_correctness scope _ fun loop ih code value hvalue code' hcode' => ?_
    subst hcode'
    split at hvalue
    · next hdone =>
      subst hvalue
      -- The last look kept the code, and the code it kept is the one it looked at.
      have hsame := eq_of_settleOnce hdone
      subst hsame
      exact hdone
    · exact ih _ _ hvalue code' rfl
  exact hend code _ h code' rfl

/-! ### Guards -/

/-- What a guard tests reads as a name. -/
theorem isName_of_guardName? {code name : String} (h : guardName? code = some name) :
    IsName name := by
  obtain ⟨e, he, hguard⟩ := Option.bind_eq_some_iff.1 h
  have hread : e.bare.NamesRead := (namesRead_of_parse? he).bare
  revert hguard hread
  obtain ⟨text, form⟩ := e.bare
  intro hguard hread
  dsimp only [Expr.form] at hguard
  split at hguard
  · next left right =>
    obtain ⟨hleft, hright⟩ : left.NamesRead ∧ right.NamesRead := hread
    -- The name stands on the left or on the right of the literal.
    replace hleft := hleft.bare
    replace hright := hright.bare
    revert hguard hleft hright
    obtain ⟨ltext, lform⟩ := left.bare
    obtain ⟨rtext, rform⟩ := right.bare
    intro hguard hleft hright
    dsimp only [Expr.form] at hguard
    split at hguard
    · cases hguard
      exact hleft
    · cases hguard
      exact hright
    · cases hguard
  · cases hguard

/-- **The name that a guard tests is no guard.** -/
theorem guardName?_of_guardName? {code name : String} (h : guardName? code = some name) :
    guardName? name = none := by
  -- An identifier is no `&&`.
  unfold guardName?
  rw [parse?_name (isName_of_guardName? h)]
  rfl

/-- A reduced test is no guard any more: the name it was reduced to is an identifier. -/
theorem guardName?_reduceTest (test : Code) : guardName? (reduceTest test).text = none := by
  unfold reduceTest
  split
  · next name h => exact guardName?_of_guardName? h
  · next h => exact h

/-- A test that is no guard stays. -/
theorem reduceTest_eq_self {test : Code} (h : guardName? test.text = none) :
    reduceTest test = test := by
  unfold reduceTest
  rw [h]

/-! ### The normal form -/

/-- Nothing is left to do for the optimizer. -/
def normalForm : Demand where
  tests scope test := guardName? test.text = none ∧ truth? test.text scope = none
  attributes scope a :=
    ∀ code, a.value = .dynamic code → settleOnce scope code = .done (some (.dynamic code))
  interpolations _ code := constantText? code = none

/-- An attribute that is left has settled. -/
theorem normal_simplify? {scope : Scope} {a b : Attribute} (h : a.simplify? scope = some b) :
    normalForm.attributes scope b := by
  intro code hcode
  unfold Attribute.simplify? at h
  split at h
  · -- The value was settled: if it is code, settling stopped there.
    rw [settleFrom?_eq_settle?] at h
    obtain ⟨value, hvalue, rfl⟩ := Option.map_eq_some_iff.1 h
    dsimp only at hcode
    rw [hcode] at hvalue
    exact settleOnce_of_settle? hvalue
  · next hsettled =>
    cases h
    exact absurd hcode (hsettled code)

/-- An attribute that has settled stays as it is. -/
theorem simplify?_of_normal {scope : Scope} {a : Attribute}
    (h : normalForm.attributes scope a) : a.simplify? scope = some a := by
  unfold Attribute.simplify?
  split
  · next code hcode =>
    rw [settleFrom?_eq_settle?, Code.settle?, h code hcode, ← hcode]
    rfl
  · rfl

/-- All attributes that are left have settled. -/
theorem normal_attributes (scope : Scope) (attributes : List Attribute) :
    ∀ a ∈ attributes.filterMap (·.simplify? scope), normalForm.attributes scope a := by
  intro b hb
  obtain ⟨a, -, h⟩ := List.mem_filterMap.1 hb
  exact normal_simplify? h

/-- Attributes that have settled stay, all of them. -/
theorem attributes_of_normal {scope : Scope} {attributes : List Attribute}
    (h : ∀ a ∈ attributes, normalForm.attributes scope a) :
    attributes.filterMap (·.simplify? scope) = attributes := by
  induction attributes with
  | nil => rfl
  | cons a rest ih =>
    rw [List.filterMap_cons_some (simplify?_of_normal (h a List.mem_cons_self)),
      ih fun b hb => h b (List.mem_cons_of_mem a hb)]

/-! ### Simplified trees are in normal form

One theorem for each function of the pass, by recursion on the tree. A condition of known truth
hands over to the branch it takes; one of unknown truth stays, with its test reduced. -/

mutual

/-- What stands below a simplified node is in normal form. -/
theorem normal_simplify (scope : Scope) : ∀ n : Node, normalForm.below scope (n.simplify scope)
  | .root cs => normal_simplifyChildren scope cs
  | .fragment cs => normal_simplifyChildren scope cs
  | .element _ attributes cs =>
    ⟨normal_attributes scope attributes, normal_simplifyChildren scope cs⟩
  | .text _ => trivial
  | .interpolation _ => trivial
  | .condition _ consequent alternate =>
    ⟨normal_simplifyBranch scope consequent, normal_simplifyBranch scope alternate⟩
  | .iteration loop body => normal_simplifyChildren (loop.scopeInside scope) body
  | .mixin signature cs => normal_simplifyChildren signature.constants cs
termination_by n => (sizeOf n, 0)

/-- So are simplified children, which were put in place of a node among others. -/
theorem normal_simplifyChildren (scope : Scope) :
    ∀ cs : List Node, normalForm.among scope (simplifyChildren scope cs)
  | [] => trivial
  | n :: rest =>
    Demand.among_append (normal_simplifyAmong scope n) (normal_simplifyChildren scope rest)
termination_by cs => (sizeOf cs, 0)

/-- The nodes that are put in place of one node. -/
theorem normal_simplifyAmong (scope : Scope) (n : Node) :
    normalForm.among scope (n.simplifyAmong scope) := by
  rcases n.kept_cases with hkept | ⟨code, rfl⟩ | ⟨test, consequent, alternate, rfl⟩
  · rw [simplifyAmong_of_kept scope hkept]
    exact ⟨normalForm.own_of_kept scope (hkept.simplify scope), normal_simplify scope n, trivial⟩
  · rw [Node.simplifyAmong]
    split
    · exact ⟨trivial, trivial, trivial⟩
    · next h => exact ⟨h, trivial, trivial⟩
  · rw [Node.simplifyAmong]
    split
    · exact normal_simplifyTaken scope consequent
    · exact normal_simplifyTaken scope alternate
    · next h =>
      -- The reduced test is no guard, and it is the one whose truth is not known.
      refine ⟨⟨guardName?_reduceTest test, h⟩, ⟨?_, ?_⟩, trivial⟩
      · exact normal_simplifyBranch scope consequent
      · exact normal_simplifyBranch scope alternate
termination_by (sizeOf n, 1)

/-- The nodes of a branch that is taken. -/
theorem normal_simplifyTaken (scope : Scope) :
    ∀ b : Option Node, normalForm.among scope (simplifyTaken scope b)
  | none => trivial
  | some n => by
    rcases simplifyTaken_cases scope n with ⟨cs, rfl⟩ | htaken
    · exact normal_simplifyChildren scope cs
    · rw [htaken]
      exact normal_simplifyAmong scope n
termination_by b => (sizeOf b, 2)

/-- A branch that is kept. -/
theorem normal_simplifyBranch (scope : Scope) :
    ∀ b : Option Node, normalForm.branch scope (simplifyBranch scope b)
  | none => trivial
  | some n => normal_simplifySlot scope n
termination_by b => (sizeOf b, 2)

/-- What is left of a node that stands alone in its place. -/
theorem normal_simplifySlot (scope : Scope) (n : Node) :
    normalForm.branch scope (n.simplifySlot scope) := by
  -- A node that is kept is simplified below only; the other two kinds may be replaced.
  rcases n.kept_cases with hkept | ⟨code, rfl⟩ | ⟨test, consequent, alternate, rfl⟩
  · rw [simplifySlot_of_kept scope hkept]
    exact ⟨normalForm.own_of_kept scope (hkept.simplify scope), normal_simplify scope n⟩
  · rw [Node.simplifySlot]
    split
    · exact ⟨trivial, trivial⟩
    · next h => exact ⟨h, trivial⟩
  · rw [Node.simplifySlot]
    split
    · exact normal_simplifyBranch scope consequent
    · exact normal_simplifyBranch scope alternate
    · -- The test is not known, and with its guard reduced it is none any more.
      next h =>
      refine ⟨⟨guardName?_reduceTest test, h⟩, ?_, ?_⟩
      · exact normal_simplifyBranch scope consequent
      · exact normal_simplifyBranch scope alternate
termination_by (sizeOf n, 1)

end

/-! ### Trees in normal form stay -/

/-- A node that meets the normal form itself keeps its place, among siblings and in a branch. -/
theorem simplifyAmong_of_normal {scope : Scope} {n : Node} (h : normalForm.own scope n) :
    n.simplifyAmong scope = [n.simplify scope] := by
  cases n with
  | interpolation code =>
    rw [Node.simplifyAmong, show constantText? code = none from h]
    rfl
  | condition test consequent alternate =>
    obtain ⟨hguard, htruth⟩ := h
    rw [Node.simplifyAmong, reduceTest_eq_self hguard, htruth]
    rfl
  | _ => rfl

/-- A node in normal form keeps its place. -/
theorem simplifySlot_of_normal {scope : Scope} {n : Node} (h : normalForm.own scope n) :
    n.simplifySlot scope = some (n.simplify scope) := by
  cases n with
  | interpolation code =>
    rw [Node.simplifySlot, show constantText? code = none from h]
    rfl
  | condition test consequent alternate =>
    obtain ⟨hguard, htruth⟩ := h
    rw [Node.simplifySlot, reduceTest_eq_self hguard, htruth]
    rfl
  | _ => rfl

mutual

/-- A node with everything below it in normal form is simplified to itself. -/
theorem simplify_of_normal (scope : Scope) :
    ∀ n : Node, normalForm.below scope n → n.simplify scope = n
  | .root cs, h => by
    rw [Node.simplify, simplifyChildren_of_normal scope cs h]
  | .fragment cs, h => by
    rw [Node.simplify, simplifyChildren_of_normal scope cs h]
  | .element _ attributes cs, h => by
    rw [Node.simplify, attributes_of_normal h.1, simplifyChildren_of_normal scope cs h.2]
  | .text _, _ => rfl
  | .interpolation _, _ => rfl
  | .condition _ consequent alternate, h => by
    rw [Node.simplify, simplifyBranch_of_normal scope consequent h.1,
      simplifyBranch_of_normal scope alternate h.2]
  | .iteration loop body, h => by
    rw [Node.simplify, simplifyChildren_of_normal (loop.scopeInside scope) body h]
  -- Loops and mixins have scopes of their own, in the normal form as in the pass.
  | .mixin signature cs, h => by
    rw [Node.simplify, simplifyChildren_of_normal signature.constants cs h]

theorem simplifyChildren_of_normal (scope : Scope) :
    ∀ cs : List Node, normalForm.among scope cs → simplifyChildren scope cs = cs
  | [], _ => rfl
  | n :: rest, h => by
    obtain ⟨hown, hbelow, hrest⟩ := h
    rw [simplifyChildren, simplifyAmong_of_normal hown, simplify_of_normal scope n hbelow,
      simplifyChildren_of_normal scope rest hrest]
    rfl

theorem simplifyBranch_of_normal (scope : Scope) :
    ∀ b : Option Node, normalForm.branch scope b → simplifyBranch scope b = b
  | none, _ => rfl
  | some n, h => by
    rw [simplifyBranch, simplifySlot_of_normal h.1, simplify_of_normal scope n h.2]

end

/-! ### Marking required attributes -/

/-- Marking an attribute leaves its value. -/
theorem value_markRequired (required : Option (List String)) (a : Attribute) :
    (a.markRequired required).value = a.value := by
  unfold Attribute.markRequired
  split
  · split <;> rfl
  · rfl

/-- The mark is set from the code alone, so setting it again changes nothing. -/
theorem markRequired_markRequired (required : Option (List String)) (a : Attribute) :
    (a.markRequired required).markRequired required = a.markRequired required := by
  cases hrequired : required with
  | none => cases ha : a.value <;> simp [Attribute.markRequired, ha]
  | some names =>
    cases ha : a.value with
    | dynamic code => cases hroot : rootName? code.text <;> simp [Attribute.markRequired, ha, hroot]
    | _ => simp [Attribute.markRequired, ha]

/-- A demand on a node itself does not see marks, if its attributes do not. -/
theorem own_markRequiredIn {d : Demand} (scope : Scope) (required : Option (List String))
    (n : Node) (h : d.own scope n) : d.own scope (n.markRequiredIn required) := by
  cases n <;> exact h

/-- The demand does not ask for the marks. -/
def Demand.IgnoresMarks (d : Demand) : Prop :=
  ∀ scope a required, d.attributes scope a → d.attributes scope (a.markRequired required)

mutual

/-- A demand that does not ask for the marks is kept by setting them. -/
theorem below_markRequiredIn {d : Demand} (hd : d.IgnoresMarks) (scope : Scope)
    (required : Option (List String)) :
    ∀ n : Node, d.below scope n → d.below scope (n.markRequiredIn required)
  | .root cs, h => among_markRequiredAll hd scope required cs h
  | .fragment cs, h => among_markRequiredAll hd scope required cs h
  | .element _ attributes cs, h => by
    -- The attributes are the only part of a demand that marks could matter to.
    refine ⟨fun b hb => ?_, among_markRequiredAll hd scope required cs h.2⟩
    obtain ⟨a, ha, rfl⟩ := List.mem_map.1 hb
    exact hd scope a required (h.1 a ha)
  | .text _, _ => trivial
  | .interpolation _, _ => trivial
  | .condition _ consequent alternate, h =>
    ⟨branch_markRequiredBranch hd scope required consequent h.1,
      branch_markRequiredBranch hd scope required alternate h.2⟩
  | .iteration loop body, h => among_markRequiredAll hd (loop.scopeInside scope) required body h
  | .mixin signature cs, h =>
    among_markRequiredAll hd signature.constants (some signature.requiredNames) cs h

theorem among_markRequiredAll {d : Demand} (hd : d.IgnoresMarks) (scope : Scope)
    (required : Option (List String)) :
    ∀ cs : List Node, d.among scope cs → d.among scope (markRequiredAll required cs)
  | [], _ => trivial
  | n :: rest, h =>
    ⟨own_markRequiredIn scope required n h.1, below_markRequiredIn hd scope required n h.2.1,
      among_markRequiredAll hd scope required rest h.2.2⟩

theorem branch_markRequiredBranch {d : Demand} (hd : d.IgnoresMarks) (scope : Scope)
    (required : Option (List String)) :
    ∀ b : Option Node, d.branch scope b → d.branch scope (markRequiredBranch required b)
  | none, _ => trivial
  | some n, h =>
    ⟨own_markRequiredIn scope required n h.1, below_markRequiredIn hd scope required n h.2⟩

end

mutual

/-- Marking what is marked changes nothing: the marks depend on the code and on the required names
only. -/
theorem markRequiredIn_markRequiredIn (required : Option (List String)) :
    ∀ n : Node, (n.markRequiredIn required).markRequiredIn required = n.markRequiredIn required
  | .root cs => by
    rw [Node.markRequiredIn, Node.markRequiredIn, markRequiredAll_markRequiredAll required cs]
  | .fragment cs => by
    rw [Node.markRequiredIn, Node.markRequiredIn, markRequiredAll_markRequiredAll required cs]
  | .element _ attributes cs => by
    -- The mark depends on the name of an attribute, which marking keeps.
    have hattributes : (attributes.map (·.markRequired required)).map (·.markRequired required)
        = attributes.map (·.markRequired required) := by
      rw [List.map_map]
      exact List.map_congr_left fun a _ => markRequired_markRequired required a
    rw [Node.markRequiredIn, Node.markRequiredIn, markRequiredAll_markRequiredAll required cs,
      hattributes]
  | .text _ => rfl
  | .interpolation _ => rfl
  | .condition _ consequent alternate => by
    rw [Node.markRequiredIn, Node.markRequiredIn,
      markRequiredBranch_markRequiredBranch required consequent,
      markRequiredBranch_markRequiredBranch required alternate]
  | .iteration _ body => by
    rw [Node.markRequiredIn, Node.markRequiredIn, markRequiredAll_markRequiredAll required body]
  | .mixin signature cs => by
    rw [Node.markRequiredIn, Node.markRequiredIn,
      markRequiredAll_markRequiredAll (some signature.requiredNames) cs]

theorem markRequiredAll_markRequiredAll (required : Option (List String)) :
    ∀ cs : List Node,
      markRequiredAll required (markRequiredAll required cs) = markRequiredAll required cs
  | [] => rfl
  | n :: rest => by
    rw [markRequiredAll, markRequiredAll, markRequiredIn_markRequiredIn required n,
      markRequiredAll_markRequiredAll required rest]

theorem markRequiredBranch_markRequiredBranch (required : Option (List String)) :
    ∀ b : Option Node,
      markRequiredBranch required (markRequiredBranch required b) = markRequiredBranch required b
  | none => rfl
  | some n => by
    rw [markRequiredBranch, markRequiredBranch, markRequiredIn_markRequiredIn required n]

end

/-! ### Optimizing twice -/

/-- The normal form looks at the values of attributes, not at their marks. -/
theorem normalForm_ignoresMarks : normalForm.IgnoresMarks := by
  intro scope a required h code hcode
  rw [value_markRequired] at hcode
  exact h code hcode

/-- **An optimized tree is in normal form** below its topmost node. -/
theorem normal_optimize (n : Node) : normalForm.below Dict.empty n.optimize :=
  below_markRequiredIn normalForm_ignoresMarks Dict.empty none _ (normal_simplify Dict.empty n)

/-- **The body of an optimized component is in normal form.** -/
theorem normal_optimize_component (c : Component) :
    normalForm.among c.signature.constants c.optimize.body :=
  among_markRequiredAll normalForm_ignoresMarks _ _ _ (normal_simplifyChildren _ c.body)

/-- Optimizing a tree twice is optimizing it once. -/
theorem optimize_optimize_node (n : Node) : n.optimize.optimize = n.optimize := by
  calc n.optimize.optimize
      = (n.optimize.simplify Dict.empty).markRequiredIn none := rfl
    _ = n.optimize.markRequiredIn none := by
        rw [simplify_of_normal Dict.empty _ (normal_optimize n)]
    _ = n.optimize := markRequiredIn_markRequiredIn none _

/-- The same of a component, whose own required names are marked in its body. -/
theorem optimize_optimize_component (c : Component) : c.optimize.optimize = c.optimize := by
  have hbody : markRequiredAll (some c.signature.requiredNames)
      (simplifyChildren c.signature.constants c.optimize.body) = c.optimize.body := by
    rw [simplifyChildren_of_normal _ _ (normal_optimize_component c)]
    exact markRequiredAll_markRequiredAll _ _
  change ({ c.optimize with body := _ } : Component) = c.optimize
  exact congrArg (fun body => ({ c.optimize with body := body } : Component)) hbody

theorem optimize_optimize_table (t : Table) : t.optimize.optimize = t.optimize := by
  -- The keys stay, so the entries can be compared one by one.
  have hentries : t.optimize.optimize.components.entries = t.optimize.components.entries := by
    change List.map _ (List.map _ t.components.entries) = List.map _ t.components.entries
    rw [List.map_map]
    refine List.map_congr_left fun entry _ => ?_
    change (entry.1, entry.2.optimize.optimize) = (entry.1, entry.2.optimize)
    rw [optimize_optimize_component]
  obtain ⟨components, dependencies⟩ := t
  change ({ components := _, dependencies } : Table) = { components := _, dependencies }
  congr 1
  exact Dict.ext hentries

/-- The code of every attribute comes to the end of settling. -/
def ending : Demand where
  attributes scope a := ∀ code, a.value = .dynamic code → Settles scope code

/-- In normal form every attribute is at the end of settling, so a second pass ends. -/
theorem normalForm_implies_ending : normalForm.Implies ending where
  tests _ _ _ := trivial
  attributes _ _ h code hcode := .done (h code hcode)
  interpolations _ _ _ := trivial

/-- **Optimizing is idempotent.** A second run changes neither the tree nor the table, and it comes
to an end: no attribute that is left keeps folding. Folding itself need not end, and `Code.settle?`
has no value where it does not; so nothing is asked of the first run. -/
theorem optimize_optimize (n : Node) (t : Table) :
    n.optimize.optimize = n.optimize ∧ t.optimize.optimize = t.optimize ∧
      ending.below Dict.empty n.optimize ∧
      ∀ c ∈ t.optimize.components.values, ending.among c.signature.constants c.body := by
  refine ⟨optimize_optimize_node n, optimize_optimize_table t, ?_, fun c hc => ?_⟩
  · exact normalForm_implies_ending.below Dict.empty _ (normal_optimize n)
  · obtain ⟨entry, hentry, rfl⟩ := List.mem_map.1 hc
    obtain ⟨original, -, rfl⟩ := List.mem_map.1 hentry
    exact normalForm_implies_ending.among _ _ (normal_optimize_component original.2)

end Stencil
