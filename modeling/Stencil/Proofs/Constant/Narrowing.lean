import Stencil.Lower.Module
import Stencil.Proofs.Constant.Evaluates
import Stencil.Proofs.Optimize.Spot

/-!
# Constant evaluation in narrower scopes

A constant is kept as code, and that code is evaluated again in whatever scope is current where the
name is used. On the way there a component takes the names that it binds out of the scope, and every
loop takes out its own, also names that other constants are defined through. This must never change
a value, only lose it.

* `Dict.Within` — one dictionary has all the bindings of another one;
* `Expr.eval_mono` — the more a look-up answers, the more values are known, and no other ones, by
  recursion on the expression: what is known of an operand decides alike which operands are needed;
* `Dict.valueOf?_mono` — the values of names in a larger scope, by induction on how deep names may
  refer to other names;
* `known_in_larger_scope` — what is known in a scope is known in every larger one, and what a
  component and the loops in it take out of the scope only makes values unknown.
-/

namespace Stencil

open Script

/-! ### Larger dictionaries -/

namespace Dict

variable {α : Type}

/-- Every binding of the dictionary is one of the other dictionary too. -/
def Within (s t : Dict α) : Prop :=
  ∀ key value, s.get? key = some value → t.get? key = some value

/-- A scope lies within itself. -/
theorem Within.refl (s : Dict α) : s.Within s :=
  fun _ _ h => h

/-- Scopes within scopes. -/
theorem Within.trans {s t u : Dict α} (hst : s.Within t) (htu : t.Within u) : s.Within u :=
  fun key value h => htu key value (hst key value h)

/-- Forgetting a name narrows the scope. -/
theorem within_erase (d : Dict α) (key : String) : (d.erase key).Within d := by
  intro k value h
  rw [get?_eq_some_iff] at h ⊢
  exact (List.mem_filter.1 h).1

/-- Taking keys out leaves a smaller dictionary. -/
theorem within_eraseAll (d : Dict α) (keys : List String) : (d.eraseAll keys).Within d := by
  unfold eraseAll
  induction keys generalizing d with
  | nil => exact .refl d
  | cons key keys ih => exact (ih (d.erase key)).trans (within_erase d key)

end Dict

/-! ### Look-ups that answer more -/

/-- Whatever the look-up answers, the other one answers alike. -/
def AnswersMore (lookup lookup' : String → Option Value) : Prop :=
  ∀ name v, lookup name = some v → lookup' name = some v

mutual

/-- **A value that is known stays known** when the look-up answers more. An operand that is not
needed is not asked for on either side, since the operand before it has the same value on both. -/
theorem Script.Expr.eval_mono {lookup lookup' : String → Option Value}
    (h : AnswersMore lookup lookup') :
    ∀ (e : Expr) {v : Value}, e.eval lookup = some v → e.eval lookup' = some v
  | .mk _ form, _, hv => form.eval_mono h hv

/-- What is known by fewer answers is known by more, form by form. -/
theorem Script.Form.eval_mono {lookup lookup' : String → Option Value}
    (h : AnswersMore lookup lookup') :
    ∀ (form : Form) {v : Value}, form.eval lookup = some v → form.eval lookup' = some v
  | .string _, _, hv => hv
  | .number _, _, hv => hv
  | .boolean _, _, hv => hv
  | .null, _, hv => hv
  | .identifier name, v, hv => h name v hv
  | .paren inner, _, hv => inner.eval_mono h hv
  | .template runs es, v, hv => by
    obtain ⟨vs, hvs, rfl⟩ := Option.map_eq_some_iff.1 hv
    exact Option.map_eq_some_iff.2 ⟨vs, evalAll_mono h es hvs, rfl⟩
  | .unary op operand, v, hv => by
    obtain ⟨a, ha, hv⟩ := Option.bind_eq_some_iff.1 hv
    exact Option.bind_eq_some_iff.2 ⟨a, operand.eval_mono h ha, hv⟩
  | .binary op left right, v, hv => by
    obtain ⟨a, ha, hv⟩ := Option.bind_eq_some_iff.1 hv
    obtain ⟨b, hb, hv⟩ := Option.bind_eq_some_iff.1 hv
    refine Option.bind_eq_some_iff.2 ⟨a, left.eval_mono h ha, ?_⟩
    exact Option.bind_eq_some_iff.2 ⟨b, right.eval_mono h hb, hv⟩
  | .logical op left right, v, hv => by
    obtain ⟨a, ha, hv⟩ := Option.bind_eq_some_iff.1 hv
    refine Option.bind_eq_some_iff.2 ⟨a, left.eval_mono h ha, ?_⟩
    split at hv
    · next hdecided => rw [if_pos hdecided, hv]
    · next hundecided => rw [if_neg hundecided, right.eval_mono h hv]
  | .conditional test consequent alternate, v, hv => by
    obtain ⟨a, ha, hv⟩ := Option.bind_eq_some_iff.1 hv
    refine Option.bind_eq_some_iff.2 ⟨a, test.eval_mono h ha, ?_⟩
    split at hv
    · next htrue => rw [if_pos htrue, consequent.eval_mono h hv]
    · next hfalse => rw [if_neg hfalse, alternate.eval_mono h hv]
  -- Of all other kinds of expression no value is known.
  | .member _ _, _, hv => nomatch hv
  | .index _ _, _, hv => nomatch hv
  | .call _ _, _, hv => nomatch hv
  | .chain _, _, hv => nomatch hv
  | .object _, _, hv => nomatch hv
  | .assignment _ _, _, hv => nomatch hv
  | .function _, _, hv => nomatch hv
  | .arrow _, _, hv => nomatch hv
  | .element _ _ _, _, hv => nomatch hv
  | .fragment _, _, hv => nomatch hv
  | .other _ _, _, hv => nomatch hv

theorem evalAll_mono {lookup lookup' : String → Option Value} (h : AnswersMore lookup lookup') :
    ∀ (es : List Expr) {vs : List Value}, evalAll lookup es = some vs → evalAll lookup' es = some vs
  | [], _, hvs => hvs
  | e :: es, vs, hvs => by
    obtain ⟨v, hv, hvs⟩ := Option.bind_eq_some_iff.1 hvs
    obtain ⟨rest, hrest, rfl⟩ := Option.map_eq_some_iff.1 hvs
    refine Option.bind_eq_some_iff.2 ⟨v, e.eval_mono h hv, ?_⟩
    exact Option.map_eq_some_iff.2 ⟨rest, evalAll_mono h es hrest, rfl⟩

end

/-! ### Larger scopes -/

/-- A larger scope answers more, through any number of bindings. -/
theorem Dict.valueOf?_mono {s t : Scope} (h : s.Within t) (depth : Nat) :
    AnswersMore (s.valueOf? depth) (t.valueOf? depth) := by
  induction depth with
  -- With no binding left the scope is not asked.
  | zero => exact fun _ _ hv => hv
  | succ depth ih =>
    intro name v hv
    rcases Option.or_eq_some_iff.1 hv with hglobal | ⟨hname, hv⟩
    · exact Option.or_eq_some_iff.2 (.inl hglobal)
    · obtain ⟨code, hcode, hv⟩ := Option.bind_eq_some_iff.1 hv
      obtain ⟨e, he, hv⟩ := Option.bind_eq_some_iff.1 hv
      -- The name has the same code in both scopes, and that code is evaluated one binding deeper.
      have hbound : (t.get? name).bind (fun code => (Expr.parse? code).bind fun e =>
          e.eval (t.valueOf? depth)) = some v := by
        refine Option.bind_eq_some_iff.2 ⟨code, h name code hcode, ?_⟩
        exact Option.bind_eq_some_iff.2 ⟨e, he, e.eval_mono ih hv⟩
      exact Option.or_eq_some_iff.2 (.inr ⟨hname, hbound⟩)

section

variable {s t : Scope} (h : s.Within t)
include h

/-- A value that is known in a scope is known in every larger one. -/
theorem Script.Expr.valueIn?_mono {e : Expr} {v : Value} (hv : e.valueIn? s = some v) :
    e.valueIn? t = some v :=
  e.eval_mono (Dict.valueOf?_mono h maxDepth) hv

/-- This holds also if the code has to be read first. -/
theorem evaluate?_mono {code : String} {v : Value} (hv : evaluate? code s = some v) :
    evaluate? code t = some v := by
  obtain ⟨e, he, hv⟩ := Option.bind_eq_some_iff.1 hv
  exact Option.bind_eq_some_iff.2 ⟨e, he, e.valueIn?_mono h hv⟩

/-- A literal that counts as true does so in every scope; of anything else the value is asked. -/
theorem truth?_mono {code : String} {b : Bool} (hb : truth? code s = some b) :
    truth? code t = some b := by
  obtain ⟨e, he, hb⟩ := Option.bind_eq_some_iff.1 hb
  refine Option.bind_eq_some_iff.2 ⟨e, he, ?_⟩
  unfold Expr.truthIn? at hb ⊢
  -- A literal that is always true needs no scope.
  by_cases hliteral : isTruthyLiteral e.bare.form = true
  · rw [if_pos hliteral] at hb ⊢
    exact hb
  · rw [if_neg hliteral] at hb ⊢
    obtain ⟨v, hv, rfl⟩ := Option.map_eq_some_iff.1 hb
    exact Option.map_eq_some_iff.2 ⟨v, e.bare.valueIn?_mono h hv, rfl⟩

end

/-! ### Narrowed scopes -/

/-- What is known of a code in the smaller scope is what is known of it in the larger one, or
nothing is known any more. -/
def OnlyForgets (small large : Scope) (code : String) : Prop :=
  (evaluate? code small = none ∨ evaluate? code small = evaluate? code large) ∧
    (truth? code small = none ∨ truth? code small = truth? code large)

/-- So narrowing a scope forgets values and changes none. -/
theorem Dict.Within.onlyForgets {s t : Scope} (h : s.Within t) (code : String) :
    OnlyForgets s t code := by
  constructor
  · cases hv : evaluate? code s with
    | none => exact .inl rfl
    | some v => exact .inr (evaluate?_mono h hv).symm
  · cases hb : truth? code s with
    | none => exact .inl rfl
    | some b => exact .inr (truth?_mono h hb).symm

/-- A spot sees no more than the constants of its mixin. -/
theorem Spot.within_constants (p : Spot) : p.scope.Within p.constants :=
  Dict.within_eraseAll p.constants p.boundNames

/-- A spot further in sees no more than a spot outside of the loops in between. -/
theorem Spot.within_inLoops (p : Spot) (loops : List Loop) :
    Spot.scope { p with loops := p.loops ++ loops } |>.Within p.scope := by
  induction loops generalizing p with
  | nil =>
    rw [List.append_nil]
    exact .refl _
  | cons l loops ih =>
    have hloop : (p.inLoop l).scope.Within p.scope := by
      rw [Spot.scope_inLoop]
      exact Dict.within_eraseAll p.scope _
    -- From inside the first loop on; the loops behind it are the same.
    have hrest := ih (p.inLoop l)
    rw [Spot.inLoop, List.append_assoc, List.singleton_append] at hrest
    exact hrest.trans hloop

/-- A component sees no more than the constants of its module. -/
theorem Lower.Candidate.within_constants (k : Candidate) (constants : Scope)
    (file : Option Path) : (k.component constants file).signature.constants.Within constants :=
  Dict.within_eraseAll constants k.function.bound

/-- **What is known stays known in a larger scope.** Hence a component, which takes the names that
it binds out of the constants of its module, and the loops in it, which take out theirs at any
depth, can make a known value or truth unknown but not change it, also where other constants are
defined through the names that are taken out. -/
theorem known_in_larger_scope :
    (∀ s t : Scope, s.Within t → ∀ code,
      (∀ v, evaluate? code s = some v → evaluate? code t = some v) ∧
        ∀ b, truth? code s = some b → truth? code t = some b) ∧
    ∀ (constants : Scope) (file : Option Path) (k : Lower.Candidate) (around inside : List Loop),
      let component := k.component constants file
      let outer : Spot := ⟨component.signature.constants, around⟩
      let inner : Spot := ⟨component.signature.constants, around ++ inside⟩
      ∀ code, OnlyForgets outer.scope constants code ∧
        OnlyForgets inner.scope outer.scope code := by
  constructor
  · intro s t h code
    exact ⟨fun v hv => evaluate?_mono h hv, fun b hb => truth?_mono h hb⟩
  · -- Binding a component's names takes entries out of the constants of the module, and entering a
    -- loop takes out more.
    intro constants file k around inside component outer inner code
    have houter : outer.scope.Within constants :=
      outer.within_constants.trans (k.within_constants constants file)
    have hinner : inner.scope.Within outer.scope := outer.within_inLoops inside
    exact ⟨houter.onlyForgets code, hinner.onlyForgets code⟩

/-- A label that is defined through the size keeps its value next to a third constant, and has none
where a loop binds the size. -/
theorem known_in_larger_scope_label :
    let s : Scope := Dict.ofList [("LABEL", "'size-' + SIZE"), ("SIZE", "'large'")]
    let t : Scope := s.insert "WIDE" "true"
    let loop : Loop := { iterable := ⟨"sizes"⟩, item := "SIZE" }
    s.Within t ∧ evaluate? "LABEL" t = some (.string "size-large") ∧
      (evaluate? "LABEL" (loop.scopeInside s)).isNone = true := by
  intro s t loop
  have hwithin : s.Within t := by
    intro key value h
    rw [Dict.get?_insert]
    split
    · next hkey =>
      subst hkey
      cases h
    · exact h
  have hvalue : evaluate? "LABEL" s = some (.string "size-large") :=
    evaluate?_eq_string (by decide +kernel) (by decide +kernel)
  have hlost : (evaluate? "LABEL" (loop.scopeInside s)).isNone = true := by decide +kernel
  exact ⟨hwithin, (known_in_larger_scope.1 s t hwithin "LABEL").1 _ hvalue, hlost⟩

end Stencil
