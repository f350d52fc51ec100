import Stencil.Constant.Evaluate
import Stencil.Proofs.Script.Name

/-!
# Constant evaluation and the run

Constant evaluation has to be conservative: what it calls known must be so whenever the template is
rendered. This module says what an expression comes to in a run, without any regard to what is known
before, and proves constant evaluation against that.

* `Datum` — what an expression can come to: a primitive value, or something else (an object, a
  symbol, a big integer) of which only the truth matters;
* `World` — what a run brings along: the values of the names, and what comes of the expressions that
  the primitive operators say nothing about;
* `Evaluates` — the big-step semantics, where `&&`, `||`, `??` and `?:` evaluate no operand that
  they do not need;
* `World.Binds` — the world gives the names of a scope a value of the code they are bound to;
* `World.Determines` — an expression has a value in a world, and no other;
* `evaluates_of_known` — every answer of `evaluate?` is the value, and every answer of `truth?` the
  truth, in every world that binds the scope.

A world may leave the result of an expression open, or have several: the same call need not answer
the same twice. So a known value is shown to be the only one, not just one of them.
-/

namespace Stencil

open Script

/-! ### Data -/

/-- What an expression comes to in a run: a primitive value, or something else with an identity and
a truth of its own. -/
inductive Datum where
  | primitive (v : Value)
  | other (identity : Nat) (truth : Bool)

namespace Datum

/-- The datum counts as true in a test. -/
def truthy : Datum → Bool
  | .primitive v => v.truthy
  | .other _ truth => truth

/-- The datum is undefined or null. -/
def nullish : Datum → Bool
  | .primitive v => v.nullish
  | .other _ _ => false

/-- A left operand with this datum is the value of the logical operator. -/
def decides : LogicalOp → Datum → Bool
  | .and, d => !d.truthy
  | .or, d => d.truthy
  | .coalesce, d => !d.nullish

/-- A primitive is as true as its value. -/
@[simp] theorem truthy_primitive (v : Value) : (primitive v).truthy = v.truthy := rfl

@[simp] theorem decides_primitive (op : LogicalOp) (v : Value) :
    decides op (primitive v) = Value.decides op v := by
  cases op <;> rfl

end Datum

/-! ### Worlds -/

/-- What a run brings along. -/
structure World where
  /-- The values of the names. -/
  value : String → Datum
  /-- What may come of a form that the primitive operators do not settle, from the data of its
  operands. -/
  result : Form → List Datum → Datum → Prop
  /-- Markup, objects, arrays and functions come to something. -/
  exists_literal : ∀ form, isTruthyLiteral form = true → ∃ d, result form [] d
  /-- What they come to counts as true. -/
  truthy_literal : ∀ form d, isTruthyLiteral form = true → result form [] d → d.truthy = true

/-- The form is an operation on operands, or a literal or a name; a form of another kind has any
result whatever. -/
def isOperation : Form → Bool
  | .string _ | .number _ | .boolean _ | .null | .identifier _ | .paren _ | .template _ _
  | .unary _ _ | .binary _ _ _ | .logical _ _ _ | .conditional _ _ _ => true
  | _ => false

mutual

/-- The expression may come to the datum. -/
inductive Evaluates (w : World) : Expr → Datum → Prop where
  | string (t s : String) : Evaluates w (.mk t (.string s)) (.primitive (.string s))
  | number (t : String) (x : Float) : Evaluates w (.mk t (.number x)) (.primitive (.number x))
  | boolean (t : String) (b : Bool) : Evaluates w (.mk t (.boolean b)) (.primitive (.bool b))
  | null (t : String) : Evaluates w (.mk t .null) (.primitive .null)
  -- The globals cannot be bound anew, whatever the world has under their names.
  | globalName {t name : String} {v : Value} (hv : globalValue? name = some v) :
    Evaluates w (.mk t (.identifier name)) (.primitive v)
  | name {t name : String} (hname : globalValue? name = none) :
    Evaluates w (.mk t (.identifier name)) (w.value name)
  | paren {t : String} {inner : Expr} {d : Datum} (h : Evaluates w inner d) :
    Evaluates w (.mk t (.paren inner)) d
  -- A primitive operator applies wherever it has a value on primitive operands; elsewhere the
  -- world answers.
  | template {t : String} {runs : List Quasi} {es : List Expr} {values : List Value}
    (h : EvaluatesAll w es (values.map .primitive)) :
    Evaluates w (.mk t (.template runs es)) (.primitive (.string (interleave runs values)))
  | templateOfOther {t : String} {runs : List Quasi} {es : List Expr} {ds : List Datum} {d : Datum}
    (h : EvaluatesAll w es ds) (hds : ∀ values : List Value, ds ≠ values.map .primitive)
    (hd : w.result (.template runs es) ds d) : Evaluates w (.mk t (.template runs es)) d
  | unary {t : String} {op : UnaryOp} {operand : Expr} {a r : Value}
    (h : Evaluates w operand (.primitive a)) (hr : Value.unary op a = some r) :
    Evaluates w (.mk t (.unary op operand)) (.primitive r)
  | unaryOfOther {t : String} {op : UnaryOp} {operand : Expr} {a d : Datum}
    (h : Evaluates w operand a) (ha : ∀ v r, a = .primitive v → Value.unary op v ≠ some r)
    (hd : w.result (.unary op operand) [a] d) : Evaluates w (.mk t (.unary op operand)) d
  | binary {t : String} {op : BinaryOp} {left right : Expr} {a b r : Value}
    (hleft : Evaluates w left (.primitive a)) (hright : Evaluates w right (.primitive b))
    (hr : Value.binary op a b = some r) :
    Evaluates w (.mk t (.binary op left right)) (.primitive r)
  | binaryOfOther {t : String} {op : BinaryOp} {left right : Expr} {a b d : Datum}
    (hleft : Evaluates w left a) (hright : Evaluates w right b)
    (hab : ∀ u v r, a = .primitive u → b = .primitive v → Value.binary op u v ≠ some r)
    (hd : w.result (.binary op left right) [a, b] d) :
    Evaluates w (.mk t (.binary op left right)) d
  -- The operators that need not evaluate all of their operands.
  | decided {t : String} {op : LogicalOp} {left right : Expr} {a : Datum}
    (h : Evaluates w left a) (ha : a.decides op = true) :
    Evaluates w (.mk t (.logical op left right)) a
  | undecided {t : String} {op : LogicalOp} {left right : Expr} {a d : Datum}
    (h : Evaluates w left a) (ha : a.decides op = false) (hright : Evaluates w right d) :
    Evaluates w (.mk t (.logical op left right)) d
  | consequent {t : String} {test consequent alternate : Expr} {a d : Datum}
    (h : Evaluates w test a) (ha : a.truthy = true) (hd : Evaluates w consequent d) :
    Evaluates w (.mk t (.conditional test consequent alternate)) d
  | alternate {t : String} {test consequent alternate : Expr} {a d : Datum}
    (h : Evaluates w test a) (ha : a.truthy = false) (hd : Evaluates w alternate d) :
    Evaluates w (.mk t (.conditional test consequent alternate)) d
  -- Everything else is up to the world.
  | other {t : String} {form : Form} {d : Datum} (hform : isOperation form = false)
    (hd : w.result form [] d) : Evaluates w (.mk t form) d

/-- The expressions may come to the data, one by one. -/
inductive EvaluatesAll (w : World) : List Expr → List Datum → Prop where
  | nil : EvaluatesAll w [] []
  | cons {e : Expr} {es : List Expr} {d : Datum} {ds : List Datum} (h : Evaluates w e d)
    (hrest : EvaluatesAll w es ds) : EvaluatesAll w (e :: es) (d :: ds)

end

/-! ### What is determined

One lemma for each rule that constant evaluation follows: from what the operands are determined to
be, what the operation is determined to be. That no other rule applies is the inversion of
`Evaluates`. -/

/-- The expression comes to the value in this world, and to nothing else. -/
def World.Determines (w : World) (e : Expr) (v : Value) : Prop :=
  ∀ d, Evaluates w e d ↔ d = .primitive v

/-- The expressions come to the values in this world, and to nothing else. -/
def World.DeterminesAll (w : World) (es : List Expr) (vs : List Value) : Prop :=
  ∀ ds, EvaluatesAll w es ds ↔ ds = vs.map .primitive

section Determines

variable {w : World} {t : String}

/-- To be determined is to have the value, and to have only it. -/
theorem World.Determines.intro {e : Expr} {v : Value} (h : Evaluates w e (.primitive v))
    (hunique : ∀ d, Evaluates w e d → d = .primitive v) : w.Determines e v := by
  intro d
  refine ⟨hunique d, ?_⟩
  rintro rfl
  exact h

/-- A determined expression comes to its value. -/
theorem World.Determines.evaluates {e : Expr} {v : Value} (h : w.Determines e v) :
    Evaluates w e (.primitive v) :=
  (h _).2 rfl

/-- It comes to nothing else. -/
theorem World.Determines.unique {e : Expr} {v : Value} (h : w.Determines e v) {d : Datum}
    (hd : Evaluates w e d) : d = .primitive v :=
  (h d).1 hd

/-- A string literal comes to its text in every world. -/
theorem determines_string (s : String) : w.Determines (.mk t (.string s)) (.string s) := by
  refine .intro (.string t s) fun d hd => ?_
  cases hd with
  | string => rfl
  | other hform _ => cases hform

theorem determines_number (x : Float) : w.Determines (.mk t (.number x)) (.number x) := by
  refine .intro (.number t x) fun d hd => ?_
  cases hd with
  | number => rfl
  | other hform _ => cases hform

theorem determines_boolean (b : Bool) : w.Determines (.mk t (.boolean b)) (.bool b) := by
  refine .intro (.boolean t b) fun d hd => ?_
  cases hd with
  | boolean => rfl
  | other hform _ => cases hform

theorem determines_null : w.Determines (.mk t .null) .null := by
  refine .intro (.null t) fun d hd => ?_
  cases hd with
  | null => rfl
  | other hform _ => cases hform

/-- The names of constants of the language come to those. -/
theorem determines_globalName {name : String} {v : Value} (h : globalValue? name = some v) :
    w.Determines (.mk t (.identifier name)) v := by
  refine .intro (.globalName h) fun d hd => ?_
  -- The name stands for a constant, so the world is not asked for it.
  cases hd with
  | globalName hv =>
    rw [h] at hv
    cases hv
    rfl
  | name hname =>
    rw [h] at hname
    cases hname
  | other hform _ => cases hform

/-- Any other name comes to the primitive that the world gives it. -/
theorem determines_name {name : String} {v : Value} (h : globalValue? name = none)
    (hv : w.value name = .primitive v) : w.Determines (.mk t (.identifier name)) v := by
  refine .intro (hv ▸ .name h) fun d hd => ?_
  cases hd with
  | globalName hglobal =>
    rw [h] at hglobal
    cases hglobal
  | name _ => exact hv
  | other hform _ => cases hform

/-- Parentheses leave the value alone. -/
theorem determines_paren {inner : Expr} {v : Value} (h : w.Determines inner v) :
    w.Determines (.mk t (.paren inner)) v := by
  refine .intro (.paren h.evaluates) fun d hd => ?_
  cases hd with
  | paren hinner => exact h.unique hinner
  | other hform _ => cases hform

/-- A template whose substitutions are determined comes to its text. -/
theorem determines_template {runs : List Quasi} {es : List Expr} {vs : List Value}
    (h : w.DeterminesAll es vs) :
    w.Determines (.mk t (.template runs es)) (.string (interleave runs vs)) := by
  refine .intro (.template ((h _).2 rfl)) fun d hd => ?_
  cases hd with
  | template hes =>
    have hvs := (List.map_inj_right fun _ _ => Datum.primitive.inj).1 ((h _).1 hes)
    rw [hvs]
  -- The substitutions are primitive, so the world is not asked.
  | templateOfOther hes hds _ => exact absurd ((h _).1 hes) (hds vs)
  | other hform _ => cases hform

/-- An operator whose operand is determined comes to what it makes of the value. -/
theorem determines_unary {op : UnaryOp} {operand : Expr} {a r : Value}
    (h : w.Determines operand a) (hr : Value.unary op a = some r) :
    w.Determines (.mk t (.unary op operand)) r := by
  refine .intro (.unary h.evaluates hr) fun d hd => ?_
  -- The operand comes to one value only, and so does the operator on it.
  cases hd with
  | unary hoperand hr' =>
    cases Datum.primitive.inj (h.unique hoperand)
    rw [hr] at hr'
    cases hr'
    rfl
  | unaryOfOther hoperand ha _ => exact absurd hr (ha a r (h.unique hoperand))
  | other hform _ => cases hform

/-- So does one with two determined operands. -/
theorem determines_binary {op : BinaryOp} {left right : Expr} {a b r : Value}
    (hleft : w.Determines left a) (hright : w.Determines right b)
    (hr : Value.binary op a b = some r) : w.Determines (.mk t (.binary op left right)) r := by
  refine .intro (.binary hleft.evaluates hright.evaluates hr) fun d hd => ?_
  -- Both operands come to one value only, and so does the operator on them.
  cases hd with
  | binary hl hr' hres =>
    cases Datum.primitive.inj (hleft.unique hl)
    cases Datum.primitive.inj (hright.unique hr')
    rw [hr] at hres
    cases hres
    rfl
  | binaryOfOther hl hr' hab _ => exact absurd hr (hab a b r (hleft.unique hl) (hright.unique hr'))
  | other hform _ => cases hform

/-- A left operand that decides settles the operator, whatever the right operand is. -/
theorem determines_decided {op : LogicalOp} {left : Expr} (right : Expr) {a : Value}
    (h : w.Determines left a) (ha : Value.decides op a = true) :
    w.Determines (.mk t (.logical op left right)) a := by
  refine .intro (.decided h.evaluates ((Datum.decides_primitive op a).trans ha)) fun d hd => ?_
  -- The left operand has one value, and that one decides.
  cases hd with
  | decided hl _ => exact h.unique hl
  | undecided hl hundecided _ =>
    rw [h.unique hl, Datum.decides_primitive, ha] at hundecided
    cases hundecided
  | other hform _ => cases hform

/-- A logical operator whose left operand does not decide comes to its right one. -/
theorem determines_undecided {op : LogicalOp} {left right : Expr} {a b : Value}
    (h : w.Determines left a) (ha : Value.decides op a = false) (hright : w.Determines right b) :
    w.Determines (.mk t (.logical op left right)) b := by
  have ha' := (Datum.decides_primitive op a).trans ha
  refine .intro (.undecided h.evaluates ha' hright.evaluates) fun d hd => ?_
  -- The left operand has one value, and that one does not decide.
  cases hd with
  | decided hl hdecided =>
    rw [h.unique hl, Datum.decides_primitive, ha] at hdecided
    cases hdecided
  | undecided _ _ hr => exact hright.unique hr
  | other hform _ => cases hform

/-- The branch that is not taken is of no account. -/
theorem determines_conditional {test consequent alternate : Expr} {a v : Value}
    (h : w.Determines test a)
    (hv : w.Determines (if a.truthy then consequent else alternate) v) :
    w.Determines (.mk t (.conditional test consequent alternate)) v := by
  -- The test comes to one value only, so the other branch is out of question.
  cases ha : a.truthy with
  | true =>
    rw [ha] at hv
    refine .intro (.consequent h.evaluates ha hv.evaluates) fun d hd => ?_
    cases hd with
    | consequent _ _ hc => exact hv.unique hc
    | alternate htest hfalse _ =>
      rw [h.unique htest, Datum.truthy_primitive, ha] at hfalse
      cases hfalse
    | other hform _ => cases hform
  | false =>
    rw [ha] at hv
    refine .intro (.alternate h.evaluates ha hv.evaluates) fun d hd => ?_
    cases hd with
    | consequent htest htrue _ =>
      rw [h.unique htest, Datum.truthy_primitive, ha] at htrue
      cases htrue
    | alternate _ _ ha' => exact hv.unique ha'
    | other hform _ => cases hform

/-- No expressions come to no values. -/
theorem determinesAll_nil : w.DeterminesAll [] [] := by
  intro ds
  constructor
  · intro h
    cases h
    rfl
  · rintro rfl
    exact .nil

/-- Expressions are determined one by one. -/
theorem determinesAll_cons {e : Expr} {es : List Expr} {v : Value} {vs : List Value}
    (h : w.Determines e v) (hrest : w.DeterminesAll es vs) :
    w.DeterminesAll (e :: es) (v :: vs) := by
  intro ds
  constructor
  · intro hds
    cases hds with
    | cons hd htail =>
      rw [h.unique hd, (hrest _).1 htail]
      rfl
  · rintro rfl
    exact .cons h.evaluates ((hrest _).2 rfl)

end Determines

/-! ### Constant evaluation -/

/-- What the look-up answers for a name, the name is determined to be. -/
def World.Trusts (w : World) (lookup : String → Option Value) : Prop :=
  ∀ name v, lookup name = some v → ∀ t, w.Determines (.mk t (.identifier name)) v

mutual

/-- **A value that is known is determined**, in every world that bears out the look-up. By the
recursion of constant evaluation: where it needs a value, that value is known. -/
theorem determines_of_eval {w : World} {lookup : String → Option Value}
    (hlookup : w.Trusts lookup) :
    ∀ (e : Expr) {v : Value}, e.eval lookup = some v → w.Determines e v
  | .mk _ (.string s), v, h => by
    cases h
    exact determines_string s
  | .mk _ (.number x), v, h => by
    cases h
    exact determines_number x
  | .mk _ (.boolean b), v, h => by
    cases h
    exact determines_boolean b
  | .mk _ .null, v, h => by
    cases h
    exact determines_null
  | .mk t (.identifier name), v, h => hlookup name v h t
  | .mk _ (.paren inner), v, h => determines_paren (determines_of_eval hlookup inner h)
  | .mk _ (.template runs es), v, h => by
    obtain ⟨vs, hvs, rfl⟩ := Option.map_eq_some_iff.1 h
    exact determines_template (determinesAll_of_evalAll hlookup es hvs)
  | .mk _ (.unary op operand), v, h => by
    obtain ⟨a, ha, hv⟩ := Option.bind_eq_some_iff.1 h
    exact determines_unary (determines_of_eval hlookup operand ha) hv
  | .mk _ (.binary op left right), v, h => by
    obtain ⟨a, ha, h⟩ := Option.bind_eq_some_iff.1 h
    obtain ⟨b, hb, hv⟩ := Option.bind_eq_some_iff.1 h
    have hleft := determines_of_eval hlookup left ha
    have hright := determines_of_eval hlookup right hb
    exact determines_binary hleft hright hv
  | .mk _ (.logical op left right), v, h => by
    obtain ⟨a, ha, h⟩ := Option.bind_eq_some_iff.1 h
    have hleft := determines_of_eval hlookup left ha
    split at h
    · next hdecided =>
      -- The right operand need not be known, and it need not have a value.
      cases h
      exact determines_decided right hleft hdecided
    · next hundecided =>
      exact determines_undecided hleft (Bool.eq_false_iff.2 hundecided)
        (determines_of_eval hlookup right h)
  | .mk _ (.conditional test consequent alternate), v, h => by
    obtain ⟨a, ha, h⟩ := Option.bind_eq_some_iff.1 h
    refine determines_conditional (determines_of_eval hlookup test ha) ?_
    split at h
    · next htrue =>
      rw [if_pos htrue]
      exact determines_of_eval hlookup consequent h
    · next hfalse =>
      rw [if_neg hfalse]
      exact determines_of_eval hlookup alternate h
  -- Of all other kinds of expression no value is known.
  | .mk _ (.member _ _), _, h => nomatch h
  | .mk _ (.index _ _), _, h => nomatch h
  | .mk _ (.call _ _), _, h => nomatch h
  | .mk _ (.chain _), _, h => nomatch h
  | .mk _ (.object _), _, h => nomatch h
  | .mk _ (.assignment _ _), _, h => nomatch h
  | .mk _ (.function _), _, h => nomatch h
  | .mk _ (.arrow _), _, h => nomatch h
  | .mk _ (.element _ _ _), _, h => nomatch h
  | .mk _ (.fragment _), _, h => nomatch h
  | .mk _ (.other _ _), _, h => nomatch h

/-- Known values of expressions are the determined ones, by recursion along the evaluator. -/
theorem determinesAll_of_evalAll {w : World} {lookup : String → Option Value}
    (hlookup : w.Trusts lookup) :
    ∀ (es : List Expr) {vs : List Value}, evalAll lookup es = some vs → w.DeterminesAll es vs
  | [], vs, h => by
    cases h
    exact determinesAll_nil
  | e :: es, vs, h => by
    obtain ⟨v, hv, h⟩ := Option.bind_eq_some_iff.1 h
    obtain ⟨rest, hrest, rfl⟩ := Option.map_eq_some_iff.1 h
    have hhead := determines_of_eval hlookup e hv
    exact determinesAll_cons hhead (determinesAll_of_evalAll hlookup es hrest)

end

/-! ### Scopes -/

/-- The world gives every name of the scope a value of the code it is bound to. -/
def World.Binds (w : World) (scope : Scope) : Prop :=
  ∀ name code e, scope.get? name = some code → Expr.parse? code = some e →
    Evaluates w e (w.value name)

/-- A world that binds a scope bears out its values, through any number of bindings. -/
theorem World.Binds.trusts {w : World} {scope : Scope} (hw : w.Binds scope) (depth : Nat) :
    w.Trusts (scope.valueOf? depth) := by
  induction depth with
  -- With no binding left only the globals are known.
  | zero => exact fun name v h t => determines_globalName h
  | succ depth ih =>
    intro name v h t
    rcases Option.or_eq_some_iff.1 h with hglobal | ⟨hname, h⟩
    · exact determines_globalName hglobal
    · obtain ⟨code, hcode, h⟩ := Option.bind_eq_some_iff.1 h
      obtain ⟨e, he, hv⟩ := Option.bind_eq_some_iff.1 h
      -- The code has one value one binding further down, and the name has a value of the code.
      have hdetermined : w.Determines e v := determines_of_eval ih e hv
      exact determines_name hname (hdetermined.unique (hw name code e hcode he))

/-- A known value in a scope is the determined one in every world that binds the scope. -/
theorem determines_of_valueIn? {w : World} {scope : Scope} (hw : w.Binds scope) {e : Expr}
    {v : Value} (h : e.valueIn? scope = some v) : w.Determines e v :=
  determines_of_eval (hw.trusts maxDepth) e h

/-- A known text, told by what can be computed of it. -/
theorem evaluate?_eq_string {code s : String} {scope : Scope}
    (h : (evaluate? code scope).any Value.isString = true)
    (htext : (evaluate? code scope).map Value.text = some s) :
    evaluate? code scope = some (.string s) := by
  obtain ⟨v, hv, rfl⟩ := Option.map_eq_some_iff.1 htext
  rw [hv] at h ⊢
  cases v with
  | string s => rfl
  | _ => cases h

/-! ### Truth -/

/-- Parentheses are of no account. -/
theorem evaluates_bare_iff {w : World} {e : Expr} {d : Datum} :
    Evaluates w e.bare d ↔ Evaluates w e d := by
  fun_induction Expr.bare e with
  | case1 t inner ih =>
    refine ih.trans ⟨.paren, fun h => ?_⟩
    cases h with
    | paren hinner => exact hinner
    | other hform _ => cases hform
  | case2 e _ => rfl

/-- A logical operator that its left operand decides does not come to the right one. -/
theorem evaluates_logical_iff {w : World} {t : String} {op : LogicalOp} {left right : Expr}
    {d : Datum} : Evaluates w (.mk t (.logical op left right)) d ↔
      ∃ a, Evaluates w left a ∧ if a.decides op then d = a else Evaluates w right d := by
  constructor
  · intro hd
    cases hd with
    | decided ha hdecides => exact ⟨d, ha, by rw [if_pos hdecides]⟩
    | undecided ha hopen hright => exact ⟨_, ha, by rwa [hopen, if_neg Bool.false_ne_true]⟩
    | other hform _ => cases hform
  · rintro ⟨a, ha, hd⟩
    -- Evaluation of the right operand is needed exactly if the left one does not decide.
    split at hd
    · next hdecides =>
      subst hd
      exact .decided ha hdecides
    · next hopen => exact .undecided ha (by simpa using hopen) hd

/-- A literal that counts as true comes to what the world makes of it. -/
theorem evaluates_literal_iff {w : World} {t : String} {form : Form} {d : Datum}
    (h : isTruthyLiteral form = true) : Evaluates w (.mk t form) d ↔ w.result form [] d := by
  have hform : isOperation form = false := by
    cases form <;> first | rfl | cases h
  refine ⟨fun hd => ?_, .other hform⟩
  cases hd with
  | other _ hd => exact hd
  | _ => cases hform

/-- Where the truth of an expression is known, it comes to something, and all it comes to is so. -/
theorem truthy_of_truthIn? {w : World} {scope : Scope} (hw : w.Binds scope) {e : Expr} {b : Bool}
    (h : e.truthIn? scope = some b) :
    (∃ d, Evaluates w e d) ∧ ∀ d, Evaluates w e d → d.truthy = b := by
  -- Truth is asked of the expression without its parentheses.
  simp only [← evaluates_bare_iff (e := e)]
  unfold Expr.truthIn? at h
  revert h
  obtain ⟨t, form⟩ := e.bare
  intro h
  by_cases hliteral : isTruthyLiteral form = true
  · rw [Expr.form, if_pos hliteral] at h
    cases h
    simp only [evaluates_literal_iff hliteral]
    exact ⟨w.exists_literal form hliteral, fun d hd => w.truthy_literal form d hliteral hd⟩
  · rw [Expr.form, if_neg hliteral] at h
    obtain ⟨v, hv, rfl⟩ := Option.map_eq_some_iff.1 h
    have hdetermined := determines_of_valueIn? hw hv
    refine ⟨⟨_, hdetermined.evaluates⟩, fun d hd => ?_⟩
    rw [hdetermined.unique hd, Datum.truthy_primitive]

/-- **Constant evaluation is conservative.** In every world that gives the names of the scope a
value of the code they are bound to, code with a known value has that value and no other, and code
of known truth has a value and only values of that truth. -/
theorem evaluates_of_known (w : World) (scope : Scope) (hw : w.Binds scope) (code : String) :
    (∀ v, evaluate? code scope = some v →
      ∃ e, Expr.parse? code = some e ∧ ∀ d, Evaluates w e d ↔ d = .primitive v) ∧
    (∀ b, truth? code scope = some b →
      ∃ e, Expr.parse? code = some e ∧ (∃ d, Evaluates w e d) ∧
        ∀ d, Evaluates w e d → d.truthy = b) := by
  constructor
  · -- Known values are determined values of the code as it is parsed.
    intro v h
    obtain ⟨e, he, hv⟩ := Option.bind_eq_some_iff.1 h
    exact ⟨e, he, determines_of_valueIn? hw hv⟩
  · intro b h
    obtain ⟨e, he, hb⟩ := Option.bind_eq_some_iff.1 h
    exact ⟨e, he, truthy_of_truthIn? hw hb⟩

/-- A name bound to a text decides `||`, whatever the world makes of everything else. -/
theorem evaluates_of_known_bound_name :
    let scope : Scope := Dict.empty.insert "label" "'x'"
    let w : World :=
      { value := fun name => if name = "label" then .primitive (.string "x") else .other 0 false
        result := fun _ _ d => d = .other 1 true
        exists_literal := fun _ _ => ⟨_, rfl⟩
        truthy_literal := fun _ _ _ h => h ▸ rfl }
    w.Binds scope ∧ truth? "label || fallback" scope = some true ∧
      ∃ e, Expr.parse? "label || fallback" = some e ∧ (∃ d, Evaluates w e d) ∧
        ∀ d, Evaluates w e d → d.truthy = true := by
  intro scope w
  have hbinds : w.Binds scope := by
    intro name code e hcode he
    -- The scope has a single entry, and its code is a string literal.
    change List.lookup name [("label", "'x'")] = some code at hcode
    rw [List.lookup_cons] at hcode
    split at hcode
    · next hname =>
      cases eq_of_beq hname
      cases hcode
      have hx : SpellsString "'x'" "x" := by rfl
      rw [parse?_stringLiteral hx] at he
      cases he
      exact .string _ _
    · cases hcode
  have htruth : truth? "label || fallback" scope = some true := by decide +kernel
  exact ⟨hbinds, htruth, (evaluates_of_known w scope hbinds "label || fallback").2 true htruth⟩

end Stencil
