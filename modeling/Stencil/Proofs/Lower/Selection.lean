import Mathlib
import Stencil.Proofs.Lower.EarlyReturn
import Stencil.Proofs.Script.Name
import Stencil.Proofs.Template.Shown

/-!
# Lowering keeps what is selected

A script selects markup by `&&`, `||`, `?:` and by the returns of a function; the tree that it is
lowered to selects nodes by conditions. Given the truth of the tests, both select the same: the same
elements, texts and values, in the same order.

* `Expr.selected` — what an expression selects, read off the expression alone;
* `selectedFirst` — what a function selects: the value of the first return whose test is true;
* `selection` — the view of a tree under the same truth;
* `judged_negated` — the test that a null branch is lowered with is the opposite of the test;
* `shown_lower` — what is shown of the lowered nodes is what is selected, for expressions in either
  place, for all lists of returns, and for the bodies of functions.

The tree holds tests as text, so truth is a matter of texts: `judged` reads the text of a test, goes
down its negations and parentheses, and asks for the truth of what is left. A test that lowering
keeps has the same text on both sides. A test that lowering negates gets a new text, and what the
parser makes of it is all that has to be known: `ReadsByPrecedence` says of a test that `!` and
parentheses have their usual precedence around it. It does not mention the negated test.
-/

namespace Stencil

open Script (Expr Form Child Stmt Body)

/-! ### Tests -/

/-- The truth of tests by their text, negations and parentheses aside. -/
abbrev Truth := String → Bool

/-- The truth of an expression: `!` and parentheses mean what they mean, all else is as given. -/
def Script.Expr.holds (truth : Truth) : Expr → Bool
  | .mk _ (.paren inner) => inner.holds truth
  | .mk _ (.unary .not operand) => !operand.holds truth
  | .mk text _ => truth text

/-- The truth of a test, by what its text reads as. -/
def judged (truth : Truth) (test : Code) : Bool :=
  match Expr.parse? test.text with
  | some e => e.holds truth
  | none => truth test.text

/-- Code is judged by the expression that it reads as. -/
theorem judged_of_parse? {truth : Truth} {text : String} {e : Expr}
    (h : Expr.parse? text = some e) : judged truth ⟨text⟩ = e.holds truth := by
  unfold judged
  rw [h]

/-- Parentheses do not matter to whether a test holds. -/
theorem holds_bare (truth : Truth) (e : Expr) : e.bare.holds truth = e.holds truth := by
  fun_induction Expr.bare e with
  | case1 text inner ih => exact ih
  | case2 e _ => rfl

/-- A form that can stand behind `!` as it is. Operators between operands, assignments, arrow
functions and sequences cannot. -/
def bindsTightly : Form → Bool
  | .binary _ _ _ | .logical _ _ _ | .conditional _ _ _ | .assignment _ _ | .arrow _
  -- Kinds that are not told apart are not assumed to bind tightly.
  | .other .sequence _ | .other .plain _ => false
  | _ => true

/-- The parser reads the text of a test, and what `!` and parentheses make of it, by the usual
precedence. -/
structure ReadsByPrecedence (test : Expr) : Prop where
  /-- The text of the test reads as the test. -/
  whole : Expr.parse? test.text = some test
  /-- Behind the mark of a negation stands its operand. -/
  unmarked : ∀ operand, test.bare.form = .unary .not operand →
    ∃ rest, test.bare.text = "!" ++ rest ∧ Expr.parse? (Text.trimStart rest) = some operand
  /-- A mark in front of what binds tightly negates all of it. -/
  marked : bindsTightly test.bare.form = true →
    ∃ text, Expr.parse? ("!" ++ test.bare.text) = some (.mk text (.unary .not test.bare))
  /-- A mark in front of parentheses negates what is in them. -/
  grouped : ∃ text inner, Expr.parse? ("!(" ++ test.bare.text ++ ")")
    = some (.mk text (.unary .not (.mk inner (.paren test.bare))))

/-- A marked test holds just if its operand does not. -/
theorem holds_of_not (truth : Truth) {e operand : Expr} (h : e.form = .unary .not operand) :
    e.holds truth = !operand.holds truth := by
  obtain ⟨text, form⟩ := e
  cases h
  rfl

section Negated

variable (truth : Truth) {test : Expr} (h : ReadsByPrecedence test)
include h

/-- The text of a test is judged as the test without its parentheses. -/
theorem judged_test : judged truth ⟨test.text⟩ = test.bare.holds truth := by
  rw [judged_of_parse? h.whole, holds_bare]

/-- A test that binds tightly is judged the other way with a mark before it. -/
theorem judged_marked (ht : bindsTightly test.bare.form = true) :
    judged truth ⟨"!" ++ test.bare.text⟩ = !judged truth ⟨test.text⟩ := by
  obtain ⟨text, hread⟩ := h.marked ht
  rw [judged_of_parse? hread, judged_test truth h]
  rfl

/-- Any test is, if it is grouped first. -/
theorem judged_grouped :
    judged truth ⟨"!(" ++ test.bare.text ++ ")"⟩ = !judged truth ⟨test.text⟩ := by
  obtain ⟨text, inner, hread⟩ := h.grouped
  rw [judged_of_parse? hread, judged_test truth h]
  rfl

/-- A test that begins with a mark is judged the other way without it. -/
theorem judged_unmarked {operand : Expr} (hoperand : test.bare.form = .unary .not operand) :
    ∃ rest, test.bare.text.toList = '!' :: rest ∧
      judged truth ⟨Text.trimStart (String.ofList rest)⟩ = !judged truth ⟨test.text⟩ := by
  obtain ⟨rest, htext, hread⟩ := h.unmarked operand hoperand
  refine ⟨rest.toList, by rw [htext, String.toList_append]; rfl, ?_⟩
  rw [String.ofList_toList, judged_of_parse? hread, judged_test truth h,
    holds_of_not truth hoperand, Bool.not_not]

/-- **A negated test is true exactly if the test is not.** -/
theorem judged_negated : judged truth (Lower.negated test) = !judged truth ⟨test.text⟩ := by
  unfold Lower.negated
  dsimp only
  split
  · next operand hform =>
    -- A negation gives up its mark: what is left reads as its operand.
    obtain ⟨rest, htext, hjudged⟩ := judged_unmarked truth h hform
    rw [htext]
    exact hjudged
  -- The forms that get a mark are among those that bind tightly.
  · next hform => exact judged_marked truth h (by rw [hform]; rfl)
  · next hform => exact judged_marked truth h (by rw [hform]; rfl)
  · next hform => exact judged_marked truth h (by rw [hform]; rfl)
  · next hform => exact judged_marked truth h (by rw [hform]; rfl)
  · next hform => exact judged_marked truth h (by rw [hform]; rfl)
  · exact judged_grouped truth h

end Negated

/-! ### What is selected -/

/-- The view of a tree under the truth of its tests: string literals are read as their text, and all
of the attributes is seen. -/
def selection (truth : Truth) : View where
  choice _ := judged truth
  reading code := stringLiteral? code.text
  details := id

mutual

/-- What an expression selects in a place for markup. -/
def Script.Expr.selected (truth : Truth) : Expr → List Shown
  | .mk text form => form.selected truth text

/-- What a form with the given source text selects. Whatever is not markup, a choice, a text or
nothing is a value. -/
def Script.Form.selected (truth : Truth) (text : String) : Form → List Shown
  | .paren inner => inner.selected truth
  | .null => []
  | .string s => [.text s]
  | .element tag attributes cs =>
    if Lower.isGrouping tag then selectedChildren truth cs
    else [.element tag (attributes.filterMap Lower.attribute?) (selectedChildren truth cs)]
  | .fragment cs => selectedChildren truth cs
  | .logical .and left right => if judged truth ⟨left.text⟩ then right.selected truth else []
  | .logical .or left right =>
    if judged truth ⟨left.text⟩ then [(selection truth).interpolated ⟨left.text⟩]
    else right.selected truth
  | .conditional test consequent alternate =>
    if judged truth ⟨test.text⟩ then consequent.selected truth else alternate.selected truth
  | _ => [(selection truth).interpolated ⟨text⟩]

/-- What the children of an element or a fragment select. -/
def selectedChildren (truth : Truth) : List Child → List Shown
  | [] => []
  | c :: rest => selectedChild truth c ++ selectedChildren truth rest

def selectedChild (truth : Truth) : Child → List Shown
  | .text raw => if (Lower.cleanText raw).isEmpty then [] else [.text (Lower.cleanText raw)]
  | .value e => e.selected truth
  | .spread _ => []
  | .empty => []

end

/-- What a list of returns selects: the value of the first one whose test is true. -/
def selectedFirst (truth : Truth) : List (Option Expr × Expr) → List Shown
  | [] => []
  | (none, value) :: _ => value.selected truth
  | (some test, value) :: rest =>
    if judged truth ⟨test.text⟩ then value.selected truth else selectedFirst truth rest

/-- Nothing is selected of a null. -/
theorem selected_of_isNull (truth : Truth) {e : Expr} (h : Lower.isNull e = true) :
    e.selected truth = [] := by
  unfold Lower.isNull at h
  fun_induction Expr.bare e with
  | case1 text inner ih => exact ih h
  | case2 e _ =>
    obtain ⟨text, form⟩ := e
    cases form with
    | null => rfl
    | _ => cases h

/-! ### What can be selected

The expressions that are lowered to elements, texts, values and conditions on them. Calls of `map`
are iterations, and spread children are not lowered. -/

mutual

/-- The expression holds no iteration and no spread children where markup is selected, its string
literals are spelled by their text, and the tests of its null branches read by precedence. -/
def Script.Expr.Selectable : Expr → Prop
  | .mk text form => form.Selectable text

def Script.Form.Selectable (text : String) : Form → Prop
  | .paren inner => inner.Selectable
  | .string s => Script.SpellsString text s
  | .element _ _ cs => SelectableChildren cs
  | .fragment cs => SelectableChildren cs
  | .logical .and _ right => right.Selectable
  | .logical .or _ right => right.Selectable
  | .conditional test consequent alternate =>
    (Lower.isNull consequent = true → ReadsByPrecedence test) ∧ consequent.Selectable ∧
      alternate.Selectable
  | .call callee _ => Lower.mapped? callee = none
  | _ => True

def SelectableChildren : List Child → Prop
  | [] => True
  | c :: rest => SelectableChild c ∧ SelectableChildren rest

def SelectableChild : Child → Prop
  | .text _ => True
  | .value e => e.Selectable
  | .spread _ => False
  | .empty => True

end

/-- The returned value is selectable, and if it is null, its test reads by precedence. -/
structure SelectableReturn (r : Option Expr × Expr) : Prop where
  value : r.2.Selectable
  test : ∀ test, r.1 = some test → Lower.isNull r.2 = true → ReadsByPrecedence test

/-! ### Lowered expressions -/

section Lowered

variable (truth : Truth) (scope : Scope)

/-- A condition shows the branch it takes. -/
theorem shown_condition (test : Code) (a b : Lower.Markup) :
    shownAll (selection truth) scope (Lower.Markup.condition test a b).nodes
      = if judged truth test then shownAll (selection truth) scope a.nodes
        else shownAll (selection truth) scope b.nodes := by
  change shownAll (selection truth) scope
    [.condition test (Node.slotOf a.nodes) (Node.slotOf b.nodes)] = _
  rw [shownAll_singleton, Node.shown, shownBranch_slotOf, shownBranch_slotOf]
  rfl

/-- A condition without an alternate shows nothing where its test fails. -/
theorem shown_condition_empty (test : Code) (a : Lower.Markup) :
    shownAll (selection truth) scope (Lower.Markup.condition test a .empty).nodes
      = if judged truth test then shownAll (selection truth) scope a.nodes else [] :=
  shown_condition truth scope test a .empty

/-- A null branch is left out: what is selected is selected by the opposite test. -/
theorem shown_condition_negated {test : Expr} (h : ReadsByPrecedence test) (a : Lower.Markup) :
    shownAll (selection truth) scope
        (Lower.Markup.condition (Lower.negated test) a .empty).nodes
      = if judged truth ⟨test.text⟩ then [] else shownAll (selection truth) scope a.nodes := by
  rw [shown_condition_empty, judged_negated truth h]
  cases judged truth ⟨test.text⟩ <;> rfl

/-- A string literal that is lowered to an interpolation is read as its text. -/
theorem interpolated_stringLiteral {text s : String} (h : Script.SpellsString text s) :
    (selection truth).interpolated ⟨text⟩ = .text s := by
  refine View.interpolated_of_reading ?_
  change stringLiteral? text = some s
  unfold stringLiteral?
  rw [Script.parse?_stringLiteral h]
  rfl

mutual

/-- A selectable expression is lowered to nodes that show what it selects. -/
theorem shown_expr (operand : Bool) : ∀ e : Expr, e.Selectable →
    shownAll (selection truth) scope (Lower.expr operand e).nodes = e.selected truth
  | .mk text form, h => shown_forms operand text form h

/-- The case by case part of `shown_expr`. -/
theorem shown_forms (operand : Bool) (text : String) : ∀ form : Form, form.Selectable text →
    shownAll (selection truth) scope (Lower.forms operand text form).nodes
      = form.selected truth text
  | .paren inner, h => shown_expr operand inner h
  | .null, _ => rfl
  | .string s, h => by
    cases operand with
    | true => rfl
    | false =>
      -- Outside of choices a literal is lowered as a value, and its text reads as the literal.
      have hread := interpolated_stringLiteral truth h
      exact congrArg (fun x => [x]) hread
  | .element tag attributes cs, h => by
    have hchildren := shown_children cs h
    rw [Lower.forms, Form.selected]
    split
    · exact hchildren
    · change shownAll (selection truth) scope [.element tag _ (Lower.children cs).nodes] = _
      rw [shownAll_singleton, Node.shown, hchildren]
      rfl
  | .fragment cs, h => shown_children cs h
  | .logical .and left right, h => by
    rw [Lower.forms, Form.selected, shown_condition_empty, shown_expr true right h]
  | .logical .or left right, h => by
    rw [Lower.forms, Form.selected, shown_condition, shown_expr true right h]
    rfl
  | .logical .coalesce _ _, _ => rfl
  | .conditional test consequent alternate, h => by
    obtain ⟨htest, hconsequent, halternate⟩ := h
    rw [Lower.forms, Form.selected]
    by_cases hnull : Lower.isNull consequent = true
    · -- The arms change places under the negated test, and the null one is dropped.
      rw [if_pos hnull, shown_condition_negated truth scope (htest hnull),
        selected_of_isNull truth hnull, shown_expr true alternate halternate]
    · rw [if_neg hnull, shown_condition, shown_expr true consequent hconsequent,
        shown_expr true alternate halternate]
  | .call callee arguments, h => by
    rw [Lower.forms, show Lower.mapped? callee = none from h]
    rfl
  | .identifier _, _ => rfl
  | .number _, _ => rfl
  | .boolean _, _ => rfl
  | .template _ _, _ => rfl
  | .unary _ _, _ => rfl
  | .binary _ _ _, _ => rfl
  | .member _ _, _ => rfl
  | .index _ _, _ => rfl
  | .chain _, _ => rfl
  | .object _, _ => rfl
  | .assignment _ _, _ => rfl
  | .function _, _ => rfl
  | .arrow _, _ => rfl
  | .other _ _, _ => rfl

/-- Children show what each of them selects. -/
theorem shown_children : ∀ cs : List Child, SelectableChildren cs →
    shownAll (selection truth) scope (Lower.children cs).nodes = selectedChildren truth cs
  | [], _ => rfl
  | c :: rest, h => by
    change shownAll (selection truth) scope
      ((Lower.child c).nodes ++ (Lower.children rest).nodes) = _
    rw [selectedChildren, shownAll_append, shown_child c h.1, shown_children rest h.2]

/-- A child shows its text, or what its expression selects. -/
theorem shown_child : ∀ c : Child, SelectableChild c →
    shownAll (selection truth) scope (Lower.child c).nodes = selectedChild truth c
  | .text raw, _ => by
    rw [Lower.child, selectedChild]
    split
    · rfl
    · rfl
  | .value e, h => shown_expr false e h
  | .empty, _ => rfl

end

/-! ### Returns -/

/-- A return with its markup: a guarded value is an operand of the choice that guards it. -/
def lowered (r : Option Expr × Expr) : Lower.Return where
  test := r.1
  value := r.2
  markup := Lower.expr r.1.isSome r.2

/-- A return under a test is a condition of the return and the later ones; a null is left out by
turning the test around. -/
theorem nest_guarded (test value : Expr) (rs : List Lower.Return) :
    Lower.nest (lowered (some test, value) :: rs)
      = if Lower.isNull value then .condition (Lower.negated test) (Lower.nest rs) .empty
        else .condition ⟨test.text⟩ (Lower.expr true value) (Lower.nest rs) := rfl

/-- Nested returns select the first one whose test is true: by induction on the returns, where the
later ones are the alternate of the first. -/
theorem shown_nest (rs : List (Option Expr × Expr)) (h : ∀ r ∈ rs, SelectableReturn r) :
    shownAll (selection truth) scope (Lower.nest (rs.map lowered)).nodes
      = selectedFirst truth rs := by
  induction rs with
  | nil => rfl
  | cons r rs ih =>
    have hr := h r List.mem_cons_self
    have hrest := ih fun r hr => h r (List.mem_cons_of_mem _ hr)
    obtain ⟨test, value⟩ := r
    cases test with
    -- Nothing behind a return without a test is reached.
    | none => exact shown_expr truth scope false value hr.value
    | some test =>
      rw [List.map_cons, nest_guarded, selectedFirst, ← hrest]
      by_cases hnull : Lower.isNull value = true
      · rw [if_pos hnull, selected_of_isNull truth hnull]
        exact shown_condition_negated truth scope (hr.test test rfl hnull) _
      · rw [if_neg hnull, shown_condition, shown_expr truth scope true value hr.value]

end Lowered

/-! ### Bodies

The returns that a body is read for carry the markup of their values. -/

/-- The markup of a return is that of its value. -/
def IsLowered (r : Lower.Return) : Prop :=
  r.markup = Lower.expr r.test.isSome r.value

mutual

/-- Every return of a chain is the lowered form of what it returns. -/
theorem isLowered_chainReturns : ∀ s : Stmt, ∀ r ∈ (Lower.chainReturns s).1, IsLowered r
  | .ret (some e), r, hr => by
    cases List.mem_singleton.1 hr
    rfl
  | .block statements, r, hr => by
    obtain ⟨value, markup, hsole, rfl⟩ := Lower.mem_chainReturns_block hr
    rw [Lower.soleReturn_eq] at hsole
    obtain ⟨_, -, ⟨⟩⟩ := Option.map_eq_some_iff.1 hsole
    rfl
  -- The first return is the guarded one, the others stand behind `else`.
  | .branch test consequent alternate, r, hr => by
    obtain ⟨value, markup, hguarded, rfl | hr⟩ := Lower.mem_chainReturns_branch hr
    · rw [Lower.guardedReturn_eq] at hguarded
      obtain ⟨_, -, ⟨⟩⟩ := Option.map_eq_some_iff.1 hguarded
      rfl
    · exact isLowered_alternateReturns alternate r hr
  | .ret none, _, hr | .expression _, _, hr | .declaration _ _, _, hr | .function _, _, hr
  | .other _, _, hr => nomatch hr

theorem isLowered_alternateReturns :
    ∀ s : Option Stmt, ∀ r ∈ (Lower.alternateReturns s).1, IsLowered r
  | none, _, hr => nomatch hr
  | some s, r, hr => isLowered_chainReturns s r hr

end

theorem isLowered_blockReturns (statements : List Stmt) :
    ∀ r ∈ Lower.blockReturns statements, IsLowered r := by
  induction statements with
  | nil => exact nofun
  | cons s rest ih =>
    intro r hr
    rcases Lower.mem_blockReturns_cons hr with hr | hr
    · exact isLowered_chainReturns s r hr
    · exact ih r hr

theorem isLowered_returns (body : Body) : ∀ r ∈ Lower.returns body, IsLowered r := by
  cases body with
  | value e =>
    intro r hr
    cases List.mem_singleton.1 hr
    rfl
  | block statements => exact isLowered_blockReturns statements

/-- The tests and the values that a body returns. -/
def branches (body : Body) : List (Option Expr × Expr) :=
  (Lower.returns body).map fun r => (r.test, r.value)

/-- What a body is read for is its tests and values, lowered. -/
theorem map_lowered_branches (body : Body) : (branches body).map lowered = Lower.returns body := by
  unfold branches
  rw [List.map_map]
  -- Each return holds the markup of its own value.
  have hid : ∀ r ∈ Lower.returns body, (lowered ∘ fun r => (r.test, r.value)) r = r := by
    intro r hr
    have hmarkup := isLowered_returns body r hr
    obtain ⟨test, value, markup⟩ := r
    exact congrArg (Lower.Return.mk test value) hmarkup.symm
  rw [List.map_congr_left hid]
  exact List.map_id _

/-- **Lowering keeps what is selected.** Under every truth of the tests, the nodes of an expression
show what the expression selects, and the nodes of returns show the value of the first return whose
test is true. -/
theorem shown_lower (truth : Truth) (scope : Scope) :
    (∀ (operand : Bool) (e : Expr), e.Selectable →
      shownAll (selection truth) scope (Lower.expr operand e).nodes = e.selected truth) ∧
    (∀ rs : List (Option Expr × Expr), (∀ r ∈ rs, SelectableReturn r) →
      shownAll (selection truth) scope (Lower.nest (rs.map lowered)).nodes
        = selectedFirst truth rs) ∧
    (∀ body : Body, (∀ r ∈ branches body, SelectableReturn r) →
      shownAll (selection truth) scope (Lower.nest (Lower.returns body)).nodes
        = selectedFirst truth (branches body)) := by
  refine ⟨shown_expr truth scope, shown_nest truth scope, fun body h => ?_⟩
  -- The returns of a body are those of its branches.
  rw [← map_lowered_branches body]
  exact shown_nest truth scope (branches body) h

/-- Nothing if both names are true, and an element otherwise: by a choice and by two returns. -/
theorem shown_lower_null_branch :
    let both : Expr :=
      .mk "a && b" (.logical .and (.mk "a" (.identifier "a")) (.mk "b" (.identifier "b")))
    let test : Expr := .mk "(a && b)" (.paren both)
    let nothing : Expr := .mk "null" .null
    let value : Expr := .mk "<em>none</em>" (.element "em" [] [.text "none"])
    let e : Expr := .mk "(a && b) ? null : <em>none</em>" (.conditional test nothing value)
    let rs : List (Option Expr × Expr) := [(some test, nothing), (none, value)]
    let truth : Truth := fun text => text == "a"
    e.Selectable ∧ (∀ r ∈ rs, SelectableReturn r) ∧
      shownAll (selection truth) Dict.empty (Lower.expr false e).nodes = e.selected truth ∧
      shownAll (selection truth) Dict.empty (Lower.nest (rs.map lowered)).nodes
        = selectedFirst truth rs := by
  intro both test nothing value e rs truth
  have htest : ReadsByPrecedence test :=
    { whole := by cbv
      unmarked := nofun
      marked := nofun
      grouped := ⟨"!(a && b)", "(a && b)", by cbv⟩ }
  have he : e.Selectable := ⟨fun _ => htest, trivial, trivial, trivial⟩
  have hrs : ∀ r ∈ rs, SelectableReturn r := by
    intro r hr
    rcases List.mem_cons.1 hr with rfl | hr
    · refine ⟨trivial, fun t ht _ => ?_⟩
      cases ht
      exact htest
    · cases List.mem_singleton.1 hr
      refine ⟨⟨trivial, trivial⟩, fun t ht => ?_⟩
      cases ht
  obtain ⟨hexpr, hreturns, -⟩ := shown_lower truth Dict.empty
  exact ⟨he, hrs, hexpr false e he, hreturns rs hrs⟩

end Stencil
