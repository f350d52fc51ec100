import Stencil.Proofs.Lower.Copying
import Stencil.Proofs.Lower.Selection

/-!
# Lowering callbacks

A call of `map` with a function becomes an iteration, and what the function returns becomes its
body. The function is read as if it were a component: it comes to nothing unless one of the values
it returns is or holds markup. A callback that returns texts or values instead is dropped.

* `Expr.leaves` — the markup, the texts and the values that an expression comes to, read off the
  script alone, where a call of `map` with a function is an iteration over what the function
  returns;
* `Course.Decides` — a run decides the tests as their texts are judged;
* `Expr.KeepsLeaves` — no callback inside an expression is dropped, and the texts in it are those
  that the parser gives it;
* `shown_leaves` — lowering shows the leaves of such expressions, and of the functions in them.

The main theorem is `callback_shows_returned`: in every run that loses no return, the body of an
iteration shows what the callback returns if some returned value holds markup, and nothing
otherwise.
-/

namespace Stencil

open Script (Expr Form Part Child Function Body Stmt)

/-! ### What an expression comes to -/

mutual

/-- The leaves that an expression comes to in a place for markup, under a truth of its tests. -/
def Script.Expr.leaves (truth : Truth) : Expr → List Shown
  | .mk text form => form.leaves truth text

/-- The leaves of a form with the given source text. Whatever is not markup, a choice, an iteration,
a text or nothing is a value. -/
def Script.Form.leaves (truth : Truth) (text : String) : Form → List Shown
  | .paren inner => inner.leaves truth
  | .null => []
  | .string s => [.text s]
  | .element tag attributes cs =>
    if Lower.isGrouping tag then leavesOfChildren truth cs
    else [.element tag (attributes.filterMap Lower.attribute?) (leavesOfChildren truth cs)]
  | .fragment cs => leavesOfChildren truth cs
  | .logical .and left right => if judged truth ⟨left.text⟩ then right.leaves truth else []
  | .logical .or left right =>
    if judged truth ⟨left.text⟩ then [(selection truth).interpolated ⟨left.text⟩]
    else right.leaves truth
  | .conditional test consequent alternate =>
    if judged truth ⟨test.text⟩ then consequent.leaves truth else alternate.leaves truth
  | .call callee arguments =>
    match Lower.mapped? callee with
    | some iterable => leavesOfMap truth iterable text arguments
    | none => [(selection truth).interpolated ⟨text⟩]
  | _ => [(selection truth).interpolated ⟨text⟩]

def leavesOfChildren (truth : Truth) : List Child → List Shown
  | [] => []
  | c :: rest => leavesOfChild truth c ++ leavesOfChildren truth rest

def leavesOfChild (truth : Truth) : Child → List Shown
  | .text raw => if (Lower.cleanText raw).isEmpty then [] else [.text (Lower.cleanText raw)]
  | .value e => e.leaves truth
  | .spread _ => []
  | .empty => []

/-- The leaves of a call of `map` with these arguments. -/
def leavesOfMap (truth : Truth) (iterable : Code) (text : String) : List Part → List Shown
  | .value e :: _ => leavesOfCallback truth iterable text e
  | _ => [(selection truth).interpolated ⟨text⟩]

def leavesOfCallback (truth : Truth) (iterable : Code) (text : String) : Expr → List Shown
  | .mk _ form => leavesOfCallbackForm truth iterable text form

def leavesOfCallbackForm (truth : Truth) (iterable : Code) (text : String) : Form → List Shown
  | .arrow f => [.iteration (Lower.loopOf iterable f.params) (f.leaves truth)]
  | .function f => [.iteration (Lower.loopOf iterable f.params) (f.leaves truth)]
  | _ => [(selection truth).interpolated ⟨text⟩]

/-- The leaves of what a function returns. -/
def Script.Function.leaves (truth : Truth) : Function → List Shown
  | .mk _ _ _ body => body.leaves truth

def Script.Body.leaves (truth : Truth) : Body → List Shown
  | .value e => e.leaves truth
  -- Running to the end of the statements returns nothing.
  | .block statements => (leavesOfStatements truth statements).getD []

/-- The leaves of what statements return, if they return. -/
def leavesOfStatements (truth : Truth) : List Stmt → Option (List Shown)
  | [] => none
  | s :: rest => (s.leaves truth).or (leavesOfStatements truth rest)

def Script.Stmt.leaves (truth : Truth) : Stmt → Option (List Shown)
  | .ret none => some []
  | .ret (some e) => some (e.leaves truth)
  | .branch test consequent alternate =>
    if judged truth ⟨test.text⟩ then consequent.leaves truth else leavesOfAlternate truth alternate
  | .block statements => leavesOfStatements truth statements
  | .expression _ | .declaration _ _ | .function _ | .other _ => none

def leavesOfAlternate (truth : Truth) : Option Stmt → Option (List Shown)
  | none => none
  | some s => s.leaves truth

end

/-- The leaves of a value that may be missing. -/
def leavesOfValue (truth : Truth) (value : Option Expr) : List Shown :=
  value.elim [] (·.leaves truth)

/-- Nothing is shown of a null. -/
theorem leaves_of_isNull (truth : Truth) {e : Expr} (h : Lower.isNull e = true) :
    e.leaves truth = [] := by
  unfold Lower.isNull at h
  fun_induction Expr.bare e with
  | case1 text inner ih => exact ih h
  | case2 e _ =>
    obtain ⟨text, form⟩ := e
    cases form with
    | null => rfl
    | _ => cases h

/-! ### Runs -/

/-- The tests of a run are decided as their texts are judged. -/
def Course.Decides (c : Course) (truth : Truth) : Prop :=
  ∀ test, c.holds test = judged truth ⟨test.text⟩

/-- The run that decides the tests by their texts, and in which nothing else ends it. -/
def Truth.course (truth : Truth) : Course where
  holds test := judged truth ⟨test.text⟩
  other _ := .onward

/-- The leaves of what a function returns if the statement ends it. -/
def Ending.leaves (truth : Truth) : Ending → Option (List Shown)
  | .onward => none
  | .returned value => some (leavesOfValue truth value)
  | .thrown => some []

mutual

/-- What a statement shows is what its run ends in. -/
theorem leaves_eq_run (truth : Truth) : ∀ s : Stmt,
    s.leaves truth = (truth.course.run s).leaves truth
  | .ret none => rfl
  | .ret (some e) => rfl
  -- Both sides take the branch that the truth of the test selects.
  | .branch test consequent alternate => by
    rw [Stmt.leaves, Course.run, leaves_eq_run truth consequent,
      leavesOfAlternate_eq_run truth alternate]
    exact (apply_ite _ _ _ _).symm
  | .block statements => leavesOfStatements_eq_run truth statements
  | .expression _ => rfl
  | .declaration _ _ => rfl
  | .function _ => rfl
  | .other _ => rfl

/-- So it is for statements one after the other. -/
theorem leavesOfStatements_eq_run (truth : Truth) : ∀ statements : List Stmt,
    leavesOfStatements truth statements = (truth.course.runAll statements).leaves truth
  | [] => rfl
  | s :: rest => by
    rw [leavesOfStatements, Course.runAll, leaves_eq_run truth s,
      leavesOfStatements_eq_run truth rest]
    cases truth.course.run s <;> rfl

theorem leavesOfAlternate_eq_run (truth : Truth) : ∀ s : Option Stmt,
    leavesOfAlternate truth s = (truth.course.runOption s).leaves truth
  | none => rfl
  | some s => leaves_eq_run truth s

end

/-- The leaves of a body are those of the value that running it returns. -/
theorem leaves_eq_returned (truth : Truth) (body : Body) :
    body.leaves truth = leavesOfValue truth (truth.course.returned? body) := by
  cases body with
  | value e => rfl
  | block statements =>
    rw [Body.leaves, leavesOfStatements_eq_run, Course.returned?]
    cases truth.course.runAll statements <;> rfl

/-! ### Callbacks that are kept -/

mutual

/-- Every callback that a call of `map` in the expression has returns markup, and does so where it
is read. String literals are spelled by their text, and the tests of null branches read by
precedence. -/
def Script.Expr.KeepsLeaves : Expr → Prop
  | .mk text form => form.KeepsLeaves text

def Script.Form.KeepsLeaves (text : String) : Form → Prop
  | .paren inner => inner.KeepsLeaves
  | .string s => Script.SpellsString text s
  | .element _ _ cs => childrenKeepLeaves cs
  | .fragment cs => childrenKeepLeaves cs
  | .logical .and _ right => right.KeepsLeaves
  | .logical .or _ right => right.KeepsLeaves
  | .conditional test consequent alternate =>
    (Lower.isNull consequent = true → ReadsByPrecedence test) ∧ consequent.KeepsLeaves ∧
      alternate.KeepsLeaves
  | .call callee arguments => (Lower.mapped? callee).isSome = true → argumentsKeepLeaves arguments
  | _ => True

def childrenKeepLeaves : List Child → Prop
  | [] => True
  | c :: rest => childKeepsLeaves c ∧ childrenKeepLeaves rest

def childKeepsLeaves : Child → Prop
  | .value e => e.KeepsLeaves
  | .text _ | .spread _ | .empty => True

/-- A call of `map` without arguments is dropped. -/
def argumentsKeepLeaves : List Part → Prop
  | [] => False
  | .value e :: _ => callbackKeepsLeaves e
  | _ :: _ => True

def callbackKeepsLeaves : Expr → Prop
  | .mk _ form => callbackFormKeepsLeaves form

def callbackFormKeepsLeaves : Form → Prop
  | .arrow f => f.KeepsLeaves
  | .function f => f.KeepsLeaves
  | _ => True

/-- All the returns are read, and one of the values is or holds markup. -/
def Script.Function.KeepsLeaves : Function → Prop
  | .mk _ _ _ body =>
    body.isRead = true ∧ Lower.anyMarkup (Lower.returns body) = true ∧ body.KeepsLeaves

def Script.Body.KeepsLeaves : Body → Prop
  | .value e => e.KeepsLeaves
  | .block statements => statementsKeepLeaves statements

def statementsKeepLeaves : List Stmt → Prop
  | [] => True
  | s :: rest => s.KeepsLeaves ∧ statementsKeepLeaves rest

def Script.Stmt.KeepsLeaves : Stmt → Prop
  | .ret (some e) => e.KeepsLeaves
  | .branch test consequent alternate =>
    (∀ e ∈ consequent.lone?, Lower.isNull e = true → ReadsByPrecedence test) ∧
      consequent.KeepsLeaves ∧ alternateKeepsLeaves alternate
  | .block statements => statementsKeepLeaves statements
  | .ret none | .expression _ | .declaration _ _ | .function _ | .other _ => True

def alternateKeepsLeaves : Option Stmt → Prop
  | none => True
  | some s => s.KeepsLeaves

end

/-! ### Lowered callbacks -/

/-- The markup of a return shows the leaves of its value, and its test can be negated if the value
is null. -/
structure ShowsLeaves (truth : Truth) (scope : Scope) (r : Lower.Return) : Prop where
  markup : shownAll (selection truth) scope r.markup.nodes = r.value.leaves truth
  test : ∀ test ∈ r.test, Lower.isNull r.value = true → ReadsByPrecedence test

/-- Nested returns show the leaves of the value whose test is the first to be true. -/
theorem shown_nest_selected {c : Course} {truth : Truth} (hc : c.Decides truth) (scope : Scope)
    (rs : List Lower.Return) (h : ∀ r ∈ rs, ShowsLeaves truth scope r) :
    shownAll (selection truth) scope (Lower.nest rs).nodes
      = leavesOfValue truth (c.selected? rs) := by
  induction rs with
  | nil => rfl
  | cons r rs ih =>
    obtain ⟨hr, hrest⟩ := List.forall_mem_cons.1 h
    obtain ⟨test, value, markup⟩ := r
    cases test with
    -- Nothing behind a return without a test is reached.
    | none => exact hr.markup
    | some test =>
      have hmarkup : shownAll (selection truth) scope markup.nodes = value.leaves truth := hr.markup
      have hselected : leavesOfValue truth (c.selected? (⟨some test, value, markup⟩ :: rs))
          = if judged truth ⟨test.text⟩ then value.leaves truth
            else shownAll (selection truth) scope (Lower.nest rs).nodes := by
        rw [Course.selected?_guarded, hc test, ih hrest]
        exact apply_ite _ _ _ _
      rw [hselected, Lower.nest]
      dsimp only
      by_cases hnull : Lower.isNull value = true
      · rw [if_pos hnull, leaves_of_isNull truth hnull]
        exact shown_condition_negated truth scope (hr.test test rfl hnull) _
      · rw [if_neg hnull, shown_condition, hmarkup]

/-- What the nodes of a callback show. -/
theorem shown_callback {c : Course} {truth : Truth} (hc : c.Decides truth) (scope : Scope)
    (f : Function) (hloses : ¬ c.LosesReturn f.body)
    (h : ∀ r ∈ Lower.returns f.body, ShowsLeaves truth scope r) :
    shownAll (selection truth) scope (Lower.callbackBody f).nodes
      = if Lower.anyMarkup (Lower.returns f.body) then leavesOfValue truth (c.returned? f.body)
        else [] := by
  obtain ⟨name, params, rest, body⟩ := f
  change ∀ r ∈ Lower.returns body, ShowsLeaves truth scope r at h
  rw [Lower.callbackBody, Function.body]
  -- Without markup among the returns the callback is empty, whatever the run takes.
  by_cases hmarkup : Lower.anyMarkup (Lower.returns body) = true
  · rw [if_pos hmarkup, if_pos hmarkup, shown_nest_selected hc scope _ h,
      c.selected?_returns body hloses]
  · rw [if_neg hmarkup, if_neg hmarkup]
    rfl

/-! One theorem for each function of lowering, by recursion on the script. The scope is that of the
place, and changes in the body of an iteration. -/

section Lowered

variable (truth : Truth)

mutual

/-- A kept expression is lowered to nodes that show its leaves. -/
theorem shown_leaves (scope : Scope) (operand : Bool) : ∀ e : Expr, e.KeepsLeaves →
    shownAll (selection truth) scope (Lower.expr operand e).nodes = e.leaves truth
  | .mk text form, h => shown_leaves_forms scope operand text form h
  termination_by structural e => e

/-- The case by case part of `shown_leaves`. -/
theorem shown_leaves_forms (scope : Scope) (operand : Bool) (text : String) :
    ∀ form : Form, form.KeepsLeaves text →
      shownAll (selection truth) scope (Lower.forms operand text form).nodes
        = form.leaves truth text
  | .paren inner, h => shown_leaves scope operand inner h
  | .null, _ => rfl
  | .string s, h => by
    cases operand with
    | true => rfl
    -- Outside of choices a literal is lowered as a value, and its text reads as the literal.
    | false => exact congrArg (fun x => [x]) (interpolated_stringLiteral truth h)
  | .element tag attributes cs, h => by
    have hchildren := shown_leaves_children scope cs h
    rw [Lower.forms, Form.leaves]
    split
    · exact hchildren
    · change shownAll (selection truth) scope [.element tag _ (Lower.children cs).nodes] = _
      rw [shownAll_singleton, Node.shown, hchildren]
      rfl
  | .fragment cs, h => shown_leaves_children scope cs h
  | .logical .and left right, h => by
    rw [Lower.forms, Form.leaves, shown_condition_empty, shown_leaves scope true right h]
  | .logical .or left right, h => by
    rw [Lower.forms, Form.leaves, shown_condition, shown_leaves scope true right h]
    rfl
  | .conditional test consequent alternate, h => by
    obtain ⟨htest, hconsequent, halternate⟩ := h
    rw [Lower.forms, Form.leaves]
    by_cases hnull : Lower.isNull consequent = true
    · -- The arms change places under the negated test, and the null one is dropped.
      rw [if_pos hnull, shown_condition_negated truth scope (htest hnull),
        leaves_of_isNull truth hnull, shown_leaves scope true alternate halternate]
    · rw [if_neg hnull, shown_condition, shown_leaves scope true consequent hconsequent,
        shown_leaves scope true alternate halternate]
  | .call callee arguments, h => by
    rw [Lower.forms, Form.leaves]
    cases hmapped : Lower.mapped? callee with
    | some iterable =>
      exact shown_leaves_mapCall scope iterable text arguments (h (by rw [hmapped]; rfl))
    | none => rfl
  | .logical .coalesce _ _, _ | .identifier _, _ | .number _, _ | .boolean _, _ | .template _ _, _
  | .unary _ _, _ | .binary _ _ _, _ | .member _ _, _ | .index _ _, _ | .chain _, _ | .object _, _
  | .assignment _ _, _ | .arrow _, _ | .function _, _ | .other _ _, _ => rfl
  termination_by structural form => form

/-- Children show the leaves of each. -/
theorem shown_leaves_children (scope : Scope) : ∀ cs : List Child, childrenKeepLeaves cs →
    shownAll (selection truth) scope (Lower.children cs).nodes = leavesOfChildren truth cs
  | [], _ => rfl
  | c :: rest, h => by
    change shownAll (selection truth) scope
      ((Lower.child c).nodes ++ (Lower.children rest).nodes) = _
    rw [leavesOfChildren, shownAll_append, shown_leaves_child scope c h.1,
      shown_leaves_children scope rest h.2]
  termination_by structural cs => cs

/-- A child shows its text, or the leaves of its expression. -/
theorem shown_leaves_child (scope : Scope) : ∀ c : Child, childKeepsLeaves c →
    shownAll (selection truth) scope (Lower.child c).nodes = leavesOfChild truth c
  | .text raw, _ => by
    rw [Lower.child, leavesOfChild]
    split
    · rfl
    · rfl
  | .value e, h => shown_leaves scope false e h
  | .spread _, _ | .empty, _ => rfl
  termination_by structural c => c

/-- A call of `map` shows what its callback does, round by round. -/
theorem shown_leaves_mapCall (scope : Scope) (iterable : Code) (text : String) :
    ∀ arguments : List Part, argumentsKeepLeaves arguments →
      shownAll (selection truth) scope (Lower.mapCall iterable text arguments).nodes
        = leavesOfMap truth iterable text arguments
  | .value e :: _, h => shown_leaves_callback scope iterable text e h
  | .spread _ :: _, _ | .binding _ :: _, _ | .statement _ :: _, _ => rfl
  termination_by structural arguments => arguments

/-- The callback, behind its parentheses. -/
theorem shown_leaves_callback (scope : Scope) (iterable : Code) (text : String) :
    ∀ e : Expr, callbackKeepsLeaves e →
      shownAll (selection truth) scope (Lower.callback iterable text e).nodes
        = leavesOfCallback truth iterable text e
  | .mk _ form, h => shown_leaves_callbackForm scope iterable text form h
  termination_by structural e => e

/-- A function shows what it returns; what is no function is interpolated with the call. -/
theorem shown_leaves_callbackForm (scope : Scope) (iterable : Code) (text : String) :
    ∀ form : Form, callbackFormKeepsLeaves form →
      shownAll (selection truth) scope (Lower.callbackForm iterable text form).nodes
        = leavesOfCallbackForm truth iterable text form
  | .arrow f, h => by
    change shownAll (selection truth) scope
      [.iteration (Lower.loopOf iterable f.params) (Lower.callbackBody f).nodes] = _
    rw [leavesOfCallbackForm, shownAll_singleton, Node.shown, shown_leaves_function _ f h]
  | .function f, h => by
    change shownAll (selection truth) scope
      [.iteration (Lower.loopOf iterable f.params) (Lower.callbackBody f).nodes] = _
    rw [leavesOfCallbackForm, shownAll_singleton, Node.shown, shown_leaves_function _ f h]
  -- Any other callback is kept as the call that it is.
  | .identifier _, _ | .string _, _ | .number _, _ | .boolean _, _ | .null, _ | .paren _, _
  | .template _ _, _ | .unary _ _, _ | .binary _ _ _, _ | .logical _ _ _, _
  | .conditional _ _ _, _ | .member _ _, _ | .index _ _, _ | .call _ _, _ | .chain _, _
  | .object _, _ | .assignment _ _, _ | .element _ _ _, _ | .fragment _, _ | .other _ _, _ => rfl
  termination_by structural form => form

/-- The nested returns of a function show the leaves of its run. -/
theorem shown_leaves_function (scope : Scope) : ∀ f : Function, f.KeepsLeaves →
    shownAll (selection truth) scope (Lower.callbackBody f).nodes = f.leaves truth
  | .mk name params rest body, ⟨hread, hmarkup, hbody⟩ => by
    -- All returns are read, so in the run by the texts of the tests none is lost.
    have hloses := truth.course.not_losesReturn_of_isRead hread
    have hreturns := showsLeaves_returns scope body hbody
    have hcourse : truth.course.Decides truth := fun _ => rfl
    rw [shown_callback hcourse scope (.mk name params rest body) hloses hreturns, Function.leaves,
      leaves_eq_returned]
    exact if_pos hmarkup
  termination_by structural f => f

/-- Every return of a body shows its leaves. -/
theorem showsLeaves_returns (scope : Scope) : ∀ body : Body, body.KeepsLeaves →
    ∀ r ∈ Lower.returns body, ShowsLeaves truth scope r
  | .value e, h, r, hr => by
    cases List.mem_singleton.1 hr
    exact ⟨shown_leaves scope false e h, nofun⟩
  | .block statements, h, r, hr => showsLeaves_blockReturns scope statements h r hr
  termination_by structural body => body

/-- The returns of a block, statement by statement. -/
theorem showsLeaves_blockReturns (scope : Scope) : ∀ statements : List Stmt,
    statementsKeepLeaves statements →
      ∀ r ∈ Lower.blockReturns statements, ShowsLeaves truth scope r
  | [], _, r, hr => nomatch hr
  | s :: rest, h, r, hr => by
    rcases Lower.mem_blockReturns_cons hr with hr | hr
    · exact showsLeaves_chainReturns scope s h.1 r hr
    · exact showsLeaves_blockReturns scope rest h.2 r hr
  termination_by structural statements => statements

/-- The returns of a chain of branches. -/
theorem showsLeaves_chainReturns (scope : Scope) : ∀ s : Stmt, s.KeepsLeaves →
    ∀ r ∈ (Lower.chainReturns s).1, ShowsLeaves truth scope r
  | .ret (some e), h, r, hr => by
    cases List.mem_singleton.1 hr
    exact ⟨shown_leaves scope false e h, nofun⟩
  | .block statements, h, r, hr => by
    obtain ⟨value, markup, hsole, rfl⟩ := Lower.mem_chainReturns_block hr
    exact ⟨shown_leaves_soleReturn scope false statements h value markup hsole, nofun⟩
  | .branch test consequent alternate, h, r, hr => by
    obtain ⟨htest, hconsequent, halternate⟩ := h
    obtain ⟨value, markup, hguarded, rfl | hr⟩ := Lower.mem_chainReturns_branch hr
    · -- The negated test of a null branch is the one place where the precedence is needed.
      refine ⟨shown_leaves_guardedReturn scope consequent hconsequent value markup hguarded, ?_⟩
      rintro _ ⟨⟩ hnull
      rw [Lower.guardedReturn_eq] at hguarded
      obtain ⟨_, hlone, ⟨⟩⟩ := Option.map_eq_some_iff.1 hguarded
      exact htest value hlone hnull
    · exact showsLeaves_alternateReturns scope alternate halternate r hr
  | .ret none, _, _, hr | .expression _, _, _, hr | .declaration _ _, _, _, hr
  | .function _, _, _, hr | .other _, _, _, hr => nomatch hr
  termination_by structural s => s

/-- The returns of what stands behind `else`. -/
theorem showsLeaves_alternateReturns (scope : Scope) : ∀ s : Option Stmt,
    alternateKeepsLeaves s → ∀ r ∈ (Lower.alternateReturns s).1, ShowsLeaves truth scope r
  | none, _, _, hr => nomatch hr
  | some s, h, r, hr => showsLeaves_chainReturns scope s h r hr
  termination_by structural s => s

/-- A branch whose only statement is a return. -/
theorem shown_leaves_guardedReturn (scope : Scope) : ∀ s : Stmt, s.KeepsLeaves →
    ∀ (value : Expr) (markup : Lower.Markup), Lower.guardedReturn s = some (value, markup) →
      shownAll (selection truth) scope markup.nodes = value.leaves truth
  | .ret (some e), h, value, markup, hs => by
    cases hs
    exact shown_leaves scope true e h
  | .block statements, h, value, markup, hs =>
    shown_leaves_soleReturn scope true statements h value markup hs
  | .ret none, _, _, _, hs | .branch _ _ _, _, _, _, hs | .expression _, _, _, _, hs
  | .declaration _ _, _, _, _, hs | .function _, _, _, _, hs | .other _, _, _, _, hs => nomatch hs
  termination_by structural s => s

/-- A block that is a return and nothing else. -/
theorem shown_leaves_soleReturn (scope : Scope) (operand : Bool) : ∀ statements : List Stmt,
    statementsKeepLeaves statements → ∀ (value : Expr) (markup : Lower.Markup),
      Lower.soleReturn operand statements = some (value, markup) →
        shownAll (selection truth) scope markup.nodes = value.leaves truth
  | [.ret (some e)], h, value, markup, hs => by
    cases hs
    exact shown_leaves scope operand e h.1
  -- Any other block has no sole return.
  | [], _, _, _, hs | [.ret none], _, _, _, hs | [.branch _ _ _], _, _, _, hs
  | [.block _], _, _, _, hs | [.expression _], _, _, _, hs | [.declaration _ _], _, _, _, hs
  | [.function _], _, _, _, hs | [.other _], _, _, _, hs => nomatch hs
  | s :: t :: rest, _, _, _, hs =>
    nomatch (Lower.soleReturn_cons_cons operand s t rest).symm.trans hs
  termination_by structural statements => statements

end

end Lowered

/-! ### Iterations -/

/-- A returned value keeps its leaves, and if it is null, its test reads by precedence. -/
structure KeptReturn (r : Option Expr × Expr) : Prop where
  value : r.2.KeepsLeaves
  test : ∀ test ∈ r.1, Lower.isNull r.2 = true → ReadsByPrecedence test

/-- It is enough that every branch that lowering reads is kept. -/
theorem showsLeaves_of_kept (truth : Truth) (scope : Scope) {body : Body}
    (h : ∀ r ∈ branches body, KeptReturn r) :
    ∀ r ∈ Lower.returns body, ShowsLeaves truth scope r := by
  intro r hr
  have hkept := h (r.test, r.value) (List.mem_map_of_mem hr)
  have hlowered : r.markup = Lower.expr r.test.isSome r.value := isLowered_returns body r hr
  refine ⟨?_, hkept.test⟩
  rw [hlowered]
  exact shown_leaves truth scope r.test.isSome r.value hkept.value

/-- Guarded returns with a return behind them lose nothing. -/
theorem not_losesReturn_guarded (c : Course) {guards : List (Expr × Stmt)}
    (h : ∀ g ∈ guards, g.2.lone?.isSome = true) (value : Option Expr) :
    ¬ c.LosesReturn (.block (guards.map (fun g => .branch g.1 g.2 none) ++ [.ret value])) := by
  have hread : areRead (guards.map (fun g => .branch g.1 g.2 none) ++ [.ret value]) = true := by
    induction guards with
    | nil => rfl
    | cons g guards ih =>
      obtain ⟨hg, hguards⟩ := List.forall_mem_cons.1 h
      -- A guard with a lone return is a chain.
      have hchain : (Stmt.branch g.1 g.2 none).isChain = true := by
        rw [Stmt.isChain, hg]
        rfl
      exact Bool.and_eq_true_iff.2 ⟨hchain, ih hguards⟩
  exact c.not_loses_of_areRead hread

/-- **A callback shows what it returns if it returns markup, and nothing otherwise.** A call of
`map` with a function is lowered to an iteration whose body, in a run that loses no return, shows
the leaves of the value that the function returns, as long as some value that it can return is or
holds markup. If none does, the iteration is empty. -/
theorem callback_shows_returned {f : Function} (hreturns : ∀ r ∈ branches f.body, KeptReturn r) :
    (∀ operand text calleeText object callback rest,
      callback.form = .arrow f ∨ callback.form = .function f →
        (Lower.expr operand (.mk text
            (.call (.mk calleeText (.member object "map")) (.value callback :: rest)))).nodes
          = [.iteration (Lower.loopOf ⟨object.text⟩ f.params) (Lower.callbackBody f).nodes]) ∧
    ∀ (c : Course) (truth : Truth) (scope : Scope), c.Decides truth → ¬ c.LosesReturn f.body →
      shownAll (selection truth) scope (Lower.callbackBody f).nodes
        = if Lower.anyMarkup (Lower.returns f.body) then leavesOfValue truth (c.returned? f.body)
          else [] := by
  constructor
  · rintro operand text calleeText object ⟨callbackText, form⟩ rest (rfl | rfl)
    · rfl
    · rfl
  · -- The nested returns select as the run does, and what is selected shows its leaves.
    intro c truth scope hc hloses
    exact shown_callback hc scope f hloses (showsLeaves_of_kept truth scope hreturns)

/-- A callback that has a text for all but the first item, and a callback in what it shows of it. -/
theorem callback_shows_returned_items :
    let x : Expr := .mk "x" (.identifier "x")
    let t : Expr := .mk "t" (.identifier "t")
    let test : Expr := .mk "i" (.identifier "i")
    let tag : Function := .mk none [.mk "t" (.name "t") none] none
      (.value (.mk "<b>{t}</b>" (.element "b" [] [.value t])))
    let all : Expr := .mk "x.map(t => <b>{t}</b>)"
      (.call (.mk "x.map" (.member x "map")) [.value (.mk "t => <b>{t}</b>" (.arrow tag))])
    let more : Expr := .mk "'more'" (.string "more")
    let item : Expr := .mk "<li>{x.map(t => <b>{t}</b>)}</li>" (.element "li" [] [.value all])
    let f : Function := .mk none [.mk "x" (.name "x") none, .mk "i" (.name "i") none] none
      (.block ([(test, .ret (some more))].map (fun g => .branch g.1 g.2 none)
        ++ [.ret (some item)]))
    let truth : Truth := fun _ => false
    (∀ r ∈ branches f.body, KeptReturn r) ∧ ¬ truth.course.LosesReturn f.body ∧
      shownAll (selection truth) Dict.empty (Lower.callbackBody f).nodes
        = [.element "li" [] [.iteration { iterable := ⟨"x"⟩, item := "t" }
            [.element "b" [] [.interpolation ⟨"t"⟩]]]] := by
  intro x t test tag all more item f truth
  have htag : tag.KeepsLeaves := ⟨rfl, rfl, trivial, trivial⟩
  have hitem : item.KeepsLeaves := ⟨fun _ => htag, trivial⟩
  have hreturns : ∀ r ∈ branches f.body, KeptReturn r := by
    have hbranches : branches f.body = [(some test, more), (none, item)] := rfl
    have hmore : more.KeepsLeaves := by rfl
    rw [hbranches]
    refine List.forall_mem_cons.2 ⟨⟨hmore, ?_⟩, List.forall_mem_singleton.2 ⟨hitem, ?_⟩⟩
    · rintro _ _ ⟨⟩
    · rintro _ ⟨⟩
  have hloses : ¬ truth.course.LosesReturn f.body :=
    not_losesReturn_guarded _ (List.forall_mem_singleton.2 rfl) _
  refine ⟨hreturns, hloses, ?_⟩
  obtain ⟨-, hshown⟩ := callback_shows_returned hreturns
  -- With no test true, the return behind the guard is reached.
  have hreturned : truth.course.returned? f.body = some item := by
    have htest : ¬ truth.course.holds test = true := by decide +kernel
    change (truth.course.runAll [.branch test _ none, .ret (some item)]).followedBy none = _
    rw [Course.runAll, Course.run, if_neg htest]
    rfl
  -- The inner callback shows its parameter, which is no literal.
  have hvalue : (selection truth).interpolated ⟨"t"⟩ = .interpolation ⟨"t"⟩ := by
    have hreading : stringLiteral? "t" = none := by decide +kernel
    simp only [View.interpolated, selection, hreading]
  have hmarkup : Lower.anyMarkup (Lower.returns f.body) = true := rfl
  rw [hshown truth.course truth Dict.empty (fun _ => rfl) hloses, hreturned, if_pos hmarkup,
    ← hvalue]
  rfl

/-- **A callback that returns a value** is dropped. -/
theorem value_callback_dropped :
    let x : Expr := .mk "x" (.identifier "x")
    let f : Function :=
      .mk none [.mk "x" (.name "x") none] none (.value (.mk "x.name" (.member x "name")))
    let empty : Node := .iteration { iterable := ⟨"xs"⟩, item := "x" } []
    let truth : Truth := fun _ => true
    (Expr.parse? "xs.map(x => x.name)").any (fun e => (Lower.expr false e).nodes == [empty])
        = true ∧
      (Lower.callbackBody f).nodes = [] ∧ f.leaves truth = [.interpolation ⟨"x.name"⟩] := by
  intro x f empty truth
  have hreading : stringLiteral? "x.name" = none := by decide +kernel
  -- The callback returns a value, which is a leaf, but its body lowers to nothing.
  have hvalue : f.leaves truth = [(selection truth).interpolated ⟨"x.name"⟩] := rfl
  refine ⟨by decide +kernel, rfl, ?_⟩
  rw [hvalue]
  simp only [View.interpolated, selection, hreading]

end Stencil
