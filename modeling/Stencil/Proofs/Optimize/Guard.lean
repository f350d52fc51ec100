import Stencil.Proofs.Constant.Evaluates
import Stencil.Proofs.Optimize.Normal

/-!
# Guards and their truth

A guard joins a name with a string literal by `&&`, and the optimizer reduces it to the name. Two
readings of a guard are compared with two readings of its name here.

* In a run (`truthy_of_isGuard`), a guard is true exactly if its name is and its literal is not
  empty, whichever of the two stands first.
* When it is compiled (`truthIn?_of_isGuard`), what is known of a guard is what is known of its
  name, unless the literal is empty: then nothing but false can be known.

So the reduction keeps the truth of a guard exactly where the literal is not empty or the name is
false anyway (`guard_truth_iff`). The empty literal is not looked at by the optimizer, and a test
that is known to be false then stays as a test of the name (`empty_literal_not_reduced`).
-/

namespace Stencil

open Script

/-! ### Guards -/

/-- The expression joins a name with a string literal by `&&`, in either order, and with parentheses
around each of the three or not. -/
inductive Script.Expr.IsGuard (e : Expr) (name literal : String) : Prop
  | nameFirst {left right : Expr} (he : e.bare.form = .logical .and left right)
    (hleft : left.bare.form = .identifier name) (hright : right.bare.form = .string literal)
  | literalFirst {left right : Expr} (he : e.bare.form = .logical .and left right)
    (hleft : left.bare.form = .string literal) (hright : right.bare.form = .identifier name)

/-- What is reduced is a guard. -/
theorem isGuard_of_guardName? {code name : String} (h : guardName? code = some name) :
    ∃ e literal, Expr.parse? code = some e ∧ e.IsGuard name literal := by
  obtain ⟨e, he, hguard⟩ := Option.bind_eq_some_iff.1 h
  refine ⟨e, ?_⟩
  -- The two orders of a guard, each with its operands bare.
  split at hguard
  · next left right hform =>
    split at hguard
    · next literal hleft hright =>
      cases hguard
      exact ⟨literal, he, .nameFirst hform hleft hright⟩
    · next literal _ hleft hright =>
      cases hguard
      exact ⟨literal, he, .literalFirst hform hleft hright⟩
    · cases hguard
  · cases hguard

/-! ### In a run -/

/-- What a name comes to: a global is the same everywhere, any other name is up to the world. -/
def World.named (w : World) (name : String) : Datum :=
  match globalValue? name with
  | some v => .primitive v
  | none => w.value name

/-- A name comes to what the world gives it. -/
theorem evaluates_identifier_iff {w : World} {t name : String} {d : Datum} :
    Evaluates w (.mk t (.identifier name)) d ↔ d = w.named name := by
  unfold World.named
  cases hglobal : globalValue? name with
  | some v => exact determines_globalName hglobal d
  -- The name of no global is up to the world.
  | none =>
    constructor
    · intro hd
      cases hd with
      | globalName hv =>
        rw [hglobal] at hv
        cases hv
      | name _ => rfl
      | other hform _ => cases hform
    · rintro rfl
      exact .name hglobal

/-- An expression evaluates by its form, whatever parentheses are around it. -/
theorem evaluates_of_form {w : World} {e : Expr} {form : Form} {d : Datum}
    (h : e.bare.form = form) : Evaluates w e d ↔ Evaluates w (.mk e.bare.text form) d := by
  rw [← evaluates_bare_iff, ← h]
  cases e.bare
  rfl

/-- A text is true if it is something. -/
theorem truthy_string (s : String) : (Value.string s).truthy = !s.isEmpty := rfl

/-- **A guard is true exactly if its name is and its literal is not empty.** -/
theorem truthy_of_isGuard {w : World} {e : Expr} {name literal : String}
    (h : e.IsGuard name literal) :
    (∃ d, Evaluates w e d) ∧
      ∀ d, Evaluates w e d → d.truthy = ((w.named name).truthy && !literal.isEmpty) := by
  -- The literal comes to itself; so the guard comes to the name's datum, or to one of the two
  -- texts.
  have hliteral : ∀ t d, Evaluates w (.mk t (.string literal)) d ↔
      d = .primitive (.string literal) := fun t => determines_string literal
  cases h with
  | nameFirst he hleft hright =>
    simp only [evaluates_of_form he, evaluates_logical_iff, Datum.decides, evaluates_of_form hleft,
      evaluates_of_form hright, evaluates_identifier_iff, hliteral, exists_eq_left]
    -- A false name stops the evaluation in front of the literal.
    cases hname : (w.named name).truthy with
    | true => simp [truthy_string]
    | false => simp [hname]
  | literalFirst he hleft hright =>
    simp only [evaluates_of_form he, evaluates_logical_iff, Datum.decides, evaluates_of_form hleft,
      evaluates_of_form hright, evaluates_identifier_iff, hliteral, exists_eq_left]
    -- An empty literal stops it in front of the name.
    cases hempty : literal.isEmpty with
    | true => simp [truthy_string, hempty]
    | false => simp [truthy_string, hempty]

/-! ### What is known -/

/-- Parentheses leave the value alone. -/
theorem eval_bare (lookup : String → Option Value) (e : Expr) :
    e.bare.eval lookup = e.eval lookup := by
  fun_induction Expr.bare e with
  | case1 text inner ih => exact ih
  | case2 e _ => rfl

/-- So an expression is evaluated by the form that it has without them. -/
theorem eval_of_form {lookup : String → Option Value} {e : Expr} {form : Form}
    (h : e.bare.form = form) : e.eval lookup = form.eval lookup := by
  rw [← eval_bare, ← h]
  cases e.bare
  rfl

/-- The truth of an expression that is no literal is that of its value. -/
theorem truthIn?_of_form {scope : Scope} {e : Expr} {form : Form} (h : e.bare.form = form)
    (hform : isTruthyLiteral form = false) :
    e.truthIn? scope = (form.eval (scope.valueOf? maxDepth)).map Value.truthy := by
  unfold Expr.truthIn? Expr.valueIn?
  rw [h, hform, eval_bare, eval_of_form h]
  rfl

/-- The truth of a name is that of its value in the scope. -/
theorem truth?_name {name : String} (h : IsName name) (scope : Scope) :
    truth? name scope = (scope.valueOf? maxDepth name).map Value.truthy := by
  unfold truth?
  rw [parse?_name h]
  rfl

/-- What is known of a guard is what is known of its name, but that an empty literal in front makes
it false, and one behind a name of known truth does. -/
theorem truthIn?_of_isGuard {scope : Scope} {e : Expr} {name literal : String} (hname : IsName name)
    (h : e.IsGuard name literal) :
    e.truthIn? scope = (truth? name scope).map (· && !literal.isEmpty) ∨
      literal = "" ∧ e.truthIn? scope = some false := by
  rw [truth?_name hname]
  cases h with
  | nameFirst he hleft hright =>
    refine .inl ?_
    rw [truthIn?_of_form he rfl]
    simp only [Form.eval, eval_of_form hleft, eval_of_form hright]
    cases scope.valueOf? maxDepth name with
    | none => rfl
    | some v => cases hv : v.truthy <;> simp [Value.decides, hv, truthy_string]
  | literalFirst he hleft hright =>
    rw [truthIn?_of_form he rfl]
    simp only [Form.eval, eval_of_form hleft, eval_of_form hright, Option.bind_some]
    -- Behind an empty literal the name is not looked at, so false is known even where the name is
    -- not.
    by_cases hempty : literal = ""
    · subst hempty
      exact .inr ⟨rfl, rfl⟩
    · refine .inl ?_
      cases scope.valueOf? maxDepth name <;> simp [Value.decides, truthy_string, hempty]

/-- Where the truth of a guard is known, that of its name is known to be the same exactly if the
literal is not empty or the name is false. -/
theorem truth?_name_iff {scope : Scope} {e : Expr} {name literal : String} {b : Bool}
    (hname : IsName name) (h : e.IsGuard name literal) (hb : e.truthIn? scope = some b) :
    truth? name scope = some b ↔ literal ≠ "" ∨ truth? name scope = some false := by
  -- The truth of the guard is that of the name, or it is false by an empty literal.
  rcases truthIn?_of_isGuard hname h with hknown | ⟨rfl, hfalse⟩
  · rw [hb] at hknown
    obtain ⟨c, hc, rfl⟩ := Option.map_eq_some_iff.1 hknown.symm
    rw [hc]
    by_cases hempty : literal = "" <;> cases c <;> simp [hempty]
  · rw [hb] at hfalse
    cases hfalse
    simp

/-! ### The branch that is taken -/

/-- A condition whose reduced test is known gives way to a branch, among siblings and in a slot. -/
theorem simplify_condition {scope : Scope} {test : Code} {b : Bool}
    (h : truth? (reduceTest test).text scope = some b) (consequent alternate : Option Node) :
    (Node.condition test consequent alternate).simplifyAmong scope =
        simplifyTaken scope (if b then consequent else alternate) ∧
      (Node.condition test consequent alternate).simplifySlot scope =
        simplifyBranch scope (if b then consequent else alternate) := by
  cases b <;> simp [Node.simplifyAmong, Node.simplifySlot, h]

/-- **A guard reduced to its name keeps its truth exactly where the literal is not empty or the name
is false.** In every world the guard and the name both come to something, and they agree in truth
under that condition alone. Where the truth of the guard is known, under the same condition it is
known of the name, and the condition takes the branch of the guard. -/
theorem guard_truth_iff (test : Code) (scope : Scope) (name : String)
    (h : guardName? test.text = some name) :
    ∃ e literal, Expr.parse? test.text = some e ∧ e.IsGuard name literal ∧
      Expr.parse? (reduceTest test).text = some (.mk name (.identifier name)) ∧
      (∀ w : World, (∃ d, Evaluates w e d) ∧ (∃ d, Evaluates w (.mk name (.identifier name)) d) ∧
        ∀ d d', Evaluates w e d → Evaluates w (.mk name (.identifier name)) d' →
          (d'.truthy = d.truthy ↔ literal ≠ "" ∨ d'.truthy = false)) ∧
      ∀ b, truth? test.text scope = some b →
        (truth? (reduceTest test).text scope = some b ↔
          literal ≠ "" ∨ truth? name scope = some false) ∧
        (literal ≠ "" ∨ truth? name scope = some false → ∀ consequent alternate,
          (Node.condition test consequent alternate).simplifyAmong scope =
              simplifyTaken scope (if b then consequent else alternate) ∧
            (Node.condition test consequent alternate).simplifySlot scope =
              simplifyBranch scope (if b then consequent else alternate)) := by
  obtain ⟨e, literal, he, hguard⟩ := isGuard_of_guardName? h
  have hname : IsName name := isName_of_guardName? h
  have hreduced : (reduceTest test).text = name := by
    unfold reduceTest
    rw [h]
  rw [hreduced]
  refine ⟨e, literal, he, hguard, parse?_name hname, ?_, ?_⟩
  · intro w
    obtain ⟨hexists, htruth⟩ := truthy_of_isGuard (w := w) hguard
    refine ⟨hexists, ⟨_, evaluates_identifier_iff.2 rfl⟩, fun d d' hd hd' => ?_⟩
    rw [htruth d hd, evaluates_identifier_iff.1 hd']
    -- The literal is a text, so it is true exactly if it is not empty.
    by_cases hempty : literal = "" <;> cases (w.named name).truthy <;> simp [hempty]
  · intro b hb
    have hknown : e.truthIn? scope = some b := by
      unfold truth? at hb
      rwa [he] at hb
    have hiff := truth?_name_iff hname hguard hknown
    refine ⟨hiff, fun hkept => simplify_condition ?_⟩
    rw [hreduced]
    exact hiff.2 hkept

/-- A literal in front of a name in parentheses, where the name is bound to a text. -/
theorem guard_truth_iff_bound_name :
    let scope : Scope := Dict.empty.insert "title" "'a'"
    let test : Code := ⟨"'x' && (title)"⟩
    guardName? test.text = some "title" ∧ truth? test.text scope = some true ∧
      (Node.condition test (some (.text "yes")) (some (.text "no"))).simplifySlot scope =
        some (.text "yes") := by
  intro scope test
  have hguard : guardName? test.text = some "title" := by decide +kernel
  have htruth : truth? test.text scope = some true := by decide +kernel
  have hreduced : truth? (reduceTest test).text scope = some true := by decide +kernel
  -- The name is bound to a text that is something, so the guard is as true as the name.
  obtain ⟨_, _, -, -, -, -, hknown⟩ := guard_truth_iff test scope "title" hguard
  obtain ⟨hiff, hbranch⟩ := hknown true htruth
  exact ⟨hguard, htruth, (hbranch (hiff.1 hreduced) _ _).2⟩

/-- **An empty literal is lost.** The guard is known to be false, and still its condition stays, as
one of the name, which may be true. -/
theorem empty_literal_not_reduced :
    let test : Code := ⟨"'' && x"⟩
    guardName? test.text = some "x" ∧ truth? test.text Dict.empty = some false ∧
      (Node.condition test (some (.text "yes")) (some (.text "no"))).simplifySlot Dict.empty =
        some (.condition ⟨"x"⟩ (some (.text "yes")) (some (.text "no"))) ∧
      ∃ w : World, w.Binds Dict.empty ∧ ∃ e e' d d',
        Expr.parse? test.text = some e ∧ Expr.parse? "x" = some e' ∧
        Evaluates w e d ∧ Evaluates w e' d' ∧ d.truthy = false ∧ d'.truthy = true := by
  intro test
  have hguard : guardName? test.text = some "x" := by decide +kernel
  have htruth : truth? test.text Dict.empty = some false := by decide +kernel
  have hunknown : truth? "x" Dict.empty = none := by decide +kernel
  have hreduced : reduceTest test = ⟨"x"⟩ := by
    unfold reduceTest
    rw [hguard]
  let w : World :=
    { value := fun _ => .primitive (.bool true)
      result := fun _ _ d => d = .other 0 true
      exists_literal := fun _ _ => ⟨_, rfl⟩
      truthy_literal := fun _ _ _ h => h ▸ rfl }
  have hbinds : w.Binds Dict.empty := nofun
  obtain ⟨e, he, hknown⟩ := Option.bind_eq_some_iff.1 htruth
  obtain ⟨⟨d, hd⟩, hfalse⟩ := truthy_of_truthIn? hbinds hknown
  refine ⟨hguard, htruth, ?_, w, hbinds, e, _, d, _, he,
    parse?_name (isName_of_guardName? hguard), hd, evaluates_identifier_iff.2 rfl, hfalse d hd, rfl⟩
  rw [Node.simplifySlot, hreduced]
  simp only [hunknown]
  rfl

end Stencil
