import Stencil.Proofs.Script.Operand

/-!
# Names in what is read

An identifier that the parser answers carries the name that its word stands for, escapes resolved.
`Expr.parse?` never answers a name that would not read back: down the parentheses and the operators
of what it reads, every identifier is a name in the sense of `IsName` (`namesRead_of_parse?`).

The proof is partial correctness of the grammar. `Yields p P` says that whatever `p` answers
satisfies `P`, whatever it was run on; it is carried through `bind` and through the loop `grow`, so
each rule is walked through along its own text. Only three steps have something to say: `primary` on
a word, `primary` on a parenthesis, and `operation` on the two operands. Every other rule closes a
form whose inside is not looked into.

`await` is a name inside a function that does not wait, so the invariant of a rule asks that its
context waits (`Goal.NamesRead`). The rules that the invariant passes through keep that part of the
context.
-/

namespace Stencil.Script

mutual

/-- The identifiers of an expression, down its parentheses and operators, are names. -/
def Expr.NamesRead : Expr → Prop
  | .mk _ form => form.NamesRead

/-- The identifiers of a form, down its parentheses and operators, are names. -/
def Form.NamesRead : Form → Prop
  | .identifier w => IsName w
  | .paren inner => inner.NamesRead
  | .binary _ left right => left.NamesRead ∧ right.NamesRead
  | .logical _ left right => left.NamesRead ∧ right.NamesRead
  | _ => True

end

/-- Parentheses hide no name. -/
theorem Expr.NamesRead.bare {e : Expr} (h : e.NamesRead) : e.bare.NamesRead := by
  fun_induction Expr.bare e with
  | case1 text inner ih => exact ih h
  | case2 e _ => exact h

namespace Parser

variable {α β : Type} {P : α → Prop} {Q : β → Prop}

/-! ### What a parser answers -/

/-- Whatever the parser answers satisfies `P`. -/
def Yields (p : Parser α) (P : α → Prop) : Prop :=
  ∀ s a s', p s = some (a, s') → P a

/-- What is answered without reading has to satisfy the condition by itself. -/
theorem Yields.pure {a : α} (h : P a) : Yields (pure a) P := by
  intro s b s' hs
  cases hs
  exact h

/-- A parser that never answers has nothing to satisfy. -/
theorem Yields.failure : Yields (failure : Parser α) P := nofun

/-- In a sequence the second parser may use what the first one yields. -/
theorem Yields.bind {p : Parser α} {f : α → Parser β} (hp : Yields p P)
    (hf : ∀ a, P a → Yields (f a) Q) : Yields (p >>= f) Q := by
  intro s b s' hs
  obtain ⟨⟨a, s''⟩, ha, hb⟩ := Option.bind_eq_some_iff.1 hs
  exact hf a (hp s a s'' ha) s'' b s' hb

/-- A first part about whose answer nothing needs to be known. -/
theorem Yields.after {p : Parser α} {f : α → Parser β} (hf : ∀ a, Yields (f a) Q) :
    Yields (p >>= f) Q := by
  have hp : Yields p fun _ => True := fun _ _ _ _ => trivial
  exact hp.bind fun a _ => hf a

/-- A parser chosen by a test yields what both choices yield. -/
theorem Yields.ite {q : Prop} [Decidable q] {p p' : Parser α} (hp : Yields p P)
    (hp' : Yields p' P) : Yields (if q then p else p') P := by
  split
  · exact hp
  · exact hp'

/-- One more answer of a repeated rule. -/
theorem yields_some {p : Parser α} (h : Yields p P) :
    Yields (do pure (some (← p))) fun o => ∀ a ∈ o, P a := by
  refine .bind h fun a ha => .pure fun b hb => ?_
  cases hb
  exact ha

/-- Behind a condition that was required it holds. -/
theorem Yields.require (q : Bool) : Yields (require q) fun _ => q = true := by
  cases q
  · exact .failure
  · exact .pure rfl

/-- An attempt yields what the parser does, or nothing. -/
theorem Yields.attempt {p : Parser α} (hp : Yields p P) :
    Yields (attempt p) fun o => ∀ a ∈ o, P a := by
  refine .after fun s => ?_
  split
  · next a rest h =>
    refine .after fun _ => .pure fun b hb => ?_
    cases hb
    exact hp s a rest h
  · exact .pure nofun

/-- What one extension keeps, the loop keeps. -/
theorem Yields.grow {p : α → Parser (Option α)}
    (hp : ∀ a, P a → Yields (p a) fun o => ∀ b ∈ o, P b) {a : α} (ha : P a) :
    Yields (grow p a) P := by
  -- By induction on the bound; the loop stops where nothing extends the answer.
  have hbound : ∀ bound a, P a → Yields (growUpTo p bound a) P := by
    intro bound
    induction bound with
    | zero => exact fun a ha => .pure ha
    | succ bound ih =>
      intro a ha
      refine .bind (hp a ha) fun o ho => ?_
      cases o with
      | none => exact .pure ha
      | some b => exact ih b (ho b rfl)
  exact .after fun s => hbound _ a ha

/-- To close a form is to make an expression of it. -/
theorem Yields.close {start : List Char} {form : Form} (h : form.NamesRead) :
    Yields (close start form) Expr.NamesRead := by
  intro s e s' hs
  cases hs
  exact h

/-- The next token, if it is a word, is spelled with identifier characters. -/
theorem Yields.peek :
    Yields peek fun lexeme => ∀ w escaped, lexeme.token = .word w escaped → IsWord w.toList := by
  refine .after fun s => ?_
  split
  · next lexeme h =>
    refine .pure fun w escaped hw => ?_
    obtain ⟨⟨lineEnd, start⟩, -, h⟩ := Option.bind_eq_some_iff.1 h
    obtain ⟨⟨token, rest⟩, htoken, h⟩ := Option.bind_eq_some_iff.1 h
    cases h
    cases hw
    -- The token is the one that stands behind the blanks.
    exact isWord_of_tokenAt htoken
  · exact .failure

/-! ### The invariant of the grammar -/

/-- What is kept of the answer to each nonterminal. -/
def Goal.NamesRead (g : Goal) : g.Out → Prop :=
  match g with
  | .expression c | .assignment c | .binary c _ | .unary c | .access c _ =>
    fun e => c.awaits = true → e.NamesRead
  | .markup _ => Expr.NamesRead
  | .target _ | .pattern _ | .statement _ _ => fun _ => True

/-- The grammar answers names that read back. -/
def NamesRead (grammar : Grammar) : Prop :=
  ∀ g, Yields (grammar g) (Goal.NamesRead g)

variable {grammar : Grammar} {c : Context}

/-! ### Operands -/

/-- A template keeps no name of its own: its substitutions are expressions of the grammar. -/
theorem yields_template (start : List Char) : Yields (template grammar c start) Expr.NamesRead := by
  refine .after fun parts => ?_
  dsimp only
  split
  · exact .close trivial
  · exact .failure

/-- The word `new` begins no name. -/
theorem yields_newAfterWord (start : List Char) :
    Yields (newAfterWord grammar c start) Expr.NamesRead := by
  refine .after fun dot => ?_
  split
  · exact .after fun _ => .close trivial
  · refine .after fun _ => .after fun _ => .after fun parenthesis => ?_
    split
    · exact .after fun _ => .close trivial
    · exact .after fun _ => .close trivial

/-- A call that loads a module is no name. -/
theorem yields_importCall (start : List Char) :
    Yields (importCall grammar c start) Expr.NamesRead :=
  .after fun _ => .after fun _ => .after fun _ => .close trivial

theorem yields_importAfterWord (start : List Char) :
    Yields (importAfterWord grammar c start) Expr.NamesRead := by
  refine .after fun dot => ?_
  split
  · refine .after fun own => ?_
    split
    · exact .close trivial
    · exact .after fun _ => .after fun _ => .after fun _ => yields_importCall start
  · exact yields_importCall start

/-- A word on its own is an identifier only if it is free, and it consists of identifier characters
because it is a word. -/
theorem yields_primaryWord (hc : c.awaits = true) (lexeme : Lexeme) {w : String} (escaped : Bool)
    (hw : IsWord w.toList) : Yields (primaryWord grammar c lexeme w escaped) Expr.NamesRead := by
  refine .after fun async => ?_
  split
  · exact .after fun _ => .after fun _ => .after fun _ => .close trivial
  refine .after fun _ => ?_
  split
  · exact .close trivial
  · exact .close trivial
  · exact .close trivial
  · exact .close trivial
  · exact .after fun _ => .close trivial
  · exact .after fun _ => .close trivial
  · exact yields_newAfterWord _
  · exact yields_importAfterWord _
  · exact .after fun _ => .after fun _ => .after fun _ => .after fun _ => .close trivial
  · -- The context of the question waits, so the word is free where `IsName` asks.
    refine .bind (.require _) fun _ hfree => .close ⟨hw, ?_⟩
    simp only [isName, hc, Bool.and_eq_true] at hfree ⊢
    exact ⟨hfree.1, rfl⟩

/-- A primary expression is a name only by `isName`, where waiting for a value is allowed. -/
theorem yields_primary (hg : NamesRead grammar) (hc : c.awaits = true) :
    Yields (primary grammar c) Expr.NamesRead := by
  refine .bind .peek fun lexeme hlexeme => ?_
  dsimp only
  split
  · next w escaped hw => exact yields_primaryWord hc lexeme escaped (hlexeme w escaped hw)
  · exact .after fun _ => .close trivial
  · exact .after fun _ => .close trivial
  · exact .after fun _ => .close trivial
  · -- The invariant passes through a parenthesis.
    refine .after fun _ => .bind (hg (.expression c.withIn)) fun inner hinner => ?_
    exact .after fun _ => .close (hinner hc)
  · exact .after fun _ => .after fun _ => .close trivial
  · exact .after fun _ => .after fun _ => .close trivial
  · exact .after fun _ => yields_template _
  · exact hg (.markup c)
  · exact .after fun _ => .after fun _ => .after fun _ => .close trivial
  · split
    · exact .after fun _ => .close trivial
    · exact .failure
  · split
    · exact .after fun _ => .close trivial
    · exact .failure
  · exact .failure

/-- A member is no name, whatever its object is. -/
theorem yields_memberAfterDot (start : List Char) (object : Expr) :
    Yields (memberAfterDot start object) Expr.NamesRead := by
  refine .after fun lexeme => ?_
  split
  · exact .after fun _ => .close trivial
  · exact .after fun _ => .close trivial
  · exact .failure

theorem yields_memberInBrackets (start : List Char) (object : Expr) :
    Yields (memberInBrackets grammar c start object) Expr.NamesRead :=
  .after fun _ => .after fun _ => .close trivial

theorem yields_callInParens (start : List Char) (callee : Expr) :
    Yields (callInParens grammar c start callee) Expr.NamesRead :=
  .after fun _ => .close trivial

/-- One more link leaves no bare name. -/
theorem yields_link (calls : Bool) (start : List Char) (chain : Link) :
    Yields (link grammar c calls start chain) fun o => ∀ l ∈ o, l.expr.NamesRead := by
  -- Every link closes a form that is not looked into; only the bracket around it differs.
  have extended : ∀ {p : Parser Expr} {f : Expr → Link}, Yields p Expr.NamesRead →
      (∀ e, (f e).expr = e) →
      Yields (do pure (some (f (← p)))) fun o => ∀ l ∈ o, l.expr.NamesRead := by
    intro p f hp hf
    refine .bind hp fun e he => .pure fun l hl => ?_
    cases hl
    rw [hf]
    exact he
  refine .after fun lexeme => ?_
  split
  · exact .after fun _ => extended (yields_memberAfterDot _ _) fun _ => rfl
  · exact .after fun _ => extended (yields_memberInBrackets _ _) fun _ => rfl
  · split
    · exact .after fun _ => extended (yields_callInParens _ _) fun _ => rfl
    · exact .pure nofun
  · refine .after fun _ => .after fun _ => .after fun parts => ?_
    exact extended (.close trivial) fun _ => rfl
  · refine .after fun _ => .after fun _ => .after fun next => ?_
    split
    · exact .after fun _ => extended (yields_memberInBrackets _ _) fun _ => rfl
    · exact .after fun _ => extended (yields_callInParens _ _) fun _ => rfl
    · exact extended (yields_memberAfterDot _ _) fun _ => rfl
  · exact .pure nofun

/-- A chain without links is its primary expression. -/
theorem yields_access (hg : NamesRead grammar) (hc : c.awaits = true) (calls : Bool) :
    Yields (access grammar c calls) Expr.NamesRead := by
  refine .after fun start => .bind (yields_primary hg hc) fun e he => ?_
  have hchain : Yields (grow (link grammar c calls start) ⟨e, false⟩) fun l => l.expr.NamesRead :=
    .grow (fun l _ => yields_link calls start l) he
  refine .bind hchain fun l hl => ?_
  split
  · exact .close trivial
  · exact .pure hl

/-! ### Operators -/

/-- With `++` or `--` behind it, it is no name. -/
theorem yields_postfixed (hg : NamesRead grammar) (hc : c.awaits = true) :
    Yields (postfixed grammar c) Expr.NamesRead := by
  refine .after fun start => .bind (hg (.access c true)) fun e he => .after fun lexeme => ?_
  split
  · exact .after fun _ => .after fun _ => .close trivial
  · exact .pure (he hc)

theorem yields_unary (hg : NamesRead grammar) (hc : c.awaits = true) :
    Yields (unary grammar c) Expr.NamesRead := by
  refine .after fun lexeme => ?_
  split
  · exact .after fun _ => .after fun _ => .close trivial
  split
  · exact .after fun _ => .after fun _ => .after fun _ => .close trivial
  refine .after fun await => ?_
  split
  · exact .after fun _ => .after fun _ => .close trivial
  · exact yields_postfixed hg hc

/-- The invariant passes through an operator to both operands. -/
theorem yields_operation (hg : NamesRead grammar) (hc : c.awaits = true) (level : Nat)
    (start : List Char) {left : Expr} (hl : left.NamesRead) :
    Yields (operation grammar c level start left) fun o => ∀ e ∈ o, e.NamesRead := by
  refine .after fun lexeme => ?_
  split
  · exact .pure nofun
  · next op strength _ =>
    split
    · exact .pure nofun
    · refine .after fun _ => .bind (hg (.binary c _)) fun right hright => .after fun _ => ?_
      -- Both operands are read in a context that waits, so their names read back.
      have hform : (op.form left right).NamesRead := by
        cases op with
        | binary op => exact ⟨hl, hright hc⟩
        | logical op => exact ⟨hl, hright hc⟩
      exact yields_some (.close hform)

/-- Operations of all levels, by induction on the level. -/
theorem yields_binary (hg : NamesRead grammar) (hc : c.awaits = true) (level : Nat) :
    Yields (binary grammar c level) Expr.NamesRead := by
  refine .after fun start => .after fun lexeme => ?_
  have hgrow : ∀ left : Expr, left.NamesRead →
      Yields (grow (operation grammar c level start) left) Expr.NamesRead :=
    fun left hl => .grow (fun e he => yields_operation hg hc level start he) hl
  dsimp only
  split
  · refine .bind ?_ hgrow
    exact .after fun _ => .after fun _ => .after fun _ => .close trivial
  · exact .bind (hg (.unary c)) fun left hl => hgrow left (hl hc)

/-- A condition without branches is its operand. -/
theorem yields_conditional (hg : NamesRead grammar) (hc : c.awaits = true) :
    Yields (conditional grammar c) Expr.NamesRead := by
  refine .after fun start => .bind (hg (.binary c 1)) fun test htest => .after fun question => ?_
  split
  · exact .after fun _ => .after fun _ => .after fun _ => .close trivial
  · exact .pure (htest hc)

/-! ### Assignments and markup -/

/-- An assignment to a pattern is no name. -/
theorem yields_destructuring (start : List Char) :
    Yields (destructuring grammar c start) Expr.NamesRead :=
  .after fun _ => .after fun _ => .after fun _ => .after fun _ => .after fun _ => .after fun _ =>
    .close trivial

/-- Nor is an assignment to a place; without one the left side is left. -/
theorem yields_assignmentTo (start : List Char) {left : Expr} (hl : left.NamesRead) :
    Yields (assignmentTo grammar c start left) Expr.NamesRead := by
  refine .after fun lexeme => ?_
  split
  · split
    · exact .after fun _ => yields_destructuring start
    · split
      · exact .after fun _ => .after fun _ => .after fun _ => .close trivial
      · exact .pure hl
  · exact .pure hl

/-- What `yield` begins is no name. -/
theorem yields_yieldAfterWord (start : List Char) :
    Yields (yieldAfterWord grammar c start) Expr.NamesRead := by
  refine .after fun lexeme => .ite ?_ ?_
  · exact .close trivial
  · exact .after fun _ => .after fun _ => .close trivial

/-- An assignment, an arrow function, or what stands above them. -/
theorem yields_assignment (hg : NamesRead grammar) (hc : c.awaits = true) :
    Yields (assignment grammar c) Expr.NamesRead := by
  refine .after fun start => .after fun yields => ?_
  split
  · exact .after fun _ => yields_yieldAfterWord start
  refine .after fun head => ?_
  split
  · exact .after fun _ => .close trivial
  -- Without an assignment behind it, what was read as a conditional is the answer.
  refine .bind (.attempt (yields_conditional hg hc)) fun left hleft => ?_
  split
  · next left => exact yields_assignmentTo start (hleft left rfl)
  · exact yields_destructuring start

/-- A sequence of one expression is that expression. -/
theorem yields_expression (hg : NamesRead grammar) (hc : c.awaits = true) :
    Yields (expression grammar c) Expr.NamesRead := by
  refine .after fun start => .bind (hg (.assignment c)) fun first hfirst => .after fun others => ?_
  split
  · exact .pure (hfirst hc)
  · exact .close trivial

/-- Markup is no name. -/
theorem yields_markup : Yields (markup grammar c) Expr.NamesRead := by
  refine .after fun start => .after fun _ => .after fun fragment => ?_
  split
  · exact .after fun _ => .after fun _ => .close trivial
  refine .after fun tag => .after fun attributes => .after fun empty => ?_
  split
  · exact .after fun _ => .close trivial
  · exact .after fun _ => .after fun _ => .after fun _ => .after fun _ => .after fun _ =>
      .close trivial

/-! ### The unrolled grammar -/

/-- One unrolling keeps the invariant. -/
theorem namesRead_rule (hg : NamesRead grammar) : NamesRead (rule grammar) := by
  intro g
  cases g with
  | expression c => exact fun s e s' h hc => yields_expression hg hc s e s' h
  | assignment c => exact fun s e s' h hc => yields_assignment hg hc s e s' h
  | binary c level => exact fun s e s' h hc => yields_binary hg hc level s e s' h
  | unary c => exact fun s e s' h hc => yields_unary hg hc s e s' h
  | access c calls => exact fun s e s' h hc => yields_access hg hc calls s e s' h
  | markup c => exact yields_markup
  -- Of the other rules nothing is asked.
  | target c => exact fun _ _ _ _ => trivial
  | pattern c => exact fun _ _ _ _ => trivial
  | statement c only => exact fun _ _ _ _ => trivial

/-- Every unrolling of the grammar reads its names, by induction on its depth. -/
theorem namesRead_unrolled (depth : Nat) : NamesRead (unrolled depth) := by
  -- At depth zero nothing is answered, so there is nothing to show.
  induction depth with
  | zero => exact fun g => .failure
  | succ depth ih => exact namesRead_rule ih

end Parser

/-- **The identifiers of what is read are names**, down parentheses and operators. -/
theorem namesRead_of_parse? {code : String} {e : Expr} (h : Expr.parse? code = some e) :
    e.NamesRead := by
  unfold Expr.parse? at h
  obtain ⟨⟨e', rest⟩, he, h⟩ := Option.bind_eq_some_iff.1 h
  obtain ⟨lexeme, -, h⟩ := Option.bind_eq_some_iff.1 h
  cases h
  -- The outermost context waits.
  exact Parser.namesRead_unrolled _ (.expression {}) _ _ _ he rfl

end Stencil.Script
