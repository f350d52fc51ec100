import Mathlib.Data.List.TakeDrop
import Mathlib.Data.List.TakeWhile
import Stencil.Proofs.Script.Parameter

/-!
# Names are made of words

Lowering looks at names and at tags: those of the functions, variables and elements in the places of
a script that it reads. `Expr.Named Q` says that all these names are words and that all tags satisfy
`Q`, and its companions say so of the other kinds of tree. A form that lowering only copies has
nothing to answer for. The parameters of a function have to bind identifiers besides.

What the parser reads as a name is a word, and a tag is put together of words with hyphens, dots and
a colon (`named_of_parse?`). So neither holds a blank, and a name holds no colon. The proof walks
through the rules of the grammar with `Yields`, as the one about identifiers does, but it also goes
into functions, statements and markup.
-/

namespace Stencil.Script

/-- A pattern that is a bare name is a word. -/
def Pattern.Named : Pattern → Prop
  | .name n => IsWord n.toList
  | _ => True

section Named

variable (Q : String → Prop)

mutual

/-- In the places of an expression that lowering looks at, names are words and tags satisfy `Q`. -/
def Expr.Named : Expr → Prop
  | .mk _ form => form.Named

/-- Of a form, the parts that lowering goes on to look at. -/
def Form.Named : Form → Prop
  | .identifier n => IsWord n.toList
  | .paren inner => inner.Named
  | .logical _ left right => left.Named ∧ right.Named
  | .conditional _ consequent alternate => consequent.Named ∧ alternate.Named
  | .member object _ => object.Named
  | .call _ arguments => partsNamed arguments
  | .assignment target _ => target.Named
  | .function f | .arrow f => f.Named
  | .element tag _ cs => Q tag ∧ childrenNamed cs
  | .fragment cs => childrenNamed cs
  | _ => True

/-- A part of a literal or a call: a value is read on, a spread is not. -/
def Part.Named : Part → Prop
  | .value e => e.Named
  | _ => True

/-- Parts, one after the other; the recursion stays inside the mutual block. -/
def partsNamed : List Part → Prop
  | [] => True
  | p :: rest => p.Named ∧ partsNamed rest

/-- A child of an element. Texts hold no names. -/
def Child.Named : Child → Prop
  | .value e => e.Named
  | _ => True

/-- Children, one after the other. -/
def childrenNamed : List Child → Prop
  | [] => True
  | c :: rest => c.Named ∧ childrenNamed rest

/-- The name of a function is a word, its parameters bind identifiers, and its body is named. -/
def Function.Named : Function → Prop
  | .mk name params _ body =>
    (∀ n ∈ name, IsWord n.toList) ∧ (∀ p ∈ params, p.pattern.IsSound) ∧ body.Named

/-- The body of an arrow function is an expression or statements. -/
def Body.Named : Body → Prop
  | .value e => e.Named
  | .block statements => statementsNamed statements

/-- A declarator is looked at on both sides. -/
def Declarator.Named : Declarator → Prop
  | .mk pattern value => pattern.Named ∧ valueNamed value

/-- Declarators, one after the other. -/
def declaratorsNamed : List Declarator → Prop
  | [] => True
  | d :: rest => d.Named ∧ declaratorsNamed rest

/-- A value that may be absent. -/
def valueNamed : Option Expr → Prop
  | none => True
  | some e => e.Named

/-- Of a statement, the parts that lowering goes on to look at; the test of a branch is only
copied. -/
def Stmt.Named : Stmt → Prop
  | .ret value => valueNamed value
  | .branch _ consequent alternate => consequent.Named ∧ statementNamed alternate
  | .block statements => statementsNamed statements
  | .expression e => e.Named
  | .declaration _ declarators => declaratorsNamed declarators
  | .function f => f.Named
  | .other _ => True

/-- A statement that may be absent. -/
def statementNamed : Option Stmt → Prop
  | none => True
  | some s => s.Named

/-- Statements, one after the other. -/
def statementsNamed : List Stmt → Prop
  | [] => True
  | s :: rest => s.Named ∧ statementsNamed rest

end

/-- An item of a module, likewise. What is imported is not looked at. -/
def Item.Named : Item → Prop
  | .statement s | .exported s => s.Named Q
  | .defaultFunction f => f.Named Q
  | .defaultValue e => e.Named Q
  | .imports _ _ | .otherExport _ => True

end Named

section Lists

variable {Q : String → Prop}

/-- The recursion over parts says that each of them is named. -/
theorem partsNamed_iff {ps : List Part} : partsNamed Q ps ↔ ∀ p ∈ ps, p.Named Q := by
  induction ps with
  | nil => exact iff_of_true trivial nofun
  | cons p ps ih => rw [partsNamed, ih, List.forall_mem_cons]

/-- The recursion over children says that each of them is named. -/
theorem childrenNamed_iff {cs : List Child} : childrenNamed Q cs ↔ ∀ c ∈ cs, c.Named Q := by
  induction cs with
  | nil => exact iff_of_true trivial nofun
  | cons c cs ih => rw [childrenNamed, ih, List.forall_mem_cons]

/-- The recursion over declarators says that each of them is named. -/
theorem declaratorsNamed_iff {ds : List Declarator} :
    declaratorsNamed Q ds ↔ ∀ d ∈ ds, d.Named Q := by
  induction ds with
  | nil => exact iff_of_true trivial nofun
  | cons d ds ih => rw [declaratorsNamed, ih, List.forall_mem_cons]

/-- The recursion over statements says that each of them is named. -/
theorem statementsNamed_iff {ss : List Stmt} : statementsNamed Q ss ↔ ∀ s ∈ ss, s.Named Q := by
  induction ss with
  | nil => exact iff_of_true trivial nofun
  | cons s ss ih => rw [statementsNamed, ih, List.forall_mem_cons]

/-- Parentheses hide no name: an expression is named with them and without. -/
theorem Expr.Named.bare {e : Expr} (h : e.Named Q) : e.bare.Named Q := by
  fun_induction Expr.bare e with
  | case1 text inner ih => exact ih h
  | case2 e _ => exact h

/-- The parameters of a named function bind identifiers. -/
theorem Function.Named.params {f : Function} (h : f.Named Q) :
    ∀ p ∈ f.params, p.pattern.IsSound := by
  cases f with
  | mk name params rest body => exact h.2.1

end Lists

/-! ### Words and tags -/

/-- The text is made of words and of the marks that stand between the words of a tag. -/
def IsTagName (s : String) : Prop :=
  ∀ d ∈ s.toList, Text.isIdentifierPart d = true ∨ d ∈ ['-', '.', ':']

/-- A tag has no other characters. -/
theorem IsTagName.notMem {s : String} (h : IsTagName s) {c : Char}
    (hpart : Text.isIdentifierPart c = false) (hmark : c ∉ ['-', '.', ':']) : c ∉ s.toList := by
  intro hc
  rcases h c hc with hpart' | hmark'
  · rw [hpart] at hpart'
    cases hpart'
  · exact hmark hmark'

/-- A text of identifier characters and hyphens may stand in a tag. -/
theorem isTagName_of_parts {cs : List Char}
    (h : ∀ d ∈ cs, Text.isIdentifierPart d = true ∨ d = '-') : IsTagName (String.ofList cs) := by
  unfold IsTagName
  rw [String.toList_ofList]
  intro d hd
  rcases h d hd with hpart | rfl
  · exact .inl hpart
  · exact .inr List.mem_cons_self

/-- So may each of the marks that join the parts of a tag. -/
theorem isTagName_mark {mark : String} {c : Char} (hmark : mark.toList = [c])
    (hc : c ∈ ['-', '.', ':']) : IsTagName mark := by
  unfold IsTagName
  rw [hmark, List.forall_mem_singleton]
  exact .inr hc

/-- A name can be a tag. -/
theorem isTagName_of_isWord {w : String} (h : IsWord w.toList) : IsTagName w :=
  fun d hd => .inl (h.isIdentifierPart d hd)

/-- What a sound pattern binds are words, so a bare name is one. -/
theorem Pattern.IsSound.named {p : Pattern} (h : p.IsSound) : p.Named := by
  cases p with
  | name n => exact (h n (List.mem_singleton_self n)).1
  | object | array | withDefault => trivial

/-- Texts that may stand in a tag may stand there side by side. -/
theorem IsTagName.append {s t : String} (hs : IsTagName s) (ht : IsTagName t) :
    IsTagName (s ++ t) := by
  unfold IsTagName
  rw [String.toList_append, List.forall_mem_append]
  exact ⟨hs, ht⟩

/-- Parts of a tag joined by marks make a tag, by induction on the parts. -/
theorem isTagName_intercalate {mark : String} (hmark : IsTagName mark) {ss : List String}
    (h : ∀ s ∈ ss, IsTagName s) : IsTagName (mark.intercalate ss) := by
  unfold IsTagName
  rw [String.toList_intercalate]
  -- By induction on the words, each but the last one with the mark behind it.
  induction ss with
  | nil => exact nofun
  | cons s ss ih =>
    obtain ⟨hs, hss⟩ := List.forall_mem_cons.1 h
    cases ss with
    | nil =>
      rw [List.map_singleton, List.intercalate_singleton]
      exact hs
    | cons t ss =>
      rw [List.map_cons, List.map_cons, List.intercalate_cons_cons, List.forall_mem_append,
        List.forall_mem_append]
      exact ⟨⟨hs, hmark⟩, ih hss⟩

namespace Parser

variable {α : Type} {P : α → Prop}

/-- What every item satisfies, the items of a list with separators satisfy. -/
theorem Yields.separated {m : String} {item : Parser α} (h : Yields item P) :
    Yields (separated m item) fun as => ∀ a ∈ as, P a := by
  refine .after fun closed => .ite (.pure nofun) ?_
  refine .bind h fun first hfirst => ?_
  refine .bind (.many ?_) fun others hothers => .pure (List.forall_mem_cons.2 ⟨hfirst, hothers⟩)
  refine .after fun closed => .ite (.pure nofun) (.after fun _ => .after fun closed => ?_)
  refine .ite (.pure nofun) (.bind h fun a ha => .pure fun b hb => ?_)
  cases hb
  exact ha

/-- A name that the parser accepts is a word. -/
theorem Yields.name (c : Context) : Yields (name c) fun n => IsWord n.toList :=
  fun s n s' h => (yields_name c s n s' h).1

/-- What is read as a word of markup may stand in a tag. -/
theorem yields_markupWord : Yields markupWord IsTagName := by
  refine .after fun s => ?_
  split
  · next c rest =>
    split
    · next hc =>
      rw [List.span_eq_takeWhile_dropWhile]
      refine .after fun _ => .pure (isTagName_of_parts fun d hd => ?_)
      -- The word begins like an identifier, and goes on with parts of identifiers and hyphens.
      rcases List.mem_cons.1 hd with rfl | hd
      · exact .inl (Text.isIdentifierPart_of_start hc)
      · simpa using List.mem_takeWhile_imp hd
    · exact .failure
  · exact .failure

/-- A tag is put together of words of markup, whichever of the three ways it is written. -/
theorem yields_tagName : Yields tagName IsTagName := by
  refine .bind yields_markupWord fun first hfirst => .after fun colon => ?_
  refine .ite ?_ ?_
  · refine .bind yields_markupWord fun second hsecond => .pure ?_
    have hcolon : IsTagName ":" := isTagName_mark rfl (by decide)
    exact (hfirst.append hcolon).append hsecond
  · -- A member of a tag is one more word behind a dot.
    have hmember : Yields (do if ← trySign '.' then pure (some (← markupWord)) else pure none)
        fun o => ∀ w ∈ o, IsTagName w := by
      refine .after fun dot => .ite (.bind yields_markupWord fun w hw => .pure ?_) (.pure nofun)
      intro v hv
      cases hv
      exact hw
    refine .bind (.many hmember) fun members hmembers => .after fun _ => .pure ?_
    have hdot : IsTagName "." := isTagName_mark rfl (by decide)
    exact isTagName_intercalate hdot (List.forall_mem_cons.2 ⟨hfirst, hmembers⟩)

/-! ### The invariant of the grammar -/

/-- What is kept of the answer to each nonterminal. -/
def Goal.Named (g : Goal) : g.Out → Prop :=
  match g with
  | .expression _ | .assignment _ | .binary _ _ | .unary _ | .access _ _ | .target _ | .markup _ =>
    Expr.Named IsTagName
  | .pattern _ => fun p => p.Named ∧ p.IsSound
  | .statement _ _ => Stmt.Named IsTagName

/-- The grammar answers names and tags that are made of words. -/
def Named (grammar : Grammar) : Prop :=
  ∀ g, Yields (grammar g) (Goal.Named g)

/-- To close a form is to name an expression, if the form is named. -/
theorem yields_closed {start : List Char} {form : Form} (h : form.Named IsTagName) :
    Yields (close start form) (Expr.Named IsTagName) := by
  intro s e s' hs
  cases hs
  exact h

variable {grammar : Grammar} {c : Context}

/-- A grammar whose trees are named also binds identifiers only. -/
theorem Named.bindsIdentifiers (hg : Named grammar) : BindsIdentifiers grammar :=
  fun c s p s' h => (hg (.pattern c) s p s' h).2

/-! ### Functions -/

/-- Statements up to a closing brace are named. -/
theorem named_statements (hg : Named grammar) :
    Yields (statements grammar c) (statementsNamed IsTagName) := by
  have hmany : Yields (statements grammar c) fun ss => ∀ s ∈ ss, s.Named IsTagName := by
    refine .many (.after fun closed => .ite (.pure nofun) ?_)
    exact yields_some (hg (.statement c false))
  exact fun s ss s' h => statementsNamed_iff.2 (hmany s ss s' h)

/-- A block is its statements. -/
theorem named_block (hg : Named grammar) :
    Yields (block grammar c) (statementsNamed IsTagName) :=
  .after fun _ => named_statements hg

/-- A function is named by the name it was read with; its parameters bind identifiers. -/
theorem named_functionRest (hg : Named grammar) {name : Option String}
    (hname : ∀ n ∈ name, IsWord n.toList) (awaits yields : Bool) :
    Yields (functionRest grammar name awaits yields) (Function.Named IsTagName) := by
  refine .after fun _ => .bind (yields_parameters hg.bindsIdentifiers) fun params hparams => ?_
  exact .bind (named_block hg) fun body hbody => .pure ⟨hname, hparams, hbody⟩

/-- A function declared with or without a name. -/
theorem named_functionAfterWord (hg : Named grammar) (awaits : Bool) :
    Yields (functionAfterWord grammar c awaits) (Function.Named IsTagName) := by
  refine .after fun yields => .after fun anonymous => ?_
  have hrest : ∀ name : Option String, (∀ n ∈ name, IsWord n.toList) →
      Yields (functionRest grammar name awaits yields) (Function.Named IsTagName) :=
    fun name hname => named_functionRest hg hname awaits yields
  refine .ite (.bind (.pure nofun) hrest) (.bind (.name c) fun n hn => .bind (.pure ?_) hrest)
  intro n' hn'
  cases hn'
  exact hn

/-! ### Operands -/

/-- A template is copied, so there is nothing to show. -/
theorem named_template (start : List Char) :
    Yields (template grammar c start) (Expr.Named IsTagName) := by
  refine .after fun parts => ?_
  dsimp only
  split
  · exact yields_closed trivial
  · exact .failure

/-- An item is an expression of the grammar, or a spread. -/
theorem named_item (hg : Named grammar) : Yields (item grammar c) (Part.Named IsTagName) := by
  refine .after fun spread => .ite (.after fun _ => .pure trivial) ?_
  exact .bind (hg (.assignment c.withIn)) fun e he => .pure he

/-- The arguments of a call are items. -/
theorem named_arguments (hg : Named grammar) :
    Yields (arguments grammar c) (partsNamed IsTagName) := by
  have hseparated := Yields.separated (m := ")") (named_item (c := c) hg)
  exact fun s ps s' h => partsNamed_iff.2 (hseparated s ps s' h)

/-- Lowering does not look into a construction. -/
theorem named_newAfterWord (start : List Char) :
    Yields (newAfterWord grammar c start) (Expr.Named IsTagName) := by
  refine .after fun dot => ?_
  split
  · exact .after fun _ => yields_closed trivial
  · refine .after fun _ => .after fun _ => .after fun parenthesis => ?_
    split
    · exact .after fun _ => yields_closed trivial
    · exact .after fun _ => yields_closed trivial

/-- Nor into a call that loads a module. -/
theorem named_importCall (start : List Char) :
    Yields (importCall grammar c start) (Expr.Named IsTagName) :=
  .after fun _ => .after fun _ => .after fun _ => yields_closed trivial

/-- Nor into what else begins with that word. -/
theorem named_importAfterWord (start : List Char) :
    Yields (importAfterWord grammar c start) (Expr.Named IsTagName) := by
  refine .after fun dot => ?_
  split
  · refine .after fun own => ?_
    split
    · exact yields_closed trivial
    · exact .after fun _ => .after fun _ => .after fun _ => named_importCall start
  · exact named_importCall start

/-- An expression that a word begins: the word is an identifier, or begins a function or a form that
is only copied. -/
theorem named_primaryWord (hg : Named grammar) (lexeme : Lexeme) {w : String} (escaped : Bool)
    (hw : IsWord w.toList) :
    Yields (primaryWord grammar c lexeme w escaped) (Expr.Named IsTagName) := by
  refine .after fun async => ?_
  split
  · refine .after fun _ => .after fun _ => ?_
    exact .bind (named_functionAfterWord hg true) fun f hf => yields_closed hf
  refine .after fun _ => ?_
  split
  · exact yields_closed trivial
  · exact yields_closed trivial
  · exact yields_closed trivial
  · exact yields_closed trivial
  · exact .bind (named_functionAfterWord hg false) fun f hf => yields_closed hf
  · exact .after fun _ => yields_closed trivial
  · exact named_newAfterWord _
  · exact named_importAfterWord _
  · exact .after fun _ => .after fun _ => .after fun _ => .after fun _ => yields_closed trivial
  -- Every other word names a variable: the one place where the word itself ends up in the tree.
  · exact .after fun _ => yields_closed hw

/-- A primary expression, by the token that begins it. -/
theorem named_primary (hg : Named grammar) :
    Yields (primary grammar c) (Expr.Named IsTagName) := by
  refine .bind .peek fun lexeme hlexeme => ?_
  dsimp only
  -- Words, parentheses and markup are looked into; the other kinds of token have nothing to answer
  -- for.
  split
  · next w escaped hw =>
    exact named_primaryWord hg lexeme escaped (hlexeme w escaped hw)
  · exact .after fun _ => yields_closed trivial
  · exact .after fun _ => yields_closed trivial
  · exact .after fun _ => yields_closed trivial
  · refine .after fun _ => .bind (hg (.expression c.withIn)) fun inner hinner => ?_
    exact .after fun _ => yields_closed hinner
  · exact .after fun _ => .after fun _ => yields_closed trivial
  · exact .after fun _ => .after fun _ => yields_closed trivial
  · exact .after fun _ => named_template _
  · exact hg (.markup c)
  · exact .after fun _ => .after fun _ => .after fun _ => yields_closed trivial
  · split
    · exact .after fun _ => yields_closed trivial
    · exact .failure
  · split
    · exact .after fun _ => yields_closed trivial
    · exact .failure
  · exact .failure

/-- A member keeps its object, and its own name is not looked at. -/
theorem named_memberAfterDot (start : List Char) {object : Expr}
    (hobject : object.Named IsTagName) :
    Yields (memberAfterDot start object) (Expr.Named IsTagName) := by
  refine .after fun lexeme => ?_
  split
  · exact .after fun _ => yields_closed hobject
  · exact .after fun _ => yields_closed trivial
  · exact .failure

/-- A member by key is only copied. -/
theorem named_memberInBrackets (start : List Char) (object : Expr) :
    Yields (memberInBrackets grammar c start object) (Expr.Named IsTagName) :=
  .after fun _ => .after fun _ => yields_closed trivial

/-- A call is looked at through its arguments: the callee is compared with known texts only. -/
theorem named_callInParens (hg : Named grammar) (start : List Char) (callee : Expr) :
    Yields (callInParens grammar c start callee) (Expr.Named IsTagName) :=
  .bind (named_arguments hg) fun _ hparts => yields_closed hparts

/-- One more link keeps the names of the chain so far. -/
theorem named_link (hg : Named grammar) (calls : Bool) (start : List Char) {chain : Link}
    (hchain : chain.expr.Named IsTagName) :
    Yields (link grammar c calls start chain) fun o => ∀ l ∈ o, l.expr.Named IsTagName := by
  -- All links are read alike: parse the longer expression `e`, and go on with a link around it.
  have extended : ∀ {p : Parser Expr} {f : Expr → Link}, Yields p (Expr.Named IsTagName) →
      (∀ e, (f e).expr = e) →
      Yields (do pure (some (f (← p)))) fun o => ∀ l ∈ o, l.expr.Named IsTagName := by
    intro p f hp hf
    refine .bind hp fun e he => .pure fun l hl => ?_
    cases hl
    rw [hf]
    exact he
  refine .after fun lexeme => ?_
  split
  · exact .after fun _ => extended (named_memberAfterDot _ hchain) fun _ => rfl
  · exact .after fun _ => extended (named_memberInBrackets _ _) fun _ => rfl
  · split
    · exact .after fun _ => extended (named_callInParens hg _ _) fun _ => rfl
    · exact .pure nofun
  · refine .after fun _ => .after fun _ => .after fun parts => ?_
    exact extended (yields_closed trivial) fun _ => rfl
  · refine .after fun _ => .after fun _ => .after fun next => ?_
    split
    · exact .after fun _ => extended (named_memberInBrackets _ _) fun _ => rfl
    · exact .after fun _ => extended (named_callInParens hg _ _) fun _ => rfl
    · exact extended (named_memberAfterDot _ hchain) fun _ => rfl
  · exact .pure nofun

/-- A chain, by induction on its links. -/
theorem named_access (hg : Named grammar) (calls : Bool) :
    Yields (access grammar c calls) (Expr.Named IsTagName) := by
  refine .after fun start => .bind (named_primary hg) fun e he => ?_
  have hchain : Yields (grow (link grammar c calls start) ⟨e, false⟩)
      fun l => l.expr.Named IsTagName := .grow (fun l hl => named_link hg calls start hl) he
  refine .bind hchain fun l hl => ?_
  split
  -- An optional chain is wrapped in a form of its own, which lowering copies.
  · exact yields_closed trivial
  · exact .pure hl

/-! ### Operators -/

/-- An operand with `++` or `--` behind it is only copied. -/
theorem named_postfixed (hg : Named grammar) :
    Yields (postfixed grammar c) (Expr.Named IsTagName) := by
  refine .after fun start => .bind (hg (.access c true)) fun e he => .after fun lexeme => ?_
  split
  · exact .after fun _ => .after fun _ => yields_closed trivial
  · exact .pure he

/-- Operators before an operand are only copied. -/
theorem named_unary (hg : Named grammar) : Yields (unary grammar c) (Expr.Named IsTagName) := by
  refine .after fun lexeme => ?_
  -- An operator, an update, or the word that waits; without any of them it is the operand.
  split
  · exact .after fun _ => .after fun _ => yields_closed trivial
  split
  · exact .after fun _ => .after fun _ => .after fun _ => yields_closed trivial
  refine .after fun await => ?_
  split
  · split
    · exact .after fun _ => .after fun _ => yields_closed trivial
    · exact .after fun _ => .after fun _ => named_postfixed hg
  · exact named_postfixed hg

/-- Of the operations lowering looks into the logical ones, which have two named sides. -/
theorem named_operation (hg : Named grammar) (level : Nat) (start : List Char) {left : Expr}
    (hl : left.Named IsTagName) :
    Yields (operation grammar c level start left) fun o => ∀ e ∈ o, e.Named IsTagName := by
  refine .after fun lexeme => ?_
  split
  · exact .pure nofun
  · next op strength _ =>
    split
    · exact .pure nofun
    · refine .after fun _ => .bind (hg (.binary c _)) fun right hright => .after fun _ => ?_
      -- A binary operator is copied as a whole, so only a logical one passes its operands on.
      have hform : (op.form left right).Named IsTagName := by
        cases op with
        | binary op => trivial
        | logical op => exact ⟨hl, hright⟩
      exact yields_some (yields_closed hform)

/-- Operations of all levels, by induction on the level. -/
theorem named_binary (hg : Named grammar) (level : Nat) :
    Yields (binary grammar c level) (Expr.Named IsTagName) := by
  refine .after fun start => .after fun lexeme => ?_
  have hgrow : ∀ left : Expr, left.Named IsTagName →
      Yields (grow (operation grammar c level start) left) (Expr.Named IsTagName) :=
    fun left hl => .grow (fun e he => named_operation hg level start he) hl
  dsimp only
  split
  · refine .bind ?_ hgrow
    exact .after fun _ => .after fun _ => .after fun _ => yields_closed trivial
  · exact .bind (hg (.unary c)) hgrow

/-- A condition is copied, its branches are looked into. -/
theorem named_conditional (hg : Named grammar) :
    Yields (conditional grammar c) (Expr.Named IsTagName) := by
  refine .after fun start => .bind (hg (.binary c 1)) fun test htest => .after fun question => ?_
  split
  · refine .bind (hg (.assignment c.withIn)) fun consequent hconsequent => .after fun _ => ?_
    refine .bind (hg (.assignment c)) fun alternate halternate => ?_
    exact yields_closed ⟨hconsequent, halternate⟩
  · exact .pure htest

/-! ### Assignments -/

/-- The body of an arrow function is a named block or a named expression. -/
theorem named_arrowBody (hg : Named grammar) (awaits : Bool) :
    Yields (arrowBody grammar c awaits) (Body.Named IsTagName) := by
  refine .after fun braces => .ite ?_ ?_
  · exact .bind (named_block hg) fun body hbody => .pure hbody
  · exact .bind (hg (.assignment _)) fun e he => .pure he

/-- An assignment to a pattern is only copied. -/
theorem named_destructuring (hg : Named grammar) (start : List Char) :
    Yields (destructuring grammar c start) (Expr.Named IsTagName) := by
  refine .after fun _ => .after fun _ => .after fun _ => ?_
  refine .bind (hg (.target c)) fun t ht => .after fun _ => .after fun _ => ?_
  exact yields_closed ht

/-- An assignment is looked at through its target. -/
theorem named_assignmentTo (hg : Named grammar) (start : List Char) {left : Expr}
    (hl : left.Named IsTagName) :
    Yields (assignmentTo grammar c start left) (Expr.Named IsTagName) := by
  refine .after fun lexeme => ?_
  split
  · split
    · exact .after fun _ => named_destructuring hg start
    · split
      · exact .after fun _ => .after fun _ => .after fun _ => yields_closed hl.bare
      · exact .pure hl
  · exact .pure hl

/-- What `yield` begins is only copied. -/
theorem named_yieldAfterWord (start : List Char) :
    Yields (yieldAfterWord grammar c start) (Expr.Named IsTagName) := by
  refine .after fun lexeme => .ite ?_ ?_
  · exact yields_closed trivial
  · exact .after fun _ => .after fun _ => yields_closed trivial

/-- An assignment, an arrow function, or what stands above them. -/
theorem named_assignment (hg : Named grammar) :
    Yields (assignment grammar c) (Expr.Named IsTagName) := by
  refine .after fun start => .after fun yields => ?_
  split
  · exact .after fun _ => named_yieldAfterWord start
  refine .bind (.attempt (yields_arrowStart hg.bindsIdentifiers)) fun head hhead => ?_
  split
  · refine .bind (named_arrowBody hg _) fun body hbody => ?_
    -- An arrow function has no name of its own.
    exact yields_closed ⟨nofun, hhead _ rfl, hbody⟩
  refine .bind (.attempt (named_conditional hg)) fun left hleft => ?_
  split
  · next left => exact named_assignmentTo hg start (hleft left rfl)
  · exact named_destructuring hg start

/-- A sequence of expressions is only copied; a single one is named as it is. -/
theorem named_expression (hg : Named grammar) :
    Yields (expression grammar c) (Expr.Named IsTagName) := by
  refine .after fun start => .bind (hg (.assignment c)) fun first hfirst => .after fun others => ?_
  split
  · exact .pure hfirst
  · exact yields_closed trivial

/-- A target is checked like a pattern. -/
theorem named_target (hg : Named grammar) : Yields (target grammar c) (Expr.Named IsTagName) := by
  refine .after fun start => .after fun bracket => .ite ?_ (.after fun brace => .ite ?_ ?_)
  · exact .after fun _ => yields_closed trivial
  · exact .after fun _ => yields_closed trivial
  · exact .bind (hg (.access c true)) fun e he => .after fun _ => .pure he

/-- A pattern binds identifiers, and as a bare name it is a word. -/
theorem named_pattern (hg : Named grammar) :
    Yields (pattern grammar c) fun p => p.Named ∧ p.IsSound :=
  fun s p s' h =>
    have hsound := yields_pattern hg.bindsIdentifiers s p s' h
    ⟨hsound.named, hsound⟩

/-! ### Markup -/

/-- A child in braces is an expression of the grammar, or says nothing. -/
theorem named_bracedChild (hg : Named grammar) :
    Yields (bracedChild grammar c) (Child.Named IsTagName) := by
  refine .after fun s => ?_
  split
  · exact .after fun _ => .pure trivial
  · refine .after fun spread => .ite ?_ ?_
    · exact .after fun _ => .after fun _ => .pure trivial
    · exact .bind (hg (.expression c.withIn)) fun e he => .after fun _ => .pure he

/-- Children up to the closing tag, by induction on the loop. -/
theorem named_children (hg : Named grammar) :
    Yields (children grammar c) (childrenNamed IsTagName) := by
  -- The loop keeps each child; `childrenNamed` says the same by recursion.
  have hmany : Yields (children grammar c) fun cs => ∀ child ∈ cs, child.Named IsTagName := by
    refine .many (.after fun s => ?_)
    split
    · exact .after fun _ => yields_some (named_bracedChild hg)
    · split
      · -- A closing tag ends the children.
        exact .after fun _ => .pure nofun
      · refine .bind (hg (.markup c)) fun e he => .pure fun child hchild => ?_
        cases hchild
        exact he
    · refine .after fun _ => .after fun _ => .pure fun child hchild => ?_
      cases hchild
      trivial
  exact fun s cs s' h => childrenNamed_iff.2 (hmany s cs s' h)

/-- An element has a tag and named children. -/
theorem named_markup (hg : Named grammar) : Yields (markup grammar c) (Expr.Named IsTagName) := by
  refine .after fun start => .after fun _ => .after fun fragment => ?_
  split
  · exact .bind (named_children hg) fun cs hcs => .after fun _ => yields_closed hcs
  refine .bind yields_tagName fun tag htag => .after fun attributes => .after fun empty => ?_
  split
  · exact .after fun _ => yields_closed ⟨htag, trivial⟩
  · refine .after fun _ => .bind (named_children hg) fun cs hcs => ?_
    exact .after fun _ => .after fun _ => .after fun _ => yields_closed ⟨htag, hcs⟩

/-! ### Statements -/

/-- A declarator has a pattern and a value, both of the grammar. -/
theorem named_declarator (hg : Named grammar) :
    Yields (declarator grammar c) (Declarator.Named IsTagName) := by
  refine .bind (hg (.pattern c)) fun p hp => .after fun equals => .ite ?_ ?_
  · exact .bind (hg (.assignment c)) fun e he => .pure ⟨hp.1, he⟩
  · exact .pure ⟨hp.1, trivial⟩

/-- A declaration is its declarators. -/
theorem named_declaration (hg : Named grammar) (kind : DeclarationKind) :
    Yields (declaration grammar c kind) (Stmt.Named IsTagName) := by
  have hothers : Yields (many (do
      if ← tryMark "," then pure (some (← declarator grammar c)) else pure none))
      fun ds => ∀ d ∈ ds, d.Named IsTagName := by
    exact .many (.after fun comma => .ite (yields_some (named_declarator hg)) (.pure nofun))
  have hall : Yields (declarators grammar c) fun ds => ∀ d ∈ ds, d.Named IsTagName := by
    refine .bind (named_declarator hg) fun first hfirst => .bind hothers fun others hothers => ?_
    exact .pure (List.forall_mem_cons.2 ⟨hfirst, hothers⟩)
  refine .after fun _ => .bind hall fun ds hds => .after fun _ => .after fun _ => .pure ?_
  exact declaratorsNamed_iff.2 hds

/-- Both branches of an `if` are statements of the grammar. -/
theorem named_branchAfterWord (hg : Named grammar) :
    Yields (branchAfterWord grammar c) (Stmt.Named IsTagName) := by
  refine .after fun test => .bind (hg (.statement c true)) fun consequent hconsequent => ?_
  refine .after fun otherwise => .ite ?_ ?_
  · refine .bind (hg (.statement c true)) fun alternate halternate => ?_
    exact .pure ⟨hconsequent, halternate⟩
  · exact .pure ⟨hconsequent, trivial⟩

/-- What a function returns is an expression of the grammar. -/
theorem named_returnAfterWord (hg : Named grammar) :
    Yields (returnAfterWord grammar c) (Stmt.Named IsTagName) := by
  refine .after fun _ => .after fun lexeme => .ite ?_ ?_
  · exact .after fun _ => .pure trivial
  · exact .bind (hg (.expression c.withIn)) fun e he => .after fun _ => .pure he

/-- An expression as a statement. -/
theorem named_expressionStatement (hg : Named grammar) :
    Yields (expressionStatement grammar c) (Stmt.Named IsTagName) :=
  .bind (hg (.expression c.withIn)) fun _ he => .after fun _ => .pure he

/-- A function as a statement has to have a name. -/
theorem named_functionStatement (hg : Named grammar) (awaits : Bool) :
    Yields (do
      let f ← functionAfterWord grammar c awaits
      require f.name.isSome
      pure (.function f)) (Stmt.Named IsTagName) :=
  .bind (named_functionAfterWord hg awaits) fun _ hf => .after fun _ => .pure hf

/-- A jump holds nothing that lowering reads. -/
theorem named_jumpAfterWord : Yields (jumpAfterWord c) (Stmt.Named IsTagName) := by
  refine .after fun lexeme => ?_
  split
  · exact .ite (.after fun _ => .after fun _ => .pure trivial) (.after fun _ => .pure trivial)
  · exact .after fun _ => .pure trivial

/-- Neither does a `try`: its blocks are passed over. -/
theorem named_tryAfterWord : Yields (tryAfterWord grammar c) (Stmt.Named IsTagName) :=
  .after fun _ => .after fun _ => .after fun _ => .after fun _ => .pure trivial

/-- Of the statements that a keyword begins, only choices, returns and functions are looked at. -/
theorem named_afterKeyword? (hg : Named grammar) (only : Bool) (w : String) :
    ∀ p ∈ afterKeyword? grammar c only w, Yields p (Stmt.Named IsTagName) := by
  intro p hp
  unfold afterKeyword? at hp
  -- One case for each keyword, in the order of `afterKeyword?`.
  split at hp <;> cases hp
  · exact named_branchAfterWord hg
  · exact .after fun _ => .after fun _ => .after fun _ => .after fun _ => .pure trivial
  · exact .after fun _ => .after fun _ => .pure trivial
  · exact .after fun _ => .after fun _ => .pure trivial
  · exact .after fun _ => .after fun _ => .after fun _ => .after fun _ => .pure trivial
  · exact .after fun _ => .after fun _ => .after fun _ => .pure trivial
  · exact named_tryAfterWord
  · exact named_returnAfterWord hg
  · exact named_jumpAfterWord
  · exact named_jumpAfterWord
  · exact .after fun _ => .after fun _ => .after fun _ => .after fun _ => .pure trivial
  · exact .after fun _ => .pure trivial
  · exact named_functionStatement hg false
  · exact .after fun _ => .after fun _ => .after fun _ => .after fun _ => .after fun _ =>
      .pure trivial

/-- A statement that a word begins: one of a keyword, a label, or an expression. -/
theorem named_wordStatement (hg : Named grammar) (only : Bool) (lexeme : Lexeme) (w : String)
    (escaped : Bool) :
    Yields (wordStatement grammar c only lexeme w escaped) (Stmt.Named IsTagName) := by
  unfold wordStatement
  split
  · next p hp =>
    refine .after fun _ => ?_
    split at hp
    -- A keyword written with an escape begins no statement.
    · cases hp
    · exact named_afterKeyword? hg only w p hp
  · refine .after fun async => .ite ?_ (.after fun kind => ?_)
    · exact .after fun _ => .after fun _ => named_functionStatement hg true
    · split
      · exact .after fun _ => named_declaration hg _
      · refine .after fun label => .ite ?_ (named_expressionStatement hg)
        exact .after fun _ => .after fun _ => .after fun _ => .pure trivial

/-- A statement, by the token that begins it. -/
theorem named_statement (hg : Named grammar) (only : Bool) :
    Yields (statement grammar c only) (Stmt.Named IsTagName) := by
  refine .after fun lexeme => ?_
  split
  · exact .bind (named_block hg) fun body hbody => .pure hbody
  · exact .after fun _ => .pure trivial
  · exact .after fun _ => .after fun _ => .after fun _ => .pure trivial
  · exact named_wordStatement hg only lexeme _ _
  · exact named_expressionStatement hg

/-! ### The unrolled grammar -/

/-- One unrolling keeps the invariant. -/
theorem named_rule (hg : Named grammar) : Named (rule grammar) := by
  intro g
  -- One lemma for each kind of goal.
  cases g with
  | expression c => exact named_expression hg
  | assignment c => exact named_assignment hg
  | binary c level => exact named_binary hg level
  | unary c => exact named_unary hg
  | access c calls => exact named_access hg calls
  | target c => exact named_target hg
  | pattern c => exact named_pattern hg
  | statement c only => exact named_statement hg only
  | markup c => exact named_markup hg

/-- Every unrolling of the grammar yields named trees, by induction on its depth. -/
theorem named_unrolled (depth : Nat) : Named (unrolled depth) := by
  induction depth with
  -- Out of depth nothing is read, so there is nothing to show.
  | zero => exact fun g => .failure
  | succ depth ih => exact named_rule ih

/-! ### Modules -/

/-- What is imported is not looked at. -/
theorem named_importAfterKeyword :
    Yields (importAfterKeyword c) (Item.Named IsTagName) := by
  refine .after fun lexeme => ?_
  split
  · exact .after fun _ => .after fun _ => .after fun _ => .pure trivial
  · exact .after fun _ => .after fun _ => .pure trivial
  · refine .after fun _ => .after fun comma => .ite ?_ ?_
    · exact .after fun _ => .after fun _ => .pure trivial
    · exact .after fun _ => .after fun _ => .pure trivial

/-- The default export is a function, a class or an expression. -/
theorem named_defaultExport (hg : Named grammar) :
    Yields (defaultExport grammar c) (Item.Named IsTagName) := by
  refine .after fun async => .ite ?_ (.after fun function => .ite ?_ ?_)
  · refine .after fun _ => .after fun _ => ?_
    exact .bind (named_functionAfterWord hg true) fun f hf => .pure hf
  · exact .bind (named_functionAfterWord hg false) fun f hf => .pure hf
  · refine .after fun decorated => .after fun isClass => .ite ?_ ?_
    · exact .after fun _ => .pure trivial
    · refine .after fun _ => ?_
      exact .bind (hg (.assignment c)) fun e he => .after fun _ => .pure he

/-- An export is a default, a declaration or a list of names. -/
theorem named_exportAfterKeyword (hg : Named grammar) :
    Yields (exportAfterKeyword grammar c) (Item.Named IsTagName) := by
  -- What is exported by name or from another file declares nothing here; a declaration is one of
  -- the module's.
  refine .after fun isDefault => .ite (named_defaultExport hg) (.after fun all => .ite ?_ ?_)
  · refine .after fun renamed => .ite ?_ ?_
    · exact .after fun _ => .after fun _ => .after fun _ => .pure trivial
    · exact .after fun _ => .after fun _ => .pure trivial
  refine .after fun list => .ite ?_ ?_
  · refine .after fun names => .after fun reexported => .ite ?_ ?_
    · exact .after fun _ => .pure trivial
    · exact .after fun _ => .pure trivial
  refine .after fun decorated => .after fun isClass => .ite ?_ ?_
  · exact .after fun _ => .pure trivial
  · refine .after fun _ => .after fun kind => ?_
    split
    · exact .bind (named_declaration hg _) fun s hs => .pure hs
    · refine .after fun _ => .after fun _ => .after fun _ => ?_
      exact .bind (hg (.statement c false)) fun s hs => .pure hs

/-- An item of a module, by the word that begins it. -/
theorem named_moduleItem (hg : Named grammar) :
    Yields (moduleItem grammar c) fun o => ∀ item ∈ o, item.Named IsTagName := by
  -- An item that begins with no keyword of modules is a statement.
  have hstatement : Yields (do pure (some (Item.statement (← grammar (.statement c false)))))
      fun o => ∀ item ∈ o, item.Named IsTagName := by
    refine .bind (hg (.statement c false)) fun s hs => .pure fun item hitem => ?_
    cases hitem
    exact hs
  refine .after fun lexeme => ?_
  split
  · exact .pure nofun
  · refine .after fun loads => .ite hstatement ?_
    exact .after fun _ => yields_some named_importAfterKeyword
  · exact .after fun _ => yields_some (named_exportAfterKeyword hg)
  · exact hstatement

end Parser

/-- **The names and tags of a module are made of words**, wherever lowering looks at them. -/
theorem named_of_parse? {source : String} {m : Module} (h : Module.parse? source = some m) :
    ∀ item ∈ m, item.Named IsTagName := by
  unfold Module.parse? at h
  obtain ⟨⟨items, rest⟩, hitems, h⟩ := Option.bind_eq_some_iff.1 h
  dsimp only at h
  split at h
  · cases h
    exact Parser.Yields.many (Parser.named_moduleItem (Parser.named_unrolled _)) _ _ _ hitems
  · cases h

end Stencil.Script
