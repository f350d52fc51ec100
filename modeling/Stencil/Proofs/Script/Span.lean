import Stencil.Proofs.Script.Operand
import Stencil.Proofs.Script.Suffix

/-!
# Parsers leave a suffix

Whatever the grammar reads, it leaves a suffix of the text it was run on (`leaves_unrolled`).

The parsers do not only go forward: an assignment target is read a second time from where it began,
and looking ahead puts the text back. So the invariant does not compare what a parser leaves with
what it was run on, but both with a text around them: `Leaves whole p` says that `p`, run on any
suffix of `whole`, leaves a suffix of `whole`. Every text that a parser holds on to is such a
suffix, and going back to it keeps the invariant. It is carried through `bind` and through the
loops, along the text of each rule.
-/

namespace Stencil.Script.Parser

variable {α β : Type} {whole : List Char} {post : α → List Char → Prop}

/-! ### Inside a text -/

/-- Run on any suffix of `whole`, the parser satisfies `post` with what it answers and leaves. -/
def Within (whole : List Char) (p : Parser α) (post : α → List Char → Prop) : Prop :=
  ∀ s a s', s <:+ whole → p s = some (a, s') → post a s'

/-- Run on any suffix of `whole`, the parser leaves a suffix of it. -/
def Leaves (whole : List Char) (p : Parser α) : Prop :=
  Within whole p fun _ s' => s' <:+ whole

/-- A parser that reads nothing leaves the text it was run on. -/
theorem Leaves.pure (a : α) : Leaves whole (pure a) := by
  intro s b s' hs h
  cases h
  exact hs

/-- Going back to a text that is held on to is harmless: that text lies inside `whole` as well. -/
theorem Leaves.set {t : List Char} (ht : t <:+ whole) : Leaves whole (set t) := by
  intro s a s' _ h
  cases h
  exact ht

/-- A parser that never answers has nothing to satisfy. -/
theorem Within.failure : Within whole (failure : Parser α) post := nofun

/-- In a sequence the first parser has only to stay inside `whole`; the second one ends in
`post`. -/
theorem Within.bind {p : Parser β} {f : β → Parser α} (hp : Leaves whole p)
    (hf : ∀ b, Within whole (f b) post) : Within whole (p >>= f) post := by
  intro s a s' hs h
  obtain ⟨⟨b, t⟩, hb, h⟩ := Option.bind_eq_some_iff.1 h
  exact hf b t a s' (hp s b t hs hb) h

/-- A parser that takes the text it stands on may use that this text lies inside `whole`. -/
theorem Within.get {f : List Char → Parser α} (hf : ∀ s, s <:+ whole → Within whole (f s) post) :
    Within whole (get >>= f) post :=
  fun s a s' hs h => hf s hs s a s' hs h

/-- A parser chosen by a test satisfies what both choices satisfy. -/
theorem Within.ite {q : Prop} [Decidable q] {p p' : Parser α} (hp : Within whole p post)
    (hp' : Within whole p' post) : Within whole (if q then p else p') post := by
  split
  · exact hp
  · exact hp'

/-- `Within.bind` where the second parser has to stay inside `whole` too. -/
theorem Leaves.bind {p : Parser β} {f : β → Parser α} (hp : Leaves whole p)
    (hf : ∀ b, Leaves whole (f b)) : Leaves whole (p >>= f) :=
  Within.bind hp hf

/-- A parser that never answers leaves nothing. -/
theorem Leaves.failure : Leaves whole (failure : Parser α) :=
  Within.failure

/-- A parser chosen by a test stays inside `whole` if both choices do. -/
theorem Leaves.ite {q : Prop} [Decidable q] {p p' : Parser α} (hp : Leaves whole p)
    (hp' : Leaves whole p') : Leaves whole (if q then p else p') :=
  Within.ite hp hp'

/-- Peeking answers the next token and moves nowhere. -/
theorem peek_spec {s s' : List Char} {l : Lexeme} (h : peek s = some (l, s')) :
    nextToken s = some l ∧ s' = s := by
  unfold Parser.peek at h
  rw [run_bind, run_get] at h
  cases hl : nextToken s with
  | none => simp [hl] at h
  | some l' =>
    simp only [Option.bind_some, hl] at h
    cases h
    exact ⟨rfl, rfl⟩

/-- `here` skips the blanks before a token, answers where it stands then, and stays there. -/
theorem here_spec {s s' start : List Char} (h : here s = some (start, s')) :
    (∃ lineEnd, skipBlanks s = some (lineEnd, start)) ∧ s' = start := by
  unfold Parser.here at h
  rw [run_bind, run_get] at h
  cases hstart : skipBlanks s with
  | none => simp [hstart] at h
  | some r =>
    simp only [Option.bind_some, hstart] at h
    cases h
    exact ⟨⟨r.1, rfl⟩, rfl⟩

/-- The next token and the text behind it lie within. -/
theorem Within.peek {f : Lexeme → Parser α}
    (hf : ∀ l : Lexeme, l.start <:+ whole → l.rest <:+ whole → Within whole (f l) post) :
    Within whole (peek >>= f) post := by
  intro s a s' hs h
  obtain ⟨⟨l, t⟩, hpeek, ha⟩ := Option.bind_eq_some_iff.1 h
  obtain ⟨hl, rfl⟩ := peek_spec hpeek
  obtain ⟨hrest, hstart⟩ := nextToken_suffix hl
  exact hf l (hstart.trans hs) ((hrest.trans hstart).trans hs) t a s' hs ha

/-- After `here` a rule holds on to a text inside `whole`. -/
theorem Within.here {f : List Char → Parser α}
    (hf : ∀ start, start <:+ whole → Within whole (f start) post) :
    Within whole (here >>= f) post := by
  intro s a s' hs h
  obtain ⟨⟨start, t⟩, hhere, ha⟩ := Option.bind_eq_some_iff.1 h
  obtain ⟨⟨lineEnd, hskip⟩, rfl⟩ := here_spec hhere
  have ht : t <:+ whole := (skips_of_skipBlanks hskip).suffix.trans hs
  exact hf t ht t a s' ht ha

/-- A rule that looks at the next token holds on to two texts: where it begins and what follows
it. -/
theorem Leaves.peek {f : Lexeme → Parser α}
    (hf : ∀ l : Lexeme, l.start <:+ whole → l.rest <:+ whole → Leaves whole (f l)) :
    Leaves whole (peek >>= f) :=
  Within.peek hf

/-- `Within.here` for a rule that has to stay inside `whole`. -/
theorem Leaves.here {f : List Char → Parser α}
    (hf : ∀ start, start <:+ whole → Leaves whole (f start)) : Leaves whole (here >>= f) :=
  Within.here hf

/-- `Within.get` for a rule that has to stay inside `whole`. -/
theorem Leaves.get {f : List Char → Parser α} (hf : ∀ s, s <:+ whole → Leaves whole (f s)) :
    Leaves whole (get >>= f) :=
  Within.get hf

/-! ### Looking ahead and loops -/

/-- Looking ahead puts the text back, whatever the parser that looks does. -/
theorem leaves_ahead (p : Parser Bool) : Leaves whole (ahead p) := by
  refine .get fun s _ => ?_
  split
  · exact .pure _
  · exact .pure _

/-- An attempt leaves what the parser leaves, or the text from before it. -/
theorem leaves_attempt {p : Parser α} (hp : Leaves whole p) : Leaves whole (attempt p) := by
  refine .get fun s hs => ?_
  split
  · next a rest h => exact .bind (.set (hp s a rest hs h)) fun _ => .pure _
  · exact .pure _

/-- A loop stays inside `whole` if each round does; the induction is on its fuel. -/
theorem leaves_many {p : Parser (Option α)} (hp : Leaves whole p) : Leaves whole (many p) := by
  refine .get fun s _ => ?_
  generalize s.length + 1 = bound
  induction bound with
  | zero => exact .pure _
  | succ bound ih =>
    refine .bind hp fun o => ?_
    cases o with
    | none => exact .pure _
    | some a => exact .bind ih fun _ => .pure _

/-- The same of a loop that extends what it has read so far. -/
theorem leaves_grow {p : α → Parser (Option α)} (hp : ∀ a, Leaves whole (p a)) (a : α) :
    Leaves whole (grow p a) := by
  refine .get fun s _ => ?_
  generalize s.length + 1 = bound
  induction bound generalizing a with
  | zero => exact .pure _
  | succ bound ih =>
    refine .bind (hp a) fun o => ?_
    cases o with
    | none => exact .pure _
    | some b => exact ih b

/-! ### Tokens -/

/-- Taking the text since `start` moves nowhere. -/
theorem leaves_textSince (start : List Char) : Leaves whole (textSince start) :=
  .get fun _ _ => .pure _

/-- Closing an expression writes down its text and moves nowhere. -/
theorem leaves_close (start : List Char) (form : Form) : Leaves whole (close start form) :=
  .bind (leaves_textSince start) fun _ => .pure _

/-- A condition reads nothing. -/
theorem leaves_require (condition : Bool) : Leaves whole (require condition) :=
  .ite (.pure _) .failure

/-- Asking for a mark only peeks. -/
theorem leaves_atMark (m : String) : Leaves whole (atMark m) := by
  refine .peek fun l _ _ => ?_
  split
  · exact .pure _
  · exact .pure _

/-- A mark that may be absent is read with its token or not at all. -/
theorem leaves_tryMark (m : String) : Leaves whole (tryMark m) := by
  refine .peek fun l _ hrest => ?_
  split
  · exact .ite (.bind (.set hrest) fun _ => .pure _) (.pure _)
  · exact .pure _

/-- A mark that must be there. -/
theorem leaves_mark (m : String) : Leaves whole (mark m) :=
  .bind (leaves_tryMark m) leaves_require

/-- Asking for a word only peeks. -/
theorem leaves_atWord (w : String) : Leaves whole (atWord w) := by
  refine .peek fun l _ _ => ?_
  split
  · exact .pure _
  · exact .pure _

/-- A word that may be absent. -/
theorem leaves_tryWord (w : String) : Leaves whole (tryWord w) := by
  refine .peek fun l _ hrest => ?_
  split
  · exact .ite (.bind (.set hrest) fun _ => .pure _) (.pure _)
  · exact .pure _

/-- A word that must be there. -/
theorem leaves_keyword (w : String) : Leaves whole (keyword w) :=
  .bind (leaves_tryWord w) leaves_require

/-- A name is one token. -/
theorem leaves_name (c : Context) : Leaves whole (name c) := by
  refine .peek fun l _ hrest => ?_
  split
  · exact .ite (.bind (.set hrest) fun _ => .pure _) .failure
  · exact .failure

/-- Any word, reserved ones included, is one token. -/
theorem leaves_anyWord : Leaves whole anyWord := by
  refine .peek fun l _ hrest => ?_
  split
  · exact .bind (.set hrest) fun _ => .pure _
  · exact .failure

/-- A semicolon is read, or stands to be inserted where the text is left as it is. -/
theorem leaves_semicolon : Leaves whole semicolon := by
  refine .peek fun l _ hrest => ?_
  split
  · exact .set hrest
  · exact .pure _
  · exact .pure _
  · exact leaves_require _

/-- A list with separators stays inside `whole` if each of its items does. -/
theorem leaves_separated (m : String) {item : Parser α} (hitem : Leaves whole item) :
    Leaves whole (separated m item) := by
  refine .bind (leaves_tryMark m) fun closed => .ite (.pure _) ?_
  refine .bind hitem fun first => .bind (leaves_many ?_) fun others => .pure _
  refine .bind (leaves_tryMark m) fun closed => .ite (.pure _) ?_
  refine .bind (leaves_mark ",") fun _ => .bind (leaves_tryMark m) fun closed => .ite (.pure _) ?_
  exact .bind hitem fun _ => .pure _

/-! ### Rules over a grammar -/

/-- Every nonterminal leaves a suffix, of every text around what it is run on. -/
def LeavesSuffix (grammar : Grammar) : Prop :=
  ∀ whole g, Leaves whole (grammar g)

section Rules

variable {grammar : Grammar}

/-! ### Patterns, keys and parameters -/

/-- A key is a token, or an expression in brackets. -/
theorem leaves_key (hg : LeavesSuffix grammar) (c : Context) : Leaves whole (key grammar c) := by
  refine .peek fun l _ hrest => ?_
  split
  · exact .bind (.set hrest) fun _ => .pure _
  · exact .bind (.set hrest) fun _ => .pure _
  · exact .bind (.set hrest) fun _ => .pure _
  · exact .bind (.set hrest) fun _ => .pure _
  · refine .bind (.set hrest) fun _ => .bind (hg whole _) fun e => ?_
    exact .bind (leaves_mark "]") fun _ => .pure _
  · exact .failure

/-- The value after `=` in a pattern is an assignment expression of the grammar. -/
theorem leaves_defaultValue (hg : LeavesSuffix grammar) (c : Context) :
    Leaves whole (defaultValue grammar c) :=
  .bind (leaves_tryMark "=") fun _ => .ite (.bind (hg whole _) fun _ => .pure _) (.pure _)

/-- An element of a pattern is a pattern with a default value, or a rest element. -/
theorem leaves_patternElement (hg : LeavesSuffix grammar) (c : Context) :
    Leaves whole (patternElement grammar c) := by
  refine .bind (hg whole _) fun p => .bind (leaves_defaultValue hg c) fun value => ?_
  split
  · exact .pure _
  · exact .pure _

/-- Where a key turns out to be a name, it is read a second time. -/
theorem leaves_patternField (hg : LeavesSuffix grammar) (c : Context) :
    Leaves whole (patternField grammar c) := by
  refine .get fun before hbefore => .bind (leaves_key hg c) fun k => ?_
  refine .bind (leaves_tryMark ":") fun _ => .ite ?_ ?_
  · exact .bind (leaves_patternElement hg c) fun _ => .pure _
  · refine .bind (.set hbefore) fun _ => .bind (leaves_name c) fun n => ?_
    refine .bind (leaves_defaultValue hg c) fun value => ?_
    split
    · exact .pure _
    · exact .pure _

/-- What stands between brackets stays inside `whole` if its items and its rest element do. -/
theorem leaves_arrayItems {item rest : Parser α} (hitem : Leaves whole item)
    (hrest : Leaves whole rest) : Leaves whole (arrayItems item rest) := by
  refine .bind (leaves_many ?_) fun items => .pure _
  refine .bind (leaves_tryMark "]") fun _ => .ite (.pure _) ?_
  refine .bind (leaves_tryMark ",") fun _ => .ite (.pure _) ?_
  refine .bind (leaves_tryMark "...") fun _ => .ite ?_ ?_
  · refine .bind hrest fun r => .bind (leaves_atMark "]") fun _ => ?_
    exact .bind (leaves_require _) fun _ => .pure _
  · refine .bind hitem fun i => .bind (leaves_atMark "]") fun _ => ?_
    exact .ite (.bind (leaves_mark ",") fun _ => .pure _) (.pure _)

/-- What stands between braces stays inside `whole` if its fields and its rest element do. -/
theorem leaves_objectFields {field : Parser α} {rest : Parser β} (hfield : Leaves whole field)
    (hrest : Leaves whole rest) : Leaves whole (objectFields field rest) := by
  refine .bind (leaves_many ?_) fun fields => .pure _
  refine .bind (leaves_tryMark "\x7d") fun _ => .ite (.pure _) ?_
  refine .bind (leaves_tryMark "...") fun _ => .ite ?_ ?_
  · refine .bind hrest fun r => .bind (leaves_atMark "\x7d") fun _ => ?_
    exact .bind (leaves_require _) fun _ => .pure _
  · refine .bind hfield fun i => .bind (leaves_atMark "\x7d") fun _ => ?_
    exact .ite (.bind (leaves_mark ",") fun _ => .pure _) (.pure _)

/-- A pattern is a name, an array of elements or an object of fields. -/
theorem leaves_pattern (hg : LeavesSuffix grammar) (c : Context) :
    Leaves whole (pattern grammar c) := by
  refine .bind (leaves_tryMark "[") fun _ => .ite ?_ ?_
  · exact .bind (leaves_arrayItems (leaves_patternElement hg c) (hg whole _)) fun _ => .pure _
  refine .bind (leaves_tryMark "\x7b") fun _ => .ite ?_ ?_
  · exact .bind (leaves_objectFields (leaves_patternField hg c) (hg whole _)) fun _ => .pure _
  · exact .bind (leaves_name c) fun _ => .pure _

/-- A target of an array pattern is read again from its text, so it needs `Leaves.set`. -/
theorem leaves_targetElement (hg : LeavesSuffix grammar) (c : Context) :
    Leaves whole (targetElement grammar c) := by
  refine .bind (hg whole _) fun t => .bind (leaves_defaultValue hg c) fun value => ?_
  split
  · exact .pure _
  · exact .pure _

/-- A field of an object that is assigned to is a name or a key with its target. -/
theorem leaves_targetField (hg : LeavesSuffix grammar) (c : Context) :
    Leaves whole (targetField grammar c) := by
  refine .get fun before hbefore => .bind (leaves_key hg c) fun k => ?_
  refine .bind (leaves_tryMark ":") fun _ => .ite ?_ ?_
  · refine .bind (leaves_targetElement hg c) fun parts => ?_
    split
    · exact .pure _
    · exact .pure _
  · -- Here the key is read again as a name, from the text before it.
    refine .bind (.set hbefore) fun _ => .here fun start _ => .bind (leaves_name c) fun n => ?_
    refine .bind (leaves_close _ _) fun e => .bind (leaves_defaultValue hg c) fun value => ?_
    split
    · exact .pure _
    · exact .pure _

/-- A target is an array, an object, or an expression that names a place. -/
theorem leaves_target (hg : LeavesSuffix grammar) (c : Context) :
    Leaves whole (target grammar c) := by
  refine .here fun start _ => .bind (leaves_tryMark "[") fun _ => .ite ?_ ?_
  · have hrest : Leaves whole (do pure [Part.value (← grammar (.target c))]) :=
      .bind (hg whole _) fun _ => .pure _
    exact .bind (leaves_arrayItems (leaves_targetElement hg c) hrest) fun _ => leaves_close _ _
  refine .bind (leaves_tryMark "\x7b") fun _ => .ite ?_ ?_
  · refine .bind (leaves_objectFields (leaves_targetField hg c) (hg whole _)) fun _ => ?_
    exact leaves_close _ _
  · exact .bind (hg whole _) fun _ => .bind (leaves_require _) fun _ => .pure _

/-- A parameter is a decorated element of a pattern. -/
theorem leaves_parameter (hg : LeavesSuffix grammar) (c : Context) :
    Leaves whole (parameter grammar c) :=
  .here fun start _ => .bind (hg whole _) fun _ => .bind (leaves_textSince start) fun _ =>
    .bind (leaves_defaultValue hg c) fun _ => .pure _

/-- Parameters in parentheses, with a rest parameter at the end. -/
theorem leaves_parameters (hg : LeavesSuffix grammar) (c : Context) :
    Leaves whole (parameters grammar c) := by
  refine .bind (leaves_many ?_) fun items => .pure _
  refine .bind (leaves_tryMark ")") fun _ => .ite (.pure _) ?_
  refine .bind (leaves_tryMark "...") fun _ => .ite ?_ ?_
  · refine .bind (hg whole _) fun p => .bind (leaves_atMark ")") fun _ => ?_
    exact .bind (leaves_require _) fun _ => .pure _
  · refine .bind (leaves_parameter hg c) fun p => .bind (leaves_atMark ")") fun _ => ?_
    exact .ite (.bind (leaves_mark ",") fun _ => .pure _) (.pure _)

/-! ### Functions and classes -/

/-- Statements up to a closing brace. -/
theorem leaves_statements (hg : LeavesSuffix grammar) (c : Context) :
    Leaves whole (statements grammar c) := by
  refine leaves_many (.bind (leaves_tryMark "\x7d") fun _ => .ite (.pure _) ?_)
  exact .bind (hg whole _) fun _ => .pure _

/-- Statements in braces. -/
theorem leaves_block (hg : LeavesSuffix grammar) (c : Context) : Leaves whole (block grammar c) :=
  .bind (leaves_mark _) fun _ => leaves_statements hg c

/-- The parameters and the body of a function, in a context of its own. -/
theorem leaves_functionRest (hg : LeavesSuffix grammar) (name : Option String)
    (awaits yields : Bool) : Leaves whole (functionRest grammar name awaits yields) :=
  .bind (leaves_mark _) fun _ => .bind (leaves_parameters hg _) fun _ =>
    .bind (leaves_block hg _) fun _ => .pure _

/-- What follows the word `function`: a star, a name and the rest. -/
theorem leaves_functionAfterWord (hg : LeavesSuffix grammar) (c : Context) (awaits : Bool) :
    Leaves whole (functionAfterWord grammar c awaits) := by
  refine .bind (leaves_tryMark "*") fun _ => .bind (leaves_atMark "(") fun _ => .ite ?_ ?_
  · exact .bind (.pure _) fun _ => leaves_functionRest hg _ _ _
  · exact .bind (leaves_name c) fun _ => .bind (.pure _) fun _ => leaves_functionRest hg _ _ _

/-- The words before the name of a method. -/
theorem leaves_modifiers : Leaves whole modifiers := by
  refine .bind (leaves_ahead _) fun _ => .ite ?_ ?_
  · exact .bind (leaves_keyword _) fun _ => .bind (leaves_tryMark _) fun _ => .pure _
  refine .bind (leaves_tryMark "*") fun _ => .ite (.pure _) ?_
  refine .bind (leaves_ahead _) fun _ => .ite ?_ (.pure _)
  exact .bind leaves_anyWord fun _ => .pure _

/-- A method's parameters and body, in the context its modifiers give. -/
theorem leaves_method (hg : LeavesSuffix grammar) (m : Modifiers) :
    Leaves whole (method grammar m) :=
  .here fun _ _ => .bind (leaves_functionRest hg _ _ _) fun _ =>
    .bind (leaves_require _) fun _ => leaves_close _ _

/-- Decorators, each an expression of the grammar. -/
theorem leaves_decorators (hg : LeavesSuffix grammar) (c : Context) :
    Leaves whole (decorators grammar c) := by
  refine leaves_many (.bind (leaves_tryMark "@") fun _ => .ite ?_ (.pure _))
  exact .bind (hg whole _) fun _ => .pure _

/-- A word is a modifier of a member only where a name follows, so this looks ahead. -/
theorem leaves_memberWord (w : String) : Leaves whole (memberWord w) := by
  refine .bind (leaves_ahead _) fun _ => ?_
  exact .ite (.bind (leaves_keyword w) fun _ => .pure _) (.pure _)

/-- A member of a class: a block, a field or a method. -/
theorem leaves_classMember (hg : LeavesSuffix grammar) (c : Context) :
    Leaves whole (classMember grammar c) := by
  refine .bind (leaves_decorators hg c) fun decorated => .bind (leaves_memberWord _) fun _ => ?_
  refine .bind (leaves_atMark _) fun _ => .ite (.bind (leaves_block hg _) fun _ => .pure _) ?_
  refine .bind (leaves_memberWord _) fun _ => .bind leaves_modifiers fun m => ?_
  refine .bind (leaves_key hg c) fun k => .bind (leaves_atMark "(") fun _ => .ite ?_ ?_
  · exact .bind (leaves_method hg m) fun _ => .pure _
  · exact .bind (leaves_require _) fun _ => .bind (leaves_defaultValue hg _) fun _ =>
      .bind leaves_semicolon fun _ => .pure _

/-- What follows `extends`. -/
theorem leaves_heritage (hg : LeavesSuffix grammar) (c : Context) :
    Leaves whole (heritage grammar c) :=
  .bind (leaves_tryWord _) fun _ => .ite (.bind (hg whole _) fun _ => .pure _) (.pure _)

/-- The members of a class in braces. -/
theorem leaves_classBody (hg : LeavesSuffix grammar) (c : Context) :
    Leaves whole (classBody grammar c) := by
  refine .bind (leaves_mark _) fun _ => .bind (leaves_many ?_) fun _ => .pure _
  refine .bind (leaves_tryMark _) fun _ => .ite (.pure _) ?_
  refine .bind (leaves_tryMark _) fun _ => .ite (.pure _) ?_
  exact .bind (leaves_classMember hg c) fun _ => .pure _

/-- What follows the word `class`. -/
theorem leaves_classAfterWord (hg : LeavesSuffix grammar) (c : Context) :
    Leaves whole (classAfterWord grammar c) := by
  have hrest : ∀ binding : List Part, Leaves whole (do
      let extended ← heritage grammar c
      let members ← classBody grammar c
      pure (binding ++ extended ++ members)) := fun binding =>
    .bind (leaves_heritage hg c) fun _ => .bind (leaves_classBody hg c) fun _ => .pure _
  -- A class may have no name, and then the next word is the one before its parent.
  refine .peek fun l _ _ => ?_
  dsimp only
  split
  · exact .bind (.pure _) hrest
  · exact .bind (leaves_name c) fun _ => .bind (.pure _) hrest
  · exact .bind (.pure _) hrest

/-! ### Markup -/

/-- Inside markup a sign that may be absent is read by its character, not as a token. -/
theorem leaves_trySign (m : Char) : Leaves whole (trySign m) := by
  refine .here fun start hstart => ?_
  split
  · exact .ite (.bind (.set ((List.suffix_cons _ _).trans hstart)) fun _ => .pure _) (.pure _)
  · exact .pure _

/-- A sign that must be there. -/
theorem leaves_sign (m : Char) : Leaves whole (sign m) :=
  .bind (leaves_trySign m) leaves_require

/-- A name of markup may hold dashes, so it is read from the text itself. -/
theorem leaves_markupWord : Leaves whole markupWord := by
  refine .here fun start hstart => ?_
  split
  · refine .ite ?_ .failure
    rw [List.span_eq_takeWhile_dropWhile]
    have hrest := (List.suffix_cons _ _).trans hstart
    exact .bind (.set ((List.dropWhile_suffix _).trans hrest)) fun _ => .pure _
  · exact .failure

/-- The name of an attribute, with its namespace. -/
theorem leaves_attributeName : Leaves whole attributeName :=
  .bind leaves_markupWord fun _ => .bind (leaves_trySign _) fun _ =>
    .ite (.bind leaves_markupWord fun _ => .pure _) (.pure _)

/-- The name of a tag, with its namespace or its members. -/
theorem leaves_tagName : Leaves whole tagName := by
  refine .bind leaves_markupWord fun _ => .bind (leaves_trySign _) fun _ => .ite ?_ ?_
  · exact .bind leaves_markupWord fun _ => .pure _
  refine .bind (leaves_many ?_) fun _ => .bind (leaves_require _) fun _ => .pure _
  exact .bind (leaves_trySign _) fun _ => .ite (.bind leaves_markupWord fun _ => .pure _) (.pure _)

/-- A quoted attribute value ends at the first quotation mark of its kind. -/
theorem leaves_attributeString (quote : Char) : Leaves whole (attributeString quote) := by
  refine .get fun s hs => ?_
  rw [List.span_eq_takeWhile_dropWhile]
  have hrest := (List.dropWhile_suffix (· != quote)).trans hs
  dsimp only
  split
  · next heq =>
    rw [heq] at hrest
    exact .bind (.set ((List.suffix_cons _ _).trans hrest)) fun _ => .pure _
  · exact .failure

/-- The value of an attribute: a quoted text, an expression in braces, or an element. -/
theorem leaves_attributeValue (hg : LeavesSuffix grammar) (c : Context) (name : String) :
    Leaves whole (attributeValue grammar c name) := by
  refine .here fun start hstart => ?_
  have hrest : ∀ {m rest}, start = m :: rest → rest <:+ whole := by
    rintro m rest rfl
    exact (List.suffix_cons m rest).trans hstart
  -- Behind a quotation mark, a brace or a sign; the text goes on behind that character.
  split
  · exact .bind (.set (hrest rfl)) fun _ => .bind (leaves_attributeString _) fun _ => .pure _
  · exact .bind (.set (hrest rfl)) fun _ => .bind (leaves_attributeString _) fun _ => .pure _
  · exact .bind (.set (hrest rfl)) fun _ => .bind (hg whole _) fun _ =>
      .bind (leaves_sign _) fun _ => .pure _
  · exact .bind (hg whole _) fun _ => .pure _
  · exact .failure

/-- Attributes up to the end of the opening tag. -/
theorem leaves_attributes (hg : LeavesSuffix grammar) (c : Context) :
    Leaves whole (attributes grammar c) := by
  refine leaves_many (.here fun start hstart => ?_)
  -- The end of the tag, a spread in braces, or one more attribute.
  split
  · exact .pure _
  · exact .pure _
  · next rest =>
    exact .bind (.set ((List.suffix_cons '{' rest).trans hstart)) fun _ =>
      .bind (leaves_mark _) fun _ => .bind (hg whole _) fun _ =>
        .bind (leaves_sign _) fun _ => .pure _
  · refine .bind leaves_attributeName fun _ => .bind (leaves_trySign _) fun _ => .ite ?_ (.pure _)
    exact .bind (leaves_attributeValue hg c _) fun _ => .pure _

/-- A child in braces: nothing, a spread, or an expression. -/
theorem leaves_bracedChild (hg : LeavesSuffix grammar) (c : Context) :
    Leaves whole (bracedChild grammar c) := by
  refine .here fun start hstart => ?_
  split
  · next rest => exact .bind (.set ((List.suffix_cons '}' rest).trans hstart)) fun _ => .pure _
  · refine .bind (leaves_tryMark _) fun _ => .ite ?_ ?_
    · exact .bind (hg whole _) fun _ => .bind (leaves_sign _) fun _ => .pure _
    · exact .bind (hg whole _) fun _ => .bind (leaves_sign _) fun _ => .pure _

/-- Children up to the closing tag; a text between them is left where the next sign is. -/
theorem leaves_children (hg : LeavesSuffix grammar) (c : Context) :
    Leaves whole (children grammar c) := by
  refine leaves_many (.get fun s hs => ?_)
  -- A child is code in braces, a tag or text up to the next of these.
  split
  · next rest =>
    exact .bind (.set ((List.suffix_cons '{' rest).trans hs)) fun _ =>
      .bind (leaves_bracedChild hg c) fun _ => .pure _
  · next rest =>
    split
    · next lineEnd after hskip =>
      have hafter := (skips_of_skipBlanks hskip).suffix.trans ((List.suffix_cons '<' rest).trans hs)
      exact .bind (.set ((List.suffix_cons '/' after).trans hafter)) fun _ => .pure _
    · exact .bind (hg whole _) fun _ => .pure _
  · rw [List.span_eq_takeWhile_dropWhile]
    exact .bind (leaves_require _) fun _ =>
      .bind (.set ((List.dropWhile_suffix _).trans hs)) fun _ => .pure _

/-- An element or a fragment with its children and its closing tag. -/
theorem leaves_markup (hg : LeavesSuffix grammar) (c : Context) :
    Leaves whole (markup grammar c) := by
  refine .here fun start _ => .bind (leaves_sign _) fun _ => .bind (leaves_trySign _) fun _ =>
    .ite ?_ ?_
  · exact .bind (leaves_children hg c) fun _ => .bind (leaves_sign _) fun _ => leaves_close _ _
  refine .bind leaves_tagName fun tag => .bind (leaves_attributes hg c) fun attrs => ?_
  refine .bind (leaves_trySign _) fun _ => .ite ?_ ?_
  · exact .bind (leaves_sign _) fun _ => leaves_close _ _
  · exact .bind (leaves_sign _) fun _ => .bind (leaves_children hg c) fun _ =>
      .bind leaves_tagName fun _ => .bind (leaves_require _) fun _ =>
        .bind (leaves_sign _) fun _ => leaves_close _ _

/-! ### Literals and primary expressions -/

/-- A run of a template's text. -/
theorem leaves_run : Leaves whole run := by
  refine .get fun s hs => ?_
  split
  · next r hr => exact .bind (.set ((takeRun_suffix hr).trans hs)) fun _ => .pure _
  · exact .failure

/-- The brace that ends a substitution. -/
theorem leaves_substitutionEnd : Leaves whole substitutionEnd := by
  refine .here fun start hstart => ?_
  split
  · next rest => exact .set ((List.suffix_cons '}' rest).trans hstart)
  · exact .failure

/-- One more substitution and the run behind it. -/
theorem leaves_nextSubstitution (hg : LeavesSuffix grammar) (c : Context)
    (parts : RunEnd × List Run × List Expr) : Leaves whole (nextSubstitution grammar c parts) := by
  unfold nextSubstitution
  split
  · exact .pure _
  · exact .bind (hg whole _) fun _ => .bind leaves_substitutionEnd fun _ =>
      .bind leaves_run fun _ => .pure _

/-- The runs and substitutions of a template, a loop over `nextSubstitution`. -/
theorem leaves_templateParts (hg : LeavesSuffix grammar) (c : Context) :
    Leaves whole (templateParts grammar c) :=
  .bind leaves_run fun _ => .bind (leaves_grow (leaves_nextSubstitution hg c) _) fun _ => .pure _

/-- A template literal, closed over the text since it began. -/
theorem leaves_template (hg : LeavesSuffix grammar) (c : Context) (start : List Char) :
    Leaves whole (template grammar c start) := by
  refine .bind (leaves_templateParts hg c) fun parts => ?_
  dsimp only
  split
  · exact leaves_close _ _
  · exact .failure

/-- An item of a list: an expression or a spread. -/
theorem leaves_item (hg : LeavesSuffix grammar) (c : Context) : Leaves whole (item grammar c) :=
  .bind (leaves_tryMark _) fun _ =>
    .ite (.bind (hg whole _) fun _ => .pure _) (.bind (hg whole _) fun _ => .pure _)

/-- A place of an array: a hole or an item. -/
theorem leaves_arrayPlace (hg : LeavesSuffix grammar) (c : Context) :
    Leaves whole (arrayPlace grammar c) := by
  refine .bind (leaves_tryMark "]") fun _ => .ite (.pure _) ?_
  refine .bind (leaves_tryMark ",") fun _ => .ite (.pure _) ?_
  refine .bind (leaves_item hg c) fun i => .bind (leaves_atMark "]") fun _ => ?_
  exact .ite (.bind (leaves_mark ",") fun _ => .pure _) (.pure _)

/-- An array literal. -/
theorem leaves_array (hg : LeavesSuffix grammar) (c : Context) (start : List Char) :
    Leaves whole (array grammar c start) :=
  .bind (leaves_many (leaves_arrayPlace hg c)) fun _ => leaves_close _ _

/-- A property of an object literal: a spread, a method, a key with its value, or a name alone. -/
theorem leaves_property (hg : LeavesSuffix grammar) (c : Context) :
    Leaves whole (property grammar c) := by
  refine .bind (leaves_tryMark "...") fun _ => .ite (.bind (hg whole _) fun _ => .pure _) ?_
  refine .bind leaves_modifiers fun m => .get fun before hbefore =>
    .bind (leaves_key hg c) fun k => ?_
  refine .bind (leaves_atMark "(") fun _ => .ite (.bind (leaves_method hg m) fun _ => .pure _) ?_
  refine .bind (leaves_require _) fun _ => .bind (leaves_tryMark ":") fun _ => .ite ?_ ?_
  · exact .bind (hg whole _) fun _ => .pure _
  · exact .bind (.set hbefore) fun _ => .here fun _ _ => .bind (leaves_name c) fun _ =>
      .bind (leaves_close _ _) fun _ => .pure _

/-- An object literal. -/
theorem leaves_object (hg : LeavesSuffix grammar) (c : Context) (start : List Char) :
    Leaves whole (object grammar c start) :=
  .bind (leaves_separated _ (leaves_property hg c)) fun _ => leaves_close _ _

/-- The arguments of a call in parentheses. -/
theorem leaves_arguments (hg : LeavesSuffix grammar) (c : Context) :
    Leaves whole (arguments grammar c) :=
  leaves_separated _ (leaves_item hg c)

/-- What follows `new`: a property of it, or a constructor and its arguments. -/
theorem leaves_newAfterWord (hg : LeavesSuffix grammar) (c : Context) (start : List Char) :
    Leaves whole (newAfterWord grammar c start) := by
  refine .bind (leaves_tryMark ".") fun _ => .ite ?_ ?_
  · exact .bind (leaves_keyword _) fun _ => leaves_close _ _
  refine .bind (hg whole _) fun callee => .bind (leaves_require _) fun _ => ?_
  refine .bind (leaves_tryMark "(") fun _ => .ite ?_ (.bind (.pure _) fun _ => leaves_close _ _)
  exact .bind (leaves_arguments hg c) fun _ => leaves_close _ _

/-- The arguments of a call that loads a module. -/
theorem leaves_importCall (hg : LeavesSuffix grammar) (c : Context) (start : List Char) :
    Leaves whole (importCall grammar c start) :=
  .bind (leaves_mark _) fun _ => .bind (leaves_separated _ (hg whole _)) fun _ =>
    .bind (leaves_require _) fun _ => leaves_close _ _

/-- What follows the word that loads a module: its property, or a call. -/
theorem leaves_importAfterWord (hg : LeavesSuffix grammar) (c : Context) (start : List Char) :
    Leaves whole (importAfterWord grammar c start) := by
  refine .bind (leaves_tryMark ".") fun _ => .ite ?_ (leaves_importCall hg c start)
  refine .bind (leaves_tryWord "meta") fun _ => .ite (leaves_close _ _) ?_
  exact .bind (leaves_tryWord _) fun _ => .bind (leaves_tryWord _) fun _ =>
    .bind (leaves_require _) fun _ => leaves_importCall hg c start

/-- A primary expression that a word begins; `l.rest`, the text behind the word, lies inside
`whole`. -/
theorem leaves_primaryWord (hg : LeavesSuffix grammar) (c : Context) {l : Lexeme}
    (hrest : l.rest <:+ whole) (w : String) (escaped : Bool) :
    Leaves whole (primaryWord grammar c l w escaped) := by
  refine .bind (leaves_ahead _) fun _ => .ite ?_ (.bind (.set hrest) fun _ => ?_)
  · exact .bind (.set hrest) fun _ => .bind (leaves_keyword _) fun _ =>
      .bind (leaves_functionAfterWord hg c true) fun _ => leaves_close _ _
  -- A word that means something by itself: each rule goes on behind the word.
  split
  · exact leaves_close _ _
  · exact leaves_close _ _
  · exact leaves_close _ _
  · exact leaves_close _ _
  · exact .bind (leaves_functionAfterWord hg c false) fun _ => leaves_close _ _
  · exact .bind (leaves_classAfterWord hg c) fun _ => leaves_close _ _
  · exact leaves_newAfterWord hg c _
  · exact leaves_importAfterWord hg c _
  · exact .bind (leaves_atMark _) fun _ => .bind (leaves_atMark _) fun _ =>
      .bind (leaves_atMark _) fun _ => .bind (leaves_require _) fun _ => leaves_close _ _
  · exact .bind (leaves_require _) fun _ => leaves_close _ _

/-- A primary expression, by the token that begins it. -/
theorem leaves_primary (hg : LeavesSuffix grammar) (c : Context) :
    Leaves whole (primary grammar c) := by
  refine .peek fun l hstart hrest => ?_
  dsimp only
  split
  · exact leaves_primaryWord hg c hrest _ _
  · exact .bind (.set hrest) fun _ => leaves_close _ _
  · exact .bind (.set hrest) fun _ => leaves_close _ _
  · exact .bind (.set hrest) fun _ => leaves_close _ _
  · exact .bind (.set hrest) fun _ => .bind (hg whole _) fun _ =>
      .bind (leaves_mark _) fun _ => leaves_close _ _
  · exact .bind (.set hrest) fun _ => leaves_array hg c _
  · exact .bind (.set hrest) fun _ => leaves_object hg c _
  · exact .bind (.set hrest) fun _ => leaves_template hg c _
  · exact hg whole _
  · exact .bind (leaves_decorators hg c) fun _ => .bind (leaves_keyword _) fun _ =>
      .bind (leaves_classAfterWord hg c) fun _ => leaves_close _ _
  -- The two marks that a regular expression can begin with.
  iterate 2
    · split
      · next rest hregex =>
        have hbehind := (regex_suffix hregex).trans ((List.drop_suffix 1 _).trans hstart)
        exact .bind (.set hbehind) fun _ => leaves_close _ _
      · exact .failure
  · exact .failure

/-! ### Expressions -/

/-- The name behind a dot. -/
theorem leaves_memberAfterDot (start : List Char) (object : Expr) :
    Leaves whole (memberAfterDot start object) := by
  refine .peek fun l _ hrest => ?_
  split
  · exact .bind (.set hrest) fun _ => leaves_close _ _
  · exact .bind (.set hrest) fun _ => leaves_close _ _
  · exact .failure

/-- The key in brackets. -/
theorem leaves_memberInBrackets (hg : LeavesSuffix grammar) (c : Context) (start : List Char)
    (object : Expr) : Leaves whole (memberInBrackets grammar c start object) :=
  .bind (hg whole _) fun _ => .bind (leaves_mark _) fun _ => leaves_close _ _

/-- The arguments of a call. -/
theorem leaves_callInParens (hg : LeavesSuffix grammar) (c : Context) (start : List Char)
    (callee : Expr) : Leaves whole (callInParens grammar c start callee) :=
  .bind (leaves_arguments hg c) fun _ => leaves_close _ _

/-- One more link of a chain: a member, a call or a tagged template. -/
theorem leaves_link (hg : LeavesSuffix grammar) (c : Context) (calls : Bool) (start : List Char)
    (chain : Link) : Leaves whole (link grammar c calls start chain) := by
  refine .peek fun l _ hrest => ?_
  split
  · exact .bind (.set hrest) fun _ => .bind (leaves_memberAfterDot _ _) fun _ => .pure _
  · exact .bind (.set hrest) fun _ => .bind (leaves_memberInBrackets hg c _ _) fun _ => .pure _
  · refine .ite (.bind (.set hrest) fun _ => ?_) (.pure _)
    exact .bind (leaves_callInParens hg c _ _) fun _ => .pure _
  · exact .bind (leaves_require _) fun _ => .bind (.set hrest) fun _ =>
      .bind (leaves_templateParts hg c) fun _ => .bind (leaves_close _ _) fun _ => .pure _
  · -- An optional link is looked at twice: what stands behind `?.` tells the kind of the link.
    refine .bind (leaves_require _) fun _ => .bind (.set hrest) fun _ =>
      .peek fun next _ hnext => ?_
    split
    · exact .bind (.set hnext) fun _ => .bind (leaves_memberInBrackets hg c _ _) fun _ => .pure _
    · exact .bind (.set hnext) fun _ => .bind (leaves_callInParens hg c _ _) fun _ => .pure _
    · exact .bind (leaves_memberAfterDot _ _) fun _ => .pure _
  · exact .pure _

/-- A chain of members and calls on a primary expression, a loop over `link`. -/
theorem leaves_access (hg : LeavesSuffix grammar) (c : Context) (calls : Bool) :
    Leaves whole (access grammar c calls) := by
  refine .here fun start _ => .bind (leaves_primary hg c) fun e => ?_
  refine .bind (leaves_grow (leaves_link hg c calls start) _) fun chain => ?_
  exact .ite (leaves_close _ _) (.pure _)

/-- A chain with `++` or `--` behind it. -/
theorem leaves_postfixed (hg : LeavesSuffix grammar) (c : Context) :
    Leaves whole (postfixed grammar c) := by
  refine .here fun start _ => .bind (hg whole _) fun e => .peek fun l _ hrest => .ite ?_ (.pure _)
  exact .bind (leaves_require _) fun _ => .bind (.set hrest) fun _ => leaves_close _ _

/-- Operators before an operand. -/
theorem leaves_unary (hg : LeavesSuffix grammar) (c : Context) :
    Leaves whole (unary grammar c) := by
  refine .peek fun l _ hrest => ?_
  split
  · exact .bind (.set hrest) fun _ => .bind (hg whole _) fun _ => leaves_close _ _
  refine .ite ?_ (.bind (leaves_atWord _) fun _ => .ite (.ite ?_ ?_) (leaves_postfixed hg c))
  · exact .bind (.set hrest) fun _ => .bind (hg whole _) fun _ =>
      .bind (leaves_require _) fun _ => leaves_close _ _
  · exact .bind (.set hrest) fun _ => .bind (hg whole _) fun _ => leaves_close _ _
  · exact .bind (leaves_ahead _) fun _ => .bind (leaves_require _) fun _ => leaves_postfixed hg c

/-- One more operation at a level of precedence. -/
theorem leaves_operation (hg : LeavesSuffix grammar) (c : Context) (level : Nat)
    (start : List Char) (left : Expr) : Leaves whole (operation grammar c level start left) := by
  refine .peek fun l _ hrest => ?_
  split
  · exact .pure _
  · refine .ite (.pure _) (.bind (.set hrest) fun _ => .bind (hg whole _) fun right => ?_)
    exact .bind (leaves_require _) fun _ => .bind (leaves_close _ _) fun _ => .pure _

/-- A private name before `in`. -/
theorem leaves_hiddenIn (hg : LeavesSuffix grammar) (c : Context) {l : Lexeme}
    (hrest : l.rest <:+ whole) : Leaves whole (hiddenIn grammar c l) :=
  .bind (.set hrest) fun _ => .bind (leaves_keyword _) fun _ => .bind (hg whole _) fun _ =>
    leaves_close _ _

/-- The operations of all levels from `level` on; the recursion is on the levels that are left. -/
theorem leaves_binary (hg : LeavesSuffix grammar) (c : Context) (level : Nat) :
    Leaves whole (binary grammar c level) := by
  refine .here fun start _ => .peek fun l _ hrest => ?_
  have hgrow : ∀ left, Leaves whole (grow (operation grammar c level start) left) :=
    leaves_grow (leaves_operation hg c level start)
  dsimp only
  split
  · exact .bind (leaves_hiddenIn hg c hrest) hgrow
  · exact .bind (hg whole _) hgrow

/-- A condition with its two branches. -/
theorem leaves_conditional (hg : LeavesSuffix grammar) (c : Context) :
    Leaves whole (conditional grammar c) := by
  refine .here fun start _ => .bind (hg whole _) fun test => ?_
  refine .bind (leaves_tryMark _) fun _ => .ite ?_ (.pure _)
  exact .bind (hg whole _) fun _ => .bind (leaves_mark _) fun _ => .bind (hg whole _) fun _ =>
    leaves_close _ _

/-- The arrow of an arrow function stands on the line of its parameters. -/
theorem leaves_arrow : Leaves whole arrow :=
  .peek fun _ _ _ => .bind (leaves_require _) fun _ => leaves_mark _

/-- The parameters of an arrow function. -/
theorem leaves_arrowHead (hg : LeavesSuffix grammar) (c : Context) :
    Leaves whole (arrowHead grammar c) := by
  refine .bind (leaves_tryMark _) fun _ => .ite ?_ ?_
  · exact .bind (leaves_parameters hg c) fun _ => .bind leaves_arrow fun _ => .pure _
  · exact .bind (leaves_name c) fun _ => .bind leaves_arrow fun _ => .pure _

/-- The body of an arrow function: a block or an expression. -/
theorem leaves_arrowBody (hg : LeavesSuffix grammar) (c : Context) (awaits : Bool) :
    Leaves whole (arrowBody grammar c awaits) := by
  refine .bind (leaves_atMark _) fun _ => .ite ?_ ?_
  · exact .bind (leaves_block hg _) fun _ => .pure _
  · exact .bind (hg whole _) fun _ => .pure _

/-- Whether an arrow function begins here is found out by reading its head and going back. -/
theorem leaves_arrowStart (hg : LeavesSuffix grammar) (c : Context) :
    Leaves whole (arrowStart grammar c) := by
  have hasync : Leaves whole asyncWord :=
    .bind (leaves_keyword _) fun _ => .peek fun _ _ _ => leaves_require _
  refine .bind (leaves_attempt (.bind hasync fun _ => leaves_arrowHead hg _)) fun head => ?_
  split
  · exact .pure _
  · exact .bind (leaves_arrowHead hg c) fun _ => .pure _

/-- An assignment to a pattern reads what was read as a literal again, from where it began. -/
theorem leaves_destructuring (hg : LeavesSuffix grammar) (c : Context) (start : List Char) :
    Leaves whole (destructuring grammar c start) :=
  .bind (leaves_atMark _) fun _ => .bind (leaves_atMark _) fun _ =>
    .bind (leaves_require _) fun _ => .bind (hg whole _) fun _ => .bind (leaves_mark _) fun _ =>
      .bind (hg whole _) fun _ => leaves_close _ _

/-- A bracketed expression is read again from `start` on. -/
theorem leaves_assignmentTo (hg : LeavesSuffix grammar) (c : Context) {start : List Char}
    (hstart : start <:+ whole) (left : Expr) :
    Leaves whole (assignmentTo grammar c start left) := by
  refine .peek fun l _ hrest => ?_
  split
  · refine .ite (.bind (.set hstart) fun _ => leaves_destructuring hg c start) (.ite ?_ (.pure _))
    exact .bind (leaves_require _) fun _ => .bind (.set hrest) fun _ =>
      .bind (hg whole _) fun _ => leaves_close _ _
  · exact .pure _

/-- What follows `yield`. -/
theorem leaves_yieldAfterWord (hg : LeavesSuffix grammar) (c : Context) (start : List Char) :
    Leaves whole (yieldAfterWord grammar c start) := by
  refine .peek fun l _ _ => .ite (leaves_close _ _) (.bind (leaves_tryMark _) fun _ => ?_)
  exact .bind (hg whole _) fun _ => leaves_close _ _

/-- An assignment, an arrow function, or what stands above them. -/
theorem leaves_assignment (hg : LeavesSuffix grammar) (c : Context) :
    Leaves whole (assignment grammar c) := by
  refine .here fun start hstart => .bind (leaves_atWord _) fun _ => .ite ?_ ?_
  · exact .bind (leaves_keyword _) fun _ => leaves_yieldAfterWord hg c start
  refine .bind (leaves_attempt (leaves_arrowStart hg c)) fun head => ?_
  split
  · exact .bind (leaves_arrowBody hg c _) fun _ => leaves_close _ _
  refine .bind (leaves_attempt (leaves_conditional hg c)) fun left => ?_
  split
  · exact leaves_assignmentTo hg c hstart _
  · exact leaves_destructuring hg c start

/-- Assignments with commas between them. -/
theorem leaves_expression (hg : LeavesSuffix grammar) (c : Context) :
    Leaves whole (expression grammar c) := by
  refine .here fun start _ => .bind (hg whole _) fun first =>
    .bind (leaves_many ?_) fun others => ?_
  · refine .bind (leaves_tryMark _) fun _ => .ite ?_ (.pure _)
    exact .bind (hg whole _) fun _ => .pure _
  · exact .ite (.pure _) (leaves_close _ _)

/-! ### Statements -/

/-- Whether a declaration begins here is a question to the tokens ahead. -/
theorem leaves_declarationKind? (c : Context) : Leaves whole (declarationKind? c) := by
  refine .bind (leaves_atWord _) fun _ => .ite (.pure _) ?_
  refine .bind (leaves_atWord _) fun _ => .ite (.pure _) ?_
  refine .bind (leaves_ahead _) fun _ => .ite (.pure _) ?_
  exact .bind (leaves_ahead _) fun _ => .ite (.pure _) (.pure _)

/-- A pattern with its initial value. -/
theorem leaves_declarator (hg : LeavesSuffix grammar) (c : Context) :
    Leaves whole (declarator grammar c) := by
  refine .bind (hg whole _) fun p => .bind (leaves_tryMark _) fun _ => .ite ?_ (.pure _)
  exact .bind (hg whole _) fun _ => .pure _

/-- Declarators with commas between them. -/
theorem leaves_declarators (hg : LeavesSuffix grammar) (c : Context) :
    Leaves whole (declarators grammar c) := by
  refine .bind (leaves_declarator hg c) fun first => .bind (leaves_many ?_) fun _ => .pure _
  refine .bind (leaves_tryMark _) fun _ => .ite ?_ (.pure _)
  exact .bind (leaves_declarator hg c) fun _ => .pure _

/-- The declarators of a declaration and its end. -/
theorem leaves_declaration (hg : LeavesSuffix grammar) (c : Context) (kind : DeclarationKind) :
    Leaves whole (declaration grammar c kind) :=
  .bind leaves_anyWord fun _ => .bind (leaves_declarators hg c) fun _ =>
    .bind (leaves_require _) fun _ => .bind leaves_semicolon fun _ => .pure _

/-- An expression in parentheses. -/
theorem leaves_parenthesised (hg : LeavesSuffix grammar) (c : Context) :
    Leaves whole (parenthesised grammar c) :=
  .bind (leaves_mark _) fun _ => .bind (hg whole _) fun _ => .bind (leaves_mark _) fun _ => .pure _

/-- The word between a loop's variable and what it goes over. -/
theorem leaves_loopWord : Leaves whole loopWord :=
  .bind (leaves_tryWord _) fun _ => .ite (.pure _) (leaves_tryWord _)

/-- An expression that may be absent before a mark. -/
theorem leaves_optionalUpTo (hg : LeavesSuffix grammar) (c : Context) (m : String) :
    Leaves whole (optionalUpTo grammar c m) := by
  refine .bind (leaves_tryMark m) fun _ => .ite (.pure _) ?_
  exact .bind (hg whole _) fun _ => .bind (leaves_mark m) fun _ => .pure _

/-- The rest of a loop's head that counts. -/
theorem leaves_countingRest (hg : LeavesSuffix grammar) (c : Context) :
    Leaves whole (countingRest grammar c) :=
  .bind (leaves_optionalUpTo hg c _) fun _ => .bind (leaves_optionalUpTo hg c _) fun _ => .pure _

/-- The rest of a loop's head that goes over a collection. -/
theorem leaves_overRest (hg : LeavesSuffix grammar) (c : Context) :
    Leaves whole (overRest grammar c) :=
  .bind (hg whole _) fun _ => .bind (leaves_mark _) fun _ => .pure _

/-- A loop's head that declares its variable. -/
theorem leaves_declaringHead (hg : LeavesSuffix grammar) (c : Context) (kind : DeclarationKind) :
    Leaves whole (declaringHead grammar c kind) := by
  refine .bind leaves_anyWord fun _ => .bind (leaves_declarators hg _) fun ds => ?_
  refine .bind leaves_loopWord fun _ => .ite ?_ ?_
  · exact .bind (leaves_require _) fun _ => .bind (leaves_overRest hg c) fun _ => .pure _
  · exact .bind (leaves_require _) fun _ => .bind (leaves_mark _) fun _ =>
      .bind (leaves_countingRest hg c) fun _ => .pure _

/-- A loop's head that assigns to a target, read with `Leaves.set`. -/
theorem leaves_assigningHead (hg : LeavesSuffix grammar) (c : Context) :
    Leaves whole (assigningHead grammar c) :=
  .bind (hg whole _) fun _ => .bind leaves_loopWord fun _ => .bind (leaves_require _) fun _ =>
    .bind (leaves_overRest hg c) fun _ => .pure _

/-- A loop's head, by what it begins with. -/
theorem leaves_forHead (hg : LeavesSuffix grammar) (c : Context) :
    Leaves whole (forHead grammar c) := by
  refine .bind (leaves_tryMark _) fun _ => .ite (leaves_countingRest hg c) ?_
  refine .bind (leaves_declarationKind? c) fun kind => ?_
  split
  · exact leaves_declaringHead hg c _
  refine .bind (leaves_attempt (leaves_assigningHead hg c)) fun head => ?_
  split
  · exact .pure _
  · exact .bind (hg whole _) fun _ => .bind (leaves_mark _) fun _ =>
      .bind (leaves_countingRest hg c) fun _ => .pure _

/-- What follows `if`. -/
theorem leaves_branchAfterWord (hg : LeavesSuffix grammar) (c : Context) :
    Leaves whole (branchAfterWord grammar c) := by
  refine .bind (leaves_parenthesised hg c) fun test => .bind (hg whole _) fun consequent => ?_
  refine .bind (leaves_tryWord _) fun _ => .ite ?_ (.bind (.pure _) fun _ => .pure _)
  exact .bind (hg whole _) fun _ => .bind (.pure _) fun _ => .pure _

/-- The test of a case, absent for the default one. -/
theorem leaves_caseTest (hg : LeavesSuffix grammar) (c : Context) :
    Leaves whole (caseTest grammar c) := by
  refine .bind (leaves_tryWord _) fun _ => .ite ?_ ?_
  · exact .bind (hg whole _) fun _ => .pure _
  · exact .bind (leaves_keyword _) fun _ => .pure _

/-- The statements of a case. -/
theorem leaves_caseBody (hg : LeavesSuffix grammar) (c : Context) :
    Leaves whole (caseBody grammar c) := by
  refine leaves_many (.bind (leaves_atMark _) fun _ => .bind (leaves_atWord _) fun _ => ?_)
  exact .bind (leaves_atWord _) fun _ => .ite (.pure _) (.bind (hg whole _) fun _ => .pure _)

/-- A case with its statements. -/
theorem leaves_switchCase (hg : LeavesSuffix grammar) (c : Context) :
    Leaves whole (switchCase grammar c) := by
  refine .bind (leaves_tryMark _) fun _ => .ite (.pure _) (.bind (leaves_caseTest hg c) fun _ => ?_)
  exact .bind (leaves_mark _) fun _ => .bind (leaves_caseBody hg c) fun _ => .pure _

/-- What follows `switch`. -/
theorem leaves_switchAfterWord (hg : LeavesSuffix grammar) (c : Context) :
    Leaves whole (switchAfterWord grammar c) :=
  .bind (leaves_parenthesised hg c) fun _ => .bind (leaves_mark _) fun _ =>
    .bind (leaves_many (leaves_switchCase hg c)) fun _ => .pure _

/-- The pattern that a handler binds. -/
theorem leaves_caught (hg : LeavesSuffix grammar) (c : Context) :
    Leaves whole (caught grammar c) := by
  refine .bind (leaves_tryMark _) fun _ => .ite ?_ (.pure _)
  exact .bind (hg whole _) fun _ => .bind (leaves_mark _) fun _ => .pure _

/-- What follows `catch`. -/
theorem leaves_handler (hg : LeavesSuffix grammar) (c : Context) :
    Leaves whole (handler grammar c) := by
  refine .bind (leaves_tryWord _) fun _ => .ite ?_ (.pure _)
  exact .bind (leaves_caught hg c) fun _ => .bind (leaves_block hg c) fun _ => .pure _

/-- What follows `finally`. -/
theorem leaves_finalBlock (hg : LeavesSuffix grammar) (c : Context) :
    Leaves whole (finalBlock grammar c) := by
  refine .bind (leaves_tryWord _) fun _ => .ite ?_ (.pure _)
  exact .bind (leaves_block hg c) fun _ => .pure _

/-- What follows `try`. -/
theorem leaves_tryAfterWord (hg : LeavesSuffix grammar) (c : Context) :
    Leaves whole (tryAfterWord grammar c) :=
  .bind (leaves_block hg c) fun _ => .bind (leaves_handler hg c) fun _ =>
    .bind (leaves_finalBlock hg c) fun _ => .bind (leaves_require _) fun _ => .pure _

/-- What follows `return`, on the same line. -/
theorem leaves_returnAfterWord (hg : LeavesSuffix grammar) (c : Context) :
    Leaves whole (returnAfterWord grammar c) := by
  refine .bind (leaves_require _) fun _ => .peek fun l _ _ => .ite ?_ ?_
  · exact .bind leaves_semicolon fun _ => .pure _
  · exact .bind (hg whole _) fun _ => .bind leaves_semicolon fun _ => .pure _

/-- What follows `break` and `continue`. -/
theorem leaves_jumpAfterWord (c : Context) : Leaves whole (jumpAfterWord c) := by
  have hend : Leaves whole (do semicolon; pure (Stmt.other [])) :=
    .bind leaves_semicolon fun _ => .pure _
  refine .peek fun l _ hrest => ?_
  dsimp only
  split
  · exact .ite (.bind (.set hrest) fun _ => hend) hend
  · exact hend

/-- An expression and the semicolon behind it. -/
theorem leaves_expressionStatement (hg : LeavesSuffix grammar) (c : Context) :
    Leaves whole (expressionStatement grammar c) :=
  .bind (hg whole _) fun _ => .bind leaves_semicolon fun _ => .pure _

/-- Every statement that a keyword begins. -/
theorem leaves_afterKeyword? (hg : LeavesSuffix grammar) (c : Context) (only : Bool) (w : String) :
    ∀ p ∈ afterKeyword? grammar c only w, Leaves whole p := by
  intro p hp
  unfold afterKeyword? at hp
  -- One case for each keyword, in the order of `afterKeyword?`.
  split at hp <;> cases hp
  · exact leaves_branchAfterWord hg c
  · exact .bind (leaves_tryWord _) fun _ => .bind (leaves_mark _) fun _ =>
      .bind (leaves_forHead hg c) fun _ => .bind (hg whole _) fun _ => .pure _
  · exact .bind (leaves_parenthesised hg c) fun _ => .bind (hg whole _) fun _ => .pure _
  · exact .bind (leaves_parenthesised hg c) fun _ => .bind (hg whole _) fun _ => .pure _
  · exact .bind (hg whole _) fun _ => .bind (leaves_keyword _) fun _ =>
      .bind (leaves_parenthesised hg c) fun _ => .bind (leaves_tryMark _) fun _ => .pure _
  · exact leaves_switchAfterWord hg c
  · exact leaves_tryAfterWord hg c
  · exact leaves_returnAfterWord hg c
  · exact leaves_jumpAfterWord c
  · exact leaves_jumpAfterWord c
  · exact .peek fun _ _ _ => .bind (leaves_require _) fun _ => .bind (hg whole _) fun _ =>
      .bind leaves_semicolon fun _ => .pure _
  · exact .bind leaves_semicolon fun _ => .pure _
  · exact .bind (leaves_functionAfterWord hg c false) fun _ => .bind (leaves_require _) fun _ =>
      .pure _
  · exact .bind (leaves_require _) fun _ => .bind (leaves_atWord _) fun _ =>
      .bind (leaves_atMark _) fun _ => .bind (leaves_require _) fun _ =>
        .bind (leaves_classAfterWord hg c) fun _ => .pure _

/-- A statement that a word begins: one of a keyword, a label, or an expression. -/
theorem leaves_wordStatement (hg : LeavesSuffix grammar) (c : Context) (only : Bool) {l : Lexeme}
    (hrest : l.rest <:+ whole) (w : String) (escaped : Bool) :
    Leaves whole (wordStatement grammar c only l w escaped) := by
  unfold wordStatement
  split
  · -- A keyword leads on by its own rule.
    next p hp =>
    refine .bind (.set hrest) fun _ => leaves_afterKeyword? hg c only w p ?_
    split at hp
    · cases hp
    · exact hp
  -- Other words begin a declaration, a label or an expression.
  refine .bind (leaves_ahead _) fun _ => .ite ?_ (.bind (leaves_declarationKind? c) fun kind => ?_)
  · exact .bind (leaves_keyword _) fun _ => .bind (leaves_keyword _) fun _ =>
      .bind (leaves_functionAfterWord hg c true) fun _ => .bind (leaves_require _) fun _ => .pure _
  split
  · exact .bind (leaves_require _) fun _ => leaves_declaration hg c _
  refine .bind (leaves_ahead _) fun _ => .ite ?_ (leaves_expressionStatement hg c)
  exact .bind (leaves_name c) fun _ => .bind (leaves_mark _) fun _ => .bind (hg whole _) fun _ =>
    .pure _

/-- A statement, by the token that begins it. -/
theorem leaves_statement (hg : LeavesSuffix grammar) (c : Context) (only : Bool) :
    Leaves whole (statement grammar c only) := by
  refine .peek fun l _ hrest => ?_
  split
  · exact .bind (leaves_block hg c) fun _ => .pure _
  · exact .bind (.set hrest) fun _ => .pure _
  · exact .bind (leaves_decorators hg c) fun _ => .bind (leaves_keyword _) fun _ =>
      .bind (leaves_classAfterWord hg c) fun _ => .pure _
  · exact leaves_wordStatement hg c only hrest _ _
  · exact leaves_expressionStatement hg c

end Rules

/-! ### The unrolled grammar -/

/-- One unrolling keeps the invariant. -/
theorem leavesSuffix_rule {grammar : Grammar} (hg : LeavesSuffix grammar) :
    LeavesSuffix (rule grammar) := by
  intro whole g
  -- One lemma for each kind of goal.
  cases g with
  | expression c => exact leaves_expression hg c
  | assignment c => exact leaves_assignment hg c
  | binary c level => exact leaves_binary hg c level
  | unary c => exact leaves_unary hg c
  | access c calls => exact leaves_access hg c calls
  | target c => exact leaves_target hg c
  | pattern c => exact leaves_pattern hg c
  | statement c only => exact leaves_statement hg c only
  | markup c => exact leaves_markup hg c

/-- **Every nonterminal leaves a suffix.** -/
theorem leavesSuffix_unrolled (depth : Nat) : LeavesSuffix (unrolled depth) := by
  induction depth with
  | zero => exact fun whole g => .failure
  | succ depth ih => exact leavesSuffix_rule ih

end Stencil.Script.Parser
