import Stencil.Proofs.Script.Name
import Stencil.Proofs.Script.Opening
import Stencil.Proofs.Script.Span

/-!
# Expressions and their source

An expression that the grammar answers is spelled where it was read: its text stands there, from the
first token on up to what is left (`Spelled`). So the substitutions of a template literal stand in
it one behind the other, each of them behind its own opening mark, and the marks that they hold
themselves are marks of the literal as well. `openers` counts these marks, and `load` what a list of
substitutions needs of them.

* `spelled_of_parse?` — what is read is a segment of the text;
* `template_of_parse?` — a template literal that is read has one run more than substitutions, every
  run reads as it says, and the marks it needs are there: `load` of its substitutions is at most
  `openers` of the text.

The grammar is walked through a second time, now along the rules of expressions only. A rule either
closes an expression at its end, and then only what it leaves matters (`Within`), or it hands on
what another nonterminal has answered. There the text must not move, so these rules are followed
state by state (`From`).
-/

namespace Stencil.Script

/-! ### What an expression keeps of its source -/

/-- A template literal behind a backtick of the text: one run more than substitutions, each run
reads as it says, and the marks that the substitutions need stand behind the backtick. -/
structure IsTemplate (whole : List Char) (runs : List Quasi) (es : List Expr) : Prop where
  length : runs.length = es.length + 1
  wellRead : ∀ q ∈ runs, q.WellRead
  load_le : ∃ behind, '`' :: behind <:+ whole ∧ load es ≤ openers behind

mutual

/-- The template literals in the parentheses of an expression are template literals of the text. -/
def Expr.InSource (whole : List Char) : Expr → Prop
  | .mk _ form => form.InSource whole

/-- The template literals in the parentheses of a form are template literals of the text. -/
def Form.InSource (whole : List Char) : Form → Prop
  | .paren inner => inner.InSource whole
  | .template runs es => IsTemplate whole runs es
  | _ => True

end

/-- The runs and substitutions of a template lie in every larger text too. -/
theorem IsTemplate.mono {whole whole' : List Char} {runs : List Quasi} {es : List Expr}
    (h : IsTemplate whole runs es) (hwhole : whole <:+ whole') : IsTemplate whole' runs es := by
  obtain ⟨behind, hbehind, hload⟩ := h.load_le
  exact ⟨h.length, h.wellRead, behind, hbehind.trans hwhole, hload⟩

/-- Parentheses add nothing to where an expression stands. -/
theorem Expr.InSource.bare {whole : List Char} {e : Expr} (h : e.InSource whole) :
    e.bare.InSource whole := by
  fun_induction Expr.bare e with
  | case1 text inner ih => exact ih h
  | case2 e _ => exact h

/-- What stands in a text stands in every larger text. -/
theorem Expr.InSource.mono {whole whole' : List Char} {e : Expr} (h : e.InSource whole)
    (hwhole : whole <:+ whole') : e.InSource whole' := by
  fun_induction Expr.bare e with
  | case1 text inner ih => exact ih h
  | case2 e hparen =>
    obtain ⟨text, form⟩ := e
    cases form with
    | paren inner => exact absurd rfl (hparen text inner)
    | template runs es => exact IsTemplate.mono h hwhole
    | _ => trivial

/-- The expression is spelled from `start` on, up to `rest`. -/
structure Spelled (start : List Char) (e : Expr) (rest : List Char) : Prop where
  text : start = e.text.toList ++ rest
  inSource : e.InSource start

/-- The expression is spelled from the next token on, up to `rest`. -/
def SpelledNext (s : List Char) (e : Expr) (rest : List Char) : Prop :=
  ∃ lineEnd start, skipBlanks s = some (lineEnd, start) ∧ Spelled start e rest

/-- What is left behind a spelled expression is a suffix of where it began. -/
theorem Spelled.suffix {start rest : List Char} {e : Expr} (h : Spelled start e rest) :
    rest <:+ start := by
  rw [h.text]
  exact List.suffix_append _ _

namespace Parser

variable {α β : Type} {s start : List Char} {post : α → List Char → Prop}

/-! ### From a text on -/

/-- Run on `s`, the parser satisfies `post` with what it answers and leaves. -/
def From (s : List Char) (p : Parser α) (post : α → List Char → Prop) : Prop :=
  ∀ a s', p s = some (a, s') → post a s'

/-- `P` holds of what is answered and left, or nothing is answered and the text stays `s`. -/
def OrStays (s : List Char) (P : α → List Char → Prop) : Option α → List Char → Prop
  | some a => P a
  | none => fun s' => s' = s

/-- The parser only looks: it leaves the text as it is. -/
def Stays (p : Parser α) : Prop :=
  ∀ s, From s p fun _ s' => s' = s

/-- A parser that satisfies `post` inside a text satisfies it from every suffix of the text. -/
theorem Within.from {p : Parser α} (h : Within start p post) (hs : s <:+ start) : From s p post :=
  fun a s' => h s a s' hs

/-- A parser that reads nothing satisfies what already holds. -/
theorem From.pure {a : α} (h : post a s) : From s (pure a) post := by
  intro b s' hb
  cases hb
  exact h

/-- A parser that never answers has nothing to satisfy. -/
theorem From.failure : From s (failure : Parser α) post := nofun

/-- In a sequence the second parser starts from where the first one ended. -/
theorem From.bind {p : Parser β} {f : β → Parser α} {Q : β → List Char → Prop}
    (hp : From s p Q) (hf : ∀ b t, Q b t → From t (f b) post) : From s (p >>= f) post := by
  intro a s' h
  obtain ⟨⟨b, t⟩, hb, h⟩ := Option.bind_eq_some_iff.1 h
  exact hf b t (hp b t hb) a s' h

/-- Going back to a text is to start from there. -/
theorem From.set {t : List Char} {f : PUnit → Parser α} (h : From t (f .unit) post) :
    From s (set t >>= f) post :=
  h

/-- A parser chosen by a test satisfies what both choices satisfy. -/
theorem From.ite {q : Prop} [Decidable q] {p p' : Parser α} (hp : From s p post)
    (hp' : From s p' post) : From s (if q then p else p') post := by
  split
  · exact hp
  · exact hp'

/-- A first parser that moves nowhere can be passed over. -/
theorem From.stays {p : Parser β} {f : β → Parser α} (hp : Stays p)
    (hf : ∀ b, From s (f b) post) : From s (p >>= f) post := by
  refine .bind (hp s) fun b t ht => ?_
  subst ht
  exact hf b

/-- A rule that looks at the next token knows that it is the next one. -/
theorem From.peek {f : Lexeme → Parser α}
    (hf : ∀ l, nextToken s = some l → From s (f l) post) : From s (peek >>= f) post := by
  intro a s' h
  obtain ⟨⟨l, t⟩, hpeek, ha⟩ := Option.bind_eq_some_iff.1 h
  obtain ⟨hl, rfl⟩ := peek_spec hpeek
  exact hf l hl a s' ha

/-- An attempt ends as the parser does, or answers nothing and has not moved. -/
theorem From.attempt {p : Parser α} (hp : From s p post) :
    From s (attempt p) (OrStays s post) := by
  intro o s' h
  rw [run_attempt] at h
  -- Either the parser failed and nothing was read, or the attempt is the parser.
  cases hrun : p s with
  | none =>
    rw [hrun] at h
    cases h
    rfl
  | some r =>
    rw [hrun] at h
    cases h
    exact hp _ _ hrun

/-- A condition moves nowhere. -/
theorem stays_require (condition : Bool) : Stays (require condition) := by
  intro s
  cases condition
  · exact .failure
  · exact .pure rfl

/-- Asking for a word moves nowhere. -/
theorem stays_atWord (w : String) : Stays (atWord w) := by
  refine fun s => .peek fun l _ => ?_
  split
  · exact .pure rfl
  · exact .pure rfl

/-- Looking ahead moves nowhere. -/
theorem stays_ahead (p : Parser Bool) : Stays (ahead p) := by
  intro s b s' h
  rw [run_ahead] at h
  split at h
  · cases h
    rfl
  · cases h
    rfl

/-- A mark that is not there is not read. -/
theorem from_tryMark (m : String) :
    From s (tryMark m) fun b s' => s' <:+ s ∧ (b = false → s' = s) := by
  refine .peek fun l hl => ?_
  obtain ⟨hrest, hstart⟩ := nextToken_suffix hl
  split
  · exact .ite (.set (.pure ⟨hrest.trans hstart, nofun⟩)) (.pure ⟨List.suffix_refl _, fun _ => rfl⟩)
  · exact .pure ⟨List.suffix_refl _, fun _ => rfl⟩

/-- What one extension keeps, the loop keeps; an extension that answers nothing must stay. -/
theorem From.grow {P : α → List Char → Prop} {p : α → Parser (Option α)}
    (hp : ∀ a s, P a s → From s (p a) (OrStays s P)) {a : α} (ha : P a s) :
    From s (grow p a) P := by
  -- By induction on the bound of the loop.
  have hbound : ∀ bound a s, P a s → From s (growUpTo p bound a) P := by
    intro bound
    induction bound with
    | zero => exact fun a s ha => .pure ha
    | succ bound ih =>
      intro a s ha
      refine .bind (hp a s ha) fun o s' ho => ?_
      cases o with
      | none =>
        obtain rfl : s' = s := ho
        exact .pure ha
      | some b => exact ih b s' ho
  exact fun b s' h => hbound _ a s ha b s' h

/-- A loop that answers nothing has read nothing. -/
theorem from_many {p : Parser (Option α)} (hp : ∀ s, From s p fun o s' => o = none → s' = s) :
    From s (many p) fun as s' => as = [] → s' = s := by
  have hbound : ∀ bound, From s (manyUpTo p bound) fun as s' => as = [] → s' = s := by
    intro bound
    -- If nothing was collected, the first round found nothing.
    cases bound with
    | zero => exact .pure fun _ => rfl
    | succ bound =>
      refine .bind (hp s) fun o t ht => ?_
      cases o with
      | none => exact .pure fun _ => ht rfl
      | some a => exact .bind (Q := fun _ _ => True) (fun _ _ _ => trivial) fun _ _ _ => .pure nofun
  exact fun as s' h => hbound _ as s' h

/-! ### Closing and handing on -/

/-- An expression that is closed is spelled from where it began. -/
theorem within_close {form : Form} (h : form.InSource start) :
    Within start (close start form) (Spelled start) := by
  rintro s e s' ⟨text, rfl⟩ hrun
  rw [run_close] at hrun
  cases hrun
  rw [consumed_append]
  exact ⟨by simp [Expr.text], h⟩

/-- A form in the source becomes an expression that is spelled by what was consumed. -/
theorem from_close {form : Form} (hs : s <:+ start) (h : form.InSource start) :
    From s (close start form) (Spelled start) :=
  (within_close h).from hs

/-- Where the next token begins, an expression that is spelled from it on is spelled from there. -/
theorem SpelledNext.spelled {e : Expr} {rest : List Char} (h : SpelledNext start e rest)
    (hstart : skipBlanks start = some (false, start)) : Spelled start e rest := by
  obtain ⟨lineEnd, start', hskip, hspelled⟩ := h
  cases hstart.symm.trans hskip
  exact hspelled

/-- A rule that begins at `here` begins behind the blanks. -/
theorem from_here {f : List Char → Parser Expr}
    (hf : ∀ start, skipBlanks start = some (false, start) → From start (f start) (Spelled start)) :
    From s (here >>= f) (SpelledNext s) := by
  intro e s' h
  obtain ⟨⟨start, t⟩, hhere, he⟩ := Option.bind_eq_some_iff.1 h
  obtain ⟨⟨lineEnd, hskip⟩, rfl⟩ := here_spec hhere
  exact ⟨lineEnd, t, hskip, hf t (skipBlanks_idem hskip) e s' he⟩

/-- An expression that begins with the next token. -/
theorem from_token {l : Lexeme} {p : Parser Expr} (hl : nextToken s = some l)
    (hp : Within l.start p (Spelled l.start)) :
    From s (do set l.rest; p) (SpelledNext s) := by
  intro e s' h
  have he := hp l.rest e s' (nextToken_suffix hl).1 h
  exact ⟨l.afterLineEnd, l.start, (nextToken_spec hl).1, he⟩

/-- What is kept of the answer to each nonterminal. -/
def Goal.InSource (g : Goal) (s : List Char) : g.Out → List Char → Prop :=
  match g with
  | .expression _ | .assignment _ | .binary _ _ | .unary _ | .access _ _ | .markup _ =>
    SpelledNext s
  | .target _ | .pattern _ | .statement _ _ => fun _ _ => True

/-- The grammar leaves suffixes, and answers expressions that are spelled where they were read. -/
structure KeepsSource (grammar : Grammar) : Prop where
  leaves : LeavesSuffix grammar
  spelled : ∀ g s, From s (grammar g) (Goal.InSource g s)

section Rules

variable {grammar : Grammar} {c : Context}

/-! ### Template literals -/

/-- The marks that are used so far and the marks still ahead are marks of the text behind the
backtick. -/
structure Parts (behind : List Char) (parts : RunEnd × List Run × List Expr) (s : List Char) :
    Prop where
  suffix : s <:+ behind
  length : parts.2.1.length = parts.2.2.length + 1
  taken : ∀ r ∈ parts.2.1, ∃ bound s, takeRun bound s = some r
  load_le : load parts.2.2 + marksFrom s parts.1 ≤ openers behind

/-- A run of a template is what `takeRun` takes. -/
theorem from_run : From s run fun r s' => (∃ bound, takeRun bound s = some r) ∧ s' = r.rest := by
  intro r s' h
  unfold run at h
  rw [run_bind, run_get] at h
  cases hr : takeRun (s.length + 1) s with
  | none => simp [hr] at h
  | some r' =>
    simp only [Option.bind_some, hr] at h
    cases h
    exact ⟨⟨_, hr⟩, rfl⟩

/-- Only blanks stand before the brace that ends a substitution. -/
theorem from_substitutionEnd :
    From s substitutionEnd fun _ rest => ∃ blanks, s = blanks ++ '\x7d' :: rest := by
  refine .bind (fun start t => here_spec) fun start t ht => ?_
  obtain ⟨⟨lineEnd, hskip⟩, rfl⟩ := ht
  obtain ⟨blanks, rfl⟩ := (skips_of_skipBlanks hskip).suffix
  split
  · exact fun u rest h => by cases h; exact ⟨blanks, rfl⟩
  · exact .failure

/-- One more substitution uses the mark in front of it and those in it. -/
theorem parts_nextSubstitution (hg : KeepsSource grammar) {behind : List Char}
    {parts : RunEnd × List Run × List Expr} (h : Parts behind parts s) :
    From s (nextSubstitution grammar c parts) (OrStays s (Parts behind)) := by
  obtain ⟨stop, runs, es⟩ := parts
  cases stop with
  | literal => exact .pure rfl
  | substitution =>
    refine .bind (hg.spelled (.expression c.withIn) s) fun e t he => ?_
    obtain ⟨lineEnd, start, hskip, hspelled⟩ := he
    refine .bind from_substitutionEnd fun _ rest hrest => .bind from_run fun r _ hr => ?_
    obtain ⟨blanks, rfl⟩ := hrest
    obtain ⟨⟨bound, hr⟩, rfl⟩ := hr
    have hstart : start <:+ s := (skips_of_skipBlanks hskip).suffix
    have hrest : rest <:+ start :=
      ((List.suffix_cons '\x7d' rest).trans (List.suffix_append blanks _)).trans hspelled.suffix
    -- The marks of the substitution, and those behind it.
    have hmarks : openers e.text.toList + openers rest ≤ openers s := by
      calc openers e.text.toList + openers rest
        _ ≤ openers (e.text.toList ++ blanks) + openers rest :=
          Nat.add_le_add_right (openers_le_append _ _) _
        _ = openers start := by
          rw [hspelled.text, ← List.append_assoc, openers_append_cons (by simp)]
        _ ≤ openers s := (skips_of_skipBlanks hskip).openers_le
    have hload : load es + (openers s + 1) ≤ openers behind := h.load_le
    refine .pure ⟨?_, ?_, ?_, ?_⟩
    · exact (takeRun_suffix hr).trans (hrest.trans (hstart.trans h.suffix))
    · simpa using h.length
    · intro r' hr'
      rcases List.mem_append.1 hr' with hr' | hr'
      · exact h.taken r' hr'
      · cases List.mem_singleton.1 hr'
        exact ⟨bound, _, hr⟩
    · have hahead : marksFrom r.rest r.stop ≤ openers rest := marksFrom_le_of_takeRun hr
      show load (es ++ [e]) + marksFrom r.rest r.stop ≤ openers behind
      rw [load_append, load_cons, load_nil]
      omega

/-- The runs of a template literal, as they are read. -/
theorem wellRead_of_taken {runs : List Run} {quasis : List Quasi}
    (h : runs.mapM quasi? = some quasis)
    (htaken : ∀ r ∈ runs, ∃ bound s, takeRun bound s = some r) :
    quasis.length = runs.length ∧ ∀ q ∈ quasis, q.WellRead := by
  induction runs generalizing quasis with
  | nil =>
    cases h
    exact ⟨rfl, nofun⟩
  -- Each run is read as it says, since it was taken from a text.
  | cons r runs ih =>
    rw [List.mapM_cons] at h
    obtain ⟨q, hq, h⟩ := Option.bind_eq_some_iff.1 h
    obtain ⟨rest, hrest, h⟩ := Option.bind_eq_some_iff.1 h
    cases h
    obtain ⟨hlength, hread⟩ := ih hrest fun r' hr' => htaken r' (List.mem_cons_of_mem r hr')
    obtain ⟨cooked, hcooked, rfl⟩ := Option.map_eq_some_iff.1 hq
    obtain ⟨bound, s, hr⟩ := htaken r List.mem_cons_self
    refine ⟨by simp [hlength], List.forall_mem_cons.2 ⟨fun hstop => ?_, hread⟩⟩
    rw [String.toList_ofList, String.toList_ofList]
    exact reads_of_takeRun hr hcooked hstop

/-- **A template literal** uses the opening marks behind its backtick. -/
theorem spelled_template (hg : KeepsSource grammar) {behind : List Char}
    (hbehind : start = '`' :: behind) :
    From behind (template grammar c start) (Spelled start) := by
  -- The first run uses the marks up to its end, and each substitution those of the run behind it.
  have hparts : From behind (templateParts grammar c) fun parts s' =>
      ∃ stop, Parts behind (stop, parts.1, parts.2) s' := by
    refine .bind from_run fun first s' hfirst => ?_
    obtain ⟨⟨bound, hfirst⟩, rfl⟩ := hfirst
    have hstart : Parts behind (first.stop, [first], []) first.rest :=
      ⟨takeRun_suffix hfirst, rfl, fun r hr => List.mem_singleton.1 hr ▸ ⟨bound, _, hfirst⟩,
        by simpa using marksFrom_le_of_takeRun hfirst⟩
    have hgrow : From first.rest (grow (nextSubstitution grammar c) (first.stop, [first], []))
        (Parts behind) :=
      .grow (fun parts s h => parts_nextSubstitution hg h) hstart
    exact .bind hgrow fun parts s' h => .pure ⟨parts.1, h⟩
  refine .bind hparts fun parts s' h => ?_
  obtain ⟨stop, h⟩ := h
  dsimp only
  split
  · next quasis hquasis =>
    obtain ⟨hlength, hread⟩ := wellRead_of_taken hquasis h.taken
    have hload : load parts.2 ≤ openers behind := Nat.le_trans (Nat.le_add_right _ _) h.load_le
    have hsuffix : s' <:+ start := hbehind ▸ h.suffix.trans (List.suffix_cons '`' behind)
    refine from_close hsuffix ?_
    exact ⟨hlength.trans h.length, hread, behind, hbehind ▸ List.suffix_refl _, hload⟩
  · exact .failure

/-! ### Operands -/

/-- A construction is spelled from the word that begins it. -/
theorem spelled_newAfterWord (hg : KeepsSource grammar) :
    Within start (newAfterWord grammar c start) (Spelled start) := by
  refine .bind (leaves_tryMark ".") fun _ => .ite ?_ ?_
  · exact .bind (leaves_keyword _) fun _ => within_close trivial
  refine .bind (hg.leaves start _) fun callee => .bind (leaves_require _) fun _ => ?_
  refine .bind (leaves_tryMark "(") fun _ => .ite ?_ ?_
  · exact .bind (leaves_arguments hg.leaves c) fun _ => within_close trivial
  · exact .bind (.pure _) fun _ => within_close trivial

theorem spelled_importCall (hg : KeepsSource grammar) :
    Within start (importCall grammar c start) (Spelled start) :=
  .bind (leaves_mark _) fun _ => .bind (leaves_separated _ (hg.leaves start _)) fun _ =>
    .bind (leaves_require _) fun _ => within_close trivial

theorem spelled_importAfterWord (hg : KeepsSource grammar) :
    Within start (importAfterWord grammar c start) (Spelled start) := by
  refine .bind (leaves_tryMark ".") fun _ => .ite ?_ (spelled_importCall hg)
  refine .bind (leaves_tryWord "meta") fun _ => .ite (within_close trivial) ?_
  exact .bind (leaves_tryWord _) fun _ => .bind (leaves_tryWord _) fun _ =>
    .bind (leaves_require _) fun _ => spelled_importCall hg

/-- An expression that a word begins is spelled from that word. -/
theorem spelled_primaryWord (hg : KeepsSource grammar) {l : Lexeme} (hrest : l.rest <:+ l.start)
    (w : String) (escaped : Bool) :
    Within l.start (primaryWord grammar c l w escaped) (Spelled l.start) := by
  refine .bind (leaves_ahead _) fun _ => .ite ?_ (.bind (.set hrest) fun _ => ?_)
  · exact .bind (.set hrest) fun _ => .bind (leaves_keyword _) fun _ =>
      .bind (leaves_functionAfterWord hg.leaves c true) fun _ => within_close trivial
  -- None of these words is a template literal, so only what is left matters.
  split
  · exact within_close trivial
  · exact within_close trivial
  · exact within_close trivial
  · exact within_close trivial
  · exact .bind (leaves_functionAfterWord hg.leaves c false) fun _ => within_close trivial
  · exact .bind (leaves_classAfterWord hg.leaves c) fun _ => within_close trivial
  · exact spelled_newAfterWord hg
  · exact spelled_importAfterWord hg
  · exact .bind (leaves_atMark _) fun _ => .bind (leaves_atMark _) fun _ =>
      .bind (leaves_atMark _) fun _ => .bind (leaves_require _) fun _ => within_close trivial
  · exact .bind (leaves_require _) fun _ => within_close trivial

/-- A template literal in parentheses stands in the text of the parentheses. -/
theorem spelled_paren (hg : KeepsSource grammar) {behind : List Char} (hbehind : behind <:+ start) :
    From behind (do
      let inner ← grammar (.expression c.withIn)
      mark ")"
      close start (.paren inner)) (Spelled start) := by
  refine .bind (hg.spelled (.expression c.withIn) behind) fun inner t hinner => ?_
  obtain ⟨lineEnd, first, hskip, hspelled⟩ := hinner
  have hfrom : first <:+ start := (skips_of_skipBlanks hskip).suffix.trans hbehind
  have hclose : Within start (do mark ")"; close start (.paren inner)) (Spelled start) :=
    .bind (leaves_mark _) fun _ => within_close (hspelled.inSource.mono hfrom)
  exact hclose.from (hspelled.suffix.trans hfrom)

/-- A primary expression is spelled from where it begins, with no blanks before it. -/
theorem spelled_primary (hg : KeepsSource grammar)
    (hstart : skipBlanks start = some (false, start)) :
    From start (primary grammar c) (Spelled start) := by
  refine .peek fun l hl => ?_
  -- The text is at the token already.
  obtain ⟨hskip, htoken⟩ := nextToken_spec hl
  obtain ⟨-, rfl⟩ := Prod.mk.inj (Option.some.inj (hstart.symm.trans hskip))
  have hrest : l.rest <:+ l.start := (nextToken_suffix hl).1
  have hset : ∀ {p : Parser Expr}, Within l.start p (Spelled l.start) →
      From l.start (do set l.rest; p) (Spelled l.start) := fun hp => .set (hp.from hrest)
  dsimp only
  split
  · exact (spelled_primaryWord hg hrest _ _).from (List.suffix_refl _)
  · exact hset (within_close trivial)
  · exact hset (within_close trivial)
  · exact hset (within_close trivial)
  · exact .set (spelled_paren hg hrest)
  · exact hset (.bind (leaves_many (leaves_arrayPlace hg.leaves c)) fun _ => within_close trivial)
  · refine hset (.bind ?_ fun _ => within_close trivial)
    exact leaves_separated _ (leaves_property hg.leaves c)
  · next htick =>
    rw [htick] at htoken
    exact .set (spelled_template hg (eq_of_tokenAt_mark htoken))
  · intro e s' h
    exact SpelledNext.spelled (hg.spelled (.markup c) _ e s' h) hstart
  · have hclass : Within l.start (do
        let decorated ← decorators grammar c
        keyword "class"
        let parts ← classAfterWord grammar c
        close l.start (.other .plain (decorated ++ parts))) (Spelled l.start) :=
      .bind (leaves_decorators hg.leaves c) fun _ => .bind (leaves_keyword _) fun _ =>
        .bind (leaves_classAfterWord hg.leaves c) fun _ => within_close trivial
    exact hclass.from (List.suffix_refl _)
  -- The two marks that a regular expression can begin with.
  iterate 2
    · split
      · next rest hregex =>
        have hbehind : rest <:+ l.start := (regex_suffix hregex).trans (List.drop_suffix 1 _)
        exact .set (from_close hbehind trivial)
      · exact .failure
  · exact .failure

/-! ### Members and calls -/

/-- A member is spelled from the beginning of its chain. -/
theorem spelled_memberAfterDot (object : Expr) :
    Within start (memberAfterDot start object) (Spelled start) := by
  refine .peek fun l _ hrest => ?_
  split
  · exact .bind (.set hrest) fun _ => within_close trivial
  · exact .bind (.set hrest) fun _ => within_close trivial
  · exact .failure

theorem spelled_memberInBrackets (hg : KeepsSource grammar) (object : Expr) :
    Within start (memberInBrackets grammar c start object) (Spelled start) :=
  .bind (hg.leaves start _) fun _ => .bind (leaves_mark _) fun _ => within_close trivial

theorem spelled_callInParens (hg : KeepsSource grammar) (callee : Expr) :
    Within start (callInParens grammar c start callee) (Spelled start) :=
  .bind (leaves_arguments hg.leaves c) fun _ => within_close trivial

/-- A chain read so far is spelled from `start` on. -/
def SpelledLink (start : List Char) (chain : Link) (rest : List Char) : Prop :=
  Spelled start chain.expr rest

/-- A chain that goes on is closed where it ends now. -/
theorem spelled_link (hg : KeepsSource grammar) (calls : Bool) (chain : Link) (hs : s <:+ start) :
    From s (link grammar c calls start chain) (OrStays s (SpelledLink start)) := by
  have hlink : ∀ {p : Parser Expr} {t : List Char} (optional : Bool), t <:+ start →
      Within start p (Spelled start) →
      From t (do pure (some (Link.mk (← p) optional))) (OrStays s (SpelledLink start)) :=
    fun optional ht hp => .bind (hp.from ht) fun e s' he => .pure he
  refine .peek fun l hl => ?_
  obtain ⟨hrest, hstart⟩ := nextToken_suffix hl
  have hrest : l.rest <:+ start := (hrest.trans hstart).trans hs
  split
  · exact .set (hlink _ hrest (spelled_memberAfterDot _))
  · exact .set (hlink _ hrest (spelled_memberInBrackets hg _))
  · exact .ite (.set (hlink _ hrest (spelled_callInParens hg _))) (.pure rfl)
  · -- A tagged template is closed as a call.
    refine .stays (stays_require _) fun _ => .set ?_
    refine .bind ((leaves_templateParts hg.leaves c).from hrest) fun parts t ht => ?_
    exact hlink _ ht (within_close trivial)
  · refine .stays (stays_require _) fun _ => .set (.peek fun next hnext => ?_)
    obtain ⟨hbehind, hstart⟩ := nextToken_suffix hnext
    have hbehind : next.rest <:+ start := (hbehind.trans hstart).trans hrest
    split
    · exact .set (hlink _ hbehind (spelled_memberInBrackets hg _))
    · exact .set (hlink _ hbehind (spelled_callInParens hg _))
    · exact hlink _ hrest (spelled_memberAfterDot _)
  · exact .pure rfl

/-- A chain is spelled from its first blank on: the blanks do not belong to it. -/
theorem spelled_access (hg : KeepsSource grammar) (calls : Bool) :
    From s (access grammar c calls) (SpelledNext s) := by
  refine from_here fun start hstart => .bind (spelled_primary hg hstart) fun e t he => ?_
  have hgrow : From t (grow (link grammar c calls start) ⟨e, false⟩) (SpelledLink start) :=
    .grow (fun chain s h => spelled_link hg calls chain h.suffix) he
  refine .bind hgrow fun chain s' hchain => .ite ?_ (.pure hchain)
  exact from_close hchain.suffix trivial

/-! ### Operators -/

/-- An operand with `++` or `--` behind it is spelled from its chain on. -/
theorem spelled_postfixed (hg : KeepsSource grammar) :
    From s (postfixed grammar c) (SpelledNext s) := by
  refine from_here fun start hstart => ?_
  refine .bind (hg.spelled (.access c true) start) fun e t he => ?_
  have he : Spelled start e t := SpelledNext.spelled he hstart
  refine .peek fun l hl => .ite ?_ (.pure he)
  obtain ⟨hrest, hbegin⟩ := nextToken_suffix hl
  -- Behind the operand an update is closed at its end, so only what it leaves matters.
  have hclose : Within start (do
      require (isSimpleTarget e)
      set l.rest
      close start (.other .update [.value e])) (Spelled start) :=
    .bind (leaves_require _) fun _ =>
      .bind (.set ((hrest.trans hbegin).trans he.suffix)) fun _ => within_close trivial
  exact hclose.from he.suffix

/-- An operand is spelled from its first operator on. -/
theorem spelled_unary (hg : KeepsSource grammar) : From s (unary grammar c) (SpelledNext s) := by
  refine .peek fun l hl => ?_
  split
  · exact from_token hl (.bind (hg.leaves _ _) fun _ => within_close trivial)
  refine .ite ?_ (.stays (stays_atWord _) fun _ => .ite (.ite ?_ ?_) (spelled_postfixed hg))
  · exact from_token hl (.bind (hg.leaves _ _) fun _ => .bind (leaves_require _) fun _ =>
      within_close trivial)
  · exact from_token hl (.bind (hg.leaves _ _) fun _ => within_close trivial)
  · exact .stays (stays_ahead _) fun _ => .stays (stays_require _) fun _ => spelled_postfixed hg

/-- One more operation is spelled from the beginning of its left side, or nothing was read. -/
theorem spelled_operation (hg : KeepsSource grammar) (level : Nat) {left : Expr}
    (hs : s <:+ start) :
    From s (operation grammar c level start left) (OrStays s (Spelled start)) := by
  refine .peek fun l hl => ?_
  obtain ⟨hrest, hstart⟩ := nextToken_suffix hl
  have hrest : l.rest <:+ start := (hrest.trans hstart).trans hs
  split
  · exact .pure rfl
  · refine .ite (.pure rfl) (.set (.bind ((hg.leaves start _).from hrest) fun right t ht => ?_))
    -- Mixed operators that need parentheses are refused; the others are spelled from the left side
    -- on.
    refine .stays (stays_require _) fun _ => ?_
    refine .bind (from_close ht ?_) fun e s' he => .pure he
    next op strength _ _ => cases op <;> trivial

/-- Operations of all levels, by induction on the level. -/
theorem spelled_binary (hg : KeepsSource grammar) (level : Nat) :
    From s (binary grammar c level) (SpelledNext s) := by
  refine from_here fun start hstart => .peek fun l hl => ?_
  have hgrow : ∀ {left : Expr} {t : List Char}, Spelled start left t →
      From t (grow (operation grammar c level start) left) (Spelled start) :=
    fun hleft => .grow (fun left s h => spelled_operation hg level h.suffix) hleft
  dsimp only
  split
  · -- The test for a private name begins with the token.
    refine .bind (Q := SpelledNext start) ?_ fun left t hleft => ?_
    · exact from_token hl (.bind (leaves_keyword _) fun _ => .bind (hg.leaves _ _) fun _ =>
        within_close trivial)
    · exact hgrow (SpelledNext.spelled hleft hstart)
  · exact .bind (hg.spelled (.unary c) start) fun left t hleft =>
      hgrow (SpelledNext.spelled hleft hstart)

/-- A condition and its branches are spelled from the condition on. -/
theorem spelled_conditional (hg : KeepsSource grammar) :
    From s (conditional grammar c) (SpelledNext s) := by
  refine from_here fun start hstart => .bind (hg.spelled (.binary c 1) start) fun test t ht => ?_
  have ht : Spelled start test t := SpelledNext.spelled ht hstart
  refine .bind (from_tryMark "?") fun mark t' ht' => ?_
  obtain ⟨hsuffix, hstays⟩ := ht'
  cases mark with
  -- Without a question mark the test itself is answered, and the text has not moved.
  | false =>
    cases hstays rfl
    exact .pure ht
  | true =>
    have hclose : Within start (do
        let consequent ← grammar (.assignment c.withIn)
        mark ":"
        let alternate ← grammar (.assignment c)
        close start (.conditional test consequent alternate)) (Spelled start) :=
      .bind (hg.leaves start _) fun _ => .bind (leaves_mark _) fun _ =>
        .bind (hg.leaves start _) fun _ => within_close trivial
    exact hclose.from (hsuffix.trans ht.suffix)

/-! ### Assignments -/

/-- An assignment to a pattern is spelled from its target on. -/
theorem spelled_destructuring (hg : KeepsSource grammar) :
    Within start (destructuring grammar c start) (Spelled start) :=
  .bind (leaves_atMark _) fun _ => .bind (leaves_atMark _) fun _ =>
    .bind (leaves_require _) fun _ => .bind (hg.leaves start _) fun _ =>
      .bind (leaves_mark _) fun _ => .bind (hg.leaves start _) fun _ => within_close trivial

theorem spelled_assignmentTo (hg : KeepsSource grammar) {left : Expr}
    (hleft : Spelled start left s) :
    From s (assignmentTo grammar c start left) (Spelled start) := by
  -- The sign is only peeked at: the left side may have to be read again, as a pattern.
  refine .peek fun l hl => ?_
  obtain ⟨hrest, hbegin⟩ := nextToken_suffix hl
  have hrest : l.rest <:+ start := (hrest.trans hbegin).trans hleft.suffix
  split
  · refine .ite (.set ((spelled_destructuring hg).from (List.suffix_refl _)))
      (.ite ?_ (.pure hleft))
    refine .stays (stays_require _) fun _ => .set ?_
    exact .bind ((hg.leaves start _).from hrest) fun value t ht => from_close ht trivial
  · exact .pure hleft

/-- What `yield` begins is spelled from that word. -/
theorem spelled_yieldAfterWord (hg : KeepsSource grammar) :
    Within start (yieldAfterWord grammar c start) (Spelled start) := by
  refine .peek fun l _ _ => .ite (within_close trivial) (.bind (leaves_tryMark _) fun _ => ?_)
  exact .bind (hg.leaves start _) fun _ => within_close trivial

/-- An assignment, an arrow function, or what stands above them. -/
theorem spelled_assignment (hg : KeepsSource grammar) :
    From s (assignment grammar c) (SpelledNext s) := by
  refine from_here fun start hstart => .stays (stays_atWord _) fun _ => .ite ?_ ?_
  · have hyield : Within start (do keyword "yield"; yieldAfterWord grammar c start)
        (Spelled start) :=
      .bind (leaves_keyword _) fun _ => spelled_yieldAfterWord hg
    exact hyield.from (List.suffix_refl _)
  have harrow : From start (arrowStart grammar c) fun _ s' => s' <:+ start :=
    (leaves_arrowStart hg.leaves c).from (List.suffix_refl _)
  -- An arrow is tried first; where there is none, the text stays and is read as an operand.
  refine .bind (.attempt harrow) fun head t hhead => ?_
  cases head with
  | some head =>
    obtain ⟨awaits, params, rest⟩ := head
    refine .bind ((leaves_arrowBody hg.leaves c awaits).from hhead) fun body t' ht' => ?_
    exact from_close ht' trivial
  | none =>
    obtain rfl : t = start := hhead
    refine .bind (.attempt (spelled_conditional hg)) fun left t' hleft => ?_
    cases left with
    | some left => exact spelled_assignmentTo hg (SpelledNext.spelled hleft hstart)
    | none =>
      obtain rfl : t' = t := hleft
      exact (spelled_destructuring hg).from (List.suffix_refl _)

/-- A sequence is spelled from its first expression on. -/
theorem spelled_expression (hg : KeepsSource grammar) :
    From s (expression grammar c) (SpelledNext s) := by
  refine from_here fun start hstart => ?_
  refine .bind (hg.spelled (.assignment c) start) fun first t hfirst => ?_
  have hfirst : Spelled start first t := SpelledNext.spelled hfirst hstart
  -- Without a comma nothing more is read.
  have hmore : ∀ s, From s (do
      if ← tryMark "," then pure (some (← grammar (.assignment c))) else pure none)
      fun o s' => o = none → s' = s := by
    refine fun s => .bind (from_tryMark ",") fun comma s' hs' => ?_
    cases comma with
    | false => exact .pure fun _ => hs'.2 rfl
    | true =>
      exact .bind (hg.spelled (.assignment c) _) fun _ _ _ => .pure nofun
  have hleaves : Leaves start (many (do
      if ← tryMark "," then pure (some (← grammar (.assignment c))) else pure none)) :=
    leaves_many (.bind (leaves_tryMark _) fun _ =>
      .ite (.bind (hg.leaves start _) fun _ => .pure _) (.pure _))
  intro e s' h
  obtain ⟨⟨others, t'⟩, hothers, he⟩ := Option.bind_eq_some_iff.1 h
  have hsuffix : t' <:+ start := hleaves t others t' hfirst.suffix hothers
  cases others with
  | nil =>
    obtain rfl : t' = t := from_many hmore _ _ hothers rfl
    cases he
    exact hfirst
  | cons other others =>
    refine from_close hsuffix ?_ e s' he
    trivial

/-- Markup is spelled from its first sign on. -/
theorem spelled_markup (hg : KeepsSource grammar) : From s (markup grammar c) (SpelledNext s) := by
  refine from_here fun start _ => Within.from ?_ (List.suffix_refl _)
  refine .bind (leaves_sign _) fun _ => .bind (leaves_trySign _) fun _ => .ite ?_ ?_
  · exact .bind (leaves_children hg.leaves c) fun _ => .bind (leaves_sign _) fun _ =>
      within_close trivial
  refine .bind leaves_tagName fun tag => .bind (leaves_attributes hg.leaves c) fun attrs => ?_
  refine .bind (leaves_trySign _) fun _ => .ite ?_ ?_
  · exact .bind (leaves_sign _) fun _ => within_close trivial
  · exact .bind (leaves_sign _) fun _ => .bind (leaves_children hg.leaves c) fun _ =>
      .bind leaves_tagName fun _ => .bind (leaves_require _) fun _ =>
        .bind (leaves_sign _) fun _ => within_close trivial

end Rules

/-! ### The unrolled grammar -/

/-- One unrolling keeps the invariant. -/
theorem keepsSource_rule {grammar : Grammar} (hg : KeepsSource grammar) :
    KeepsSource (rule grammar) := by
  refine ⟨leavesSuffix_rule hg.leaves, fun g s => ?_⟩
  cases g with
  | expression c => exact spelled_expression hg
  | assignment c => exact spelled_assignment hg
  | binary c level => exact spelled_binary hg level
  | unary c => exact spelled_unary hg
  | access c calls => exact spelled_access hg calls
  | markup c => exact spelled_markup hg
  -- Of the other rules nothing is asked but that they leave a suffix.
  | target c => exact fun _ _ _ => trivial
  | pattern c => exact fun _ _ _ => trivial
  | statement c only => exact fun _ _ _ => trivial

/-- Every unrolling of the grammar keeps the source, by induction on its depth. -/
theorem keepsSource_unrolled (depth : Nat) : KeepsSource (unrolled depth) := by
  induction depth with
  | zero => exact ⟨leavesSuffix_unrolled 0, fun g s => .failure⟩
  | succ depth ih => exact keepsSource_rule ih

end Parser

/-! ### What is read -/

/-- Skipping the preamble leaves a suffix. -/
theorem skipPreamble_suffix (s : List Char) : skipPreamble s <:+ s := by
  unfold skipPreamble
  dsimp only
  split
  · next rest hline =>
    -- The line of an interpreter ends behind its two marks.
    refine (List.dropWhile_suffix _).trans ?_
    refine ((List.suffix_cons '!' _).trans (List.suffix_cons '#' _)).trans ?_
    rw [← hline]
    split
    · split
      · exact List.suffix_cons _ _
      · exact List.suffix_refl _
    · exact List.suffix_refl _
  · split
    · split
      · exact List.suffix_cons _ _
      · exact List.suffix_refl _
    · exact List.suffix_refl _

/-- **What is read is a segment of the text.** -/
theorem spelled_of_parse? {code : String} {e : Expr} (h : Expr.parse? code = some e) :
    ∃ start rest, start <:+ code.toList ∧ Spelled start e rest := by
  unfold Expr.parse? at h
  obtain ⟨⟨e', rest⟩, he, h⟩ := Option.bind_eq_some_iff.1 h
  obtain ⟨lexeme, -, h⟩ := Option.bind_eq_some_iff.1 h
  cases h
  obtain ⟨lineEnd, start, hskip, hspelled⟩ :=
    (Parser.keepsSource_unrolled _).spelled (.expression {}) _ _ _ he
  have hstart : start <:+ code.toList :=
    (skips_of_skipBlanks hskip).suffix.trans (skipPreamble_suffix _)
  exact ⟨start, rest, hstart, hspelled⟩

/-- **A template literal that is read** has one run more than substitutions, its runs read as they
say, and the text holds the opening marks that its substitutions need. -/
theorem template_of_parse? {code : String} {e : Expr} {runs : List Quasi} {es : List Expr}
    (h : Expr.parse? code = some e) (hform : e.bare.form = .template runs es) :
    runs.length = es.length + 1 ∧ (∀ q ∈ runs, q.WellRead) ∧ load es ≤ openers code.toList := by
  obtain ⟨start, rest, hstart, hspelled⟩ := spelled_of_parse? h
  have htemplate : IsTemplate start runs es := by
    have hbare := hspelled.inSource.bare
    rcases heq : e.bare with ⟨text, form⟩
    rw [heq] at hform hbare
    cases hform
    exact hbare
  -- The literal stands somewhere in the code, and the marks in front of it only add to the count.
  obtain ⟨behind, hbehind, hload⟩ := htemplate.load_le
  obtain ⟨before, hcode⟩ := hbehind.trans hstart
  refine ⟨htemplate.length, htemplate.wellRead, ?_⟩
  rw [← hcode]
  exact Nat.le_trans hload (openers_behind (by decide) before behind)

end Stencil.Script
