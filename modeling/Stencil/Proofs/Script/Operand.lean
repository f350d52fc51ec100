import Stencil.Proofs.Script.Word
import Stencil.Script.Parser.Module

/-!
# Texts of a single operand

`Expr.parse?` descends through every level of the grammar before it meets an operand, and on its way
back asks at each level whether something follows. Where the operand stands first, and behind it is
the end of the text or a closing brace, all these questions have the same answer, so the text reads
as what `primary` makes of it (`unrolled_operand`):

* `parse?_name` — a name reads as the identifier of that name;
* `parse?_stringLiteral` — a spelled string literal reads as that literal.

The descent is followed level by level in `section Descent`, from `primary` up to `expression`. What
is asked behind the operand is asked where it ends, and there each question is settled once
(`Ended.link`, `Ended.operation`, `Ended.assignmentTo`, …).
-/

namespace Stencil.Script

/-- A word that may name something wherever `await` introduces an operand. -/
structure IsName (w : String) : Prop where
  /-- The name is spelled as a single word. -/
  isWord : IsWord w.toList
  /-- The word is not a keyword. -/
  isFree : Parser.isName {} w = true

namespace Parser

variable {α β : Type}

/-! ### Running parsers -/

/-- A sequence runs the second parser on what the first one leaves. -/
@[simp] theorem run_bind (p : Parser α) (f : α → Parser β) (s : List Char) :
    (p >>= f) s = (p s).bind fun r => f r.1 r.2 := rfl

@[simp] theorem run_pure (a : α) (s : List Char) : (pure a : Parser α) s = some (a, s) := rfl

@[simp] theorem run_get (s : List Char) : (get : Parser (List Char)) s = some (s, s) := rfl

@[simp] theorem run_set (t s : List Char) : (set t : Parser PUnit) s = some (.unit, t) := rfl

@[simp] theorem run_failure (s : List Char) : (failure : Parser α) s = none := rfl

@[simp] theorem run_map (f : α → β) (p : Parser α) (s : List Char) :
    (f <$> p) s = (p s).map fun r => (f r.1, r.2) := by
  change (p s).bind (fun r => some (f r.1, r.2)) = _
  cases p s <;> rfl

@[simp] theorem run_ite (q : Prop) [Decidable q] (p p' : Parser α) (s : List Char) :
    (if q then p else p') s = if q then p s else p' s := by
  split <;> rfl

@[simp] theorem run_require_true (s : List Char) : require true s = some ((), s) := rfl

@[simp] theorem run_require_false (s : List Char) : require false s = none := rfl

/-- Closing a form takes the text that was consumed since its start. -/
@[simp] theorem run_close (start : List Char) (form : Form) (s : List Char) :
    close start form s = some (.mk (String.ofList (consumed start s)) form, s) := rfl

/-- An attempt always answers; where the parser fails, it leaves the text as it was. -/
@[simp] theorem run_attempt (p : Parser α) (s : List Char) :
    attempt p s = match p s with
      | some (a, rest) => some (some a, rest)
      | none => some (none, s) := by
  unfold attempt
  rw [run_bind, run_get]
  rcases h : p s with _ | ⟨a, rest⟩ <;> simp [h]

/-- Looking ahead leaves the text as it was, whatever is found. -/
@[simp] theorem run_ahead (p : Parser Bool) (s : List Char) :
    ahead p s = match p s with
      | some (b, _) => some (b, s)
      | none => some (false, s) := by
  unfold ahead
  rw [run_bind, run_get]
  rcases h : p s with _ | ⟨b, rest⟩ <;> simp [h]

/-! ### The first token -/

/-- The token `t` stands first, with nothing in front of it and `rest` behind it. -/
structure Leads (t : Token) (s rest : List Char) : Prop where
  skipBlanks : skipBlanks s = some (false, s)
  tokenAt : tokenAt s = some (t, rest)

section Leads

variable {t : Token} {s rest : List Char} (h : Leads t s rest)
include h

/-- The next token of a text that a token leads is that token. -/
theorem Leads.nextToken : nextToken s = some ⟨t, false, s, rest⟩ := by
  simp [Script.nextToken, h.skipBlanks, h.tokenAt]

/-- Peeking finds it and stays. -/
theorem Leads.peek : peek s = some (⟨t, false, s, rest⟩, s) := by
  unfold Parser.peek
  simp [h.nextToken]

/-- No blanks stand before it. -/
theorem Leads.here : here s = some (s, s) := by
  unfold Parser.here
  simp [h.skipBlanks]

/-- A mark that does not lead is not read. -/
theorem Leads.tryMark {m : String} (hm : t ≠ .mark m) : tryMark m s = some (false, s) := by
  unfold Parser.tryMark
  rw [run_bind, h.peek]
  cases t <;> simp_all

/-- Where something else than a word leads, no name is read. -/
theorem Leads.name_eq_none (ht : ∀ w escaped, t ≠ .word w escaped) (c : Context) :
    name c s = none := by
  unfold name
  rw [run_bind, h.peek]
  cases t <;> simp_all

/-- Asking for a word compares it with the leading one, which must not be escaped. -/
theorem Leads.atWord (w : String) : atWord w s = some (match t with
    | .word name escaped => name == w && !escaped
    | _ => false, s) := by
  unfold Parser.atWord
  rw [run_bind, h.peek]
  cases t <;> simp_all

/-- A word that does not lead is not read. -/
theorem Leads.keyword_of_ne {w : String} (hw : t ≠ .word w false) : keyword w s = none := by
  have htry : tryWord w s = some (false, s) := by
    unfold tryWord
    rw [run_bind, h.peek]
    cases t <;> simp_all
  unfold keyword
  rw [run_bind, htry]
  rfl

/-- A word that leads is read. -/
theorem Leads.keyword_of_eq {w : String} (hw : t = .word w false) :
    keyword w s = some ((), rest) := by
  subst hw
  unfold keyword tryWord
  simp [h.peek]

end Leads

/-! ### Where an operand ends -/

/-- The token ends an operand: the end of the text, or a closing brace. -/
inductive IsEnd : Token → Prop where
  | finish : IsEnd .finish
  | brace : IsEnd (.mark "\x7d")

/-- What ends an operand is no word. -/
theorem IsEnd.ne_word {t : Token} (h : IsEnd t) (w : String) (escaped : Bool) :
    t ≠ .word w escaped := by
  cases h <;> nofun

/-- An operand in front of this text is at its end. -/
def Ended (s : List Char) : Prop :=
  ∃ t rest, IsEnd t ∧ Leads t s rest

/-- An operand ends at the end of the text. -/
theorem ended_nil : Ended [] := ⟨.finish, [], .finish, rfl, rfl⟩

/-- It also ends at a closing brace, as in a substitution. -/
theorem ended_brace (rest : List Char) : Ended ('}' :: rest) :=
  ⟨.mark "\x7d", rest, .brace, rfl, rfl⟩

section Ended

variable {s : List Char} (h : Ended s)
include h

/-- Behind an operand there is a token to peek at. -/
theorem Ended.exists_peek : ∃ t rest, IsEnd t ∧ peek s = some (⟨t, false, s, rest⟩, s) := by
  obtain ⟨t, rest, ht, hs⟩ := h
  exact ⟨t, rest, ht, hs.peek⟩

/-- The only mark behind an operand is the closing brace. -/
theorem Ended.tryMark {m : String} (hm : m ≠ "\x7d") : tryMark m s = some (false, s) := by
  obtain ⟨t, rest, ht, hs⟩ := h
  refine hs.tryMark ?_
  cases ht with
  | finish => nofun
  | brace => simpa using Ne.symm hm

/-- No name stands there. -/
theorem Ended.name (c : Context) : name c s = none := by
  obtain ⟨t, rest, ht, hs⟩ := h
  exact hs.name_eq_none ht.ne_word c

/-- No arrow stands there. -/
theorem Ended.arrow : arrow s = none := by
  obtain ⟨t, rest, -, hpeek⟩ := h.exists_peek
  unfold Parser.arrow mark
  rw [run_bind, hpeek]
  simp [h.tryMark (m := "=>") (by decide)]

/-- So no arrow function begins there either. -/
theorem Ended.arrowHead (grammar : Grammar) (c : Context) : arrowHead grammar c s = none := by
  unfold Parser.arrowHead
  rw [run_bind, h.tryMark (by decide)]
  simp [h.name]

/-- No chain goes on there. -/
theorem Ended.link (grammar : Grammar) (c : Context) (calls : Bool) (start : List Char)
    (chain : Link) : link grammar c calls start chain s = some (none, s) := by
  obtain ⟨t, rest, ht, hpeek⟩ := h.exists_peek
  unfold Parser.link
  rw [run_bind, hpeek]
  cases ht <;> rfl

/-- No operation goes on there, at any level. -/
theorem Ended.operation (grammar : Grammar) (c : Context) (level : Nat) (start : List Char)
    (left : Expr) : operation grammar c level start left s = some (none, s) := by
  obtain ⟨t, rest, ht, hpeek⟩ := h.exists_peek
  unfold Parser.operation
  rw [run_bind, hpeek]
  cases ht <;> rfl

/-- No assignment goes on there. -/
theorem Ended.assignmentTo (grammar : Grammar) (c : Context) (start : List Char) (left : Expr) :
    assignmentTo grammar c start left s = some (left, s) := by
  obtain ⟨t, rest, ht, hpeek⟩ := h.exists_peek
  unfold Parser.assignmentTo
  rw [run_bind, hpeek]
  cases ht <;> rfl

end Ended

/-- A loop whose first round finds nothing answers what it began with. -/
theorem grow_stop {p : α → Parser (Option α)} {a : α} {s : List Char}
    (hp : p a s = some (none, s)) : grow p a s = some (a, s) := by
  unfold grow
  rw [run_bind, run_get]
  simp [growUpTo, hp]

/-- A collecting loop whose first round finds nothing collects nothing. -/
theorem many_stop {p : Parser (Option α)} {s : List Char} (hp : p s = some (none, s)) :
    many p s = some ([], s) := by
  unfold many
  rw [run_bind, run_get]
  simp [manyUpTo, hp]

/-! ### Operands -/

/-- The token begins an operand that has neither a prefix nor an arrow: a word that may name
something, a string literal, or the backtick of a template literal. -/
inductive IsOperand : Token → Prop where
  | word {w : String} (h : isName {} w = true) : IsOperand (.word w false)
  | string (value : String) : IsOperand (.string value)
  | template : IsOperand (.mark "`")

/-- What may be a name is not reserved. -/
theorem not_mem_reserved {c : Context} {w : String} (h : isName c w = true) : w ∉ reserved := by
  simp only [isName, Bool.and_eq_true, Bool.not_eq_true', List.contains_eq_mem,
    decide_eq_false_iff_not] at h
  exact h.1.1

/-- A single word does not begin a function. -/
theorem atAsyncFunction_word {t : Token} {s rest : List Char} (h : Leads t s rest)
    (hrest : Ended rest) : atAsyncFunction s = some (false, s) := by
  unfold atAsyncFunction
  rw [run_ahead]
  by_cases ht : t = .word "async" false
  · obtain ⟨t', rest', ht', hpeek⟩ := hrest.exists_peek
    rw [run_bind, h.keyword_of_eq ht]
    cases ht' <;> simp [hpeek]
  · simp [h.keyword_of_ne ht]

/-- An operand that is a name is read as an identifier. -/
theorem primary_name {w : String} {s rest : List Char} (h : Leads (.word w false) s rest)
    (hrest : Ended rest) (hw : isName {} w = true) (grammar : Grammar) :
    primary grammar {} s =
      some (.mk (String.ofList (consumed s rest)) (.identifier w), rest) := by
  -- No keyword that begins an operand of its own is a name.
  have hr := not_mem_reserved hw
  simp only [reserved, List.mem_cons, not_or] at hr
  unfold primary
  rw [run_bind, h.peek]
  change primaryWord grammar {} ⟨.word w false, false, s, rest⟩ w false s = _
  unfold primaryWord
  rw [run_bind, atAsyncFunction_word h hrest]
  simp [hr, hw]

/-- An operand that is a string is read as one; what follows it does not matter. -/
theorem primary_string {value : String} {s rest : List Char} (h : Leads (.string value) s rest)
    (grammar : Grammar) :
    primary grammar {} s = some (.mk (String.ofList (consumed s rest)) (.string value), rest) := by
  unfold primary
  rw [run_bind, h.peek]
  simp

/-! ### The way down to an operand -/

section Descent

variable {t : Token} {s behind rest : List Char} (h : Leads t s behind) (ht : IsOperand t)
include h ht

/-- An operand does not begin with a mark, the backtick of a template apart. -/
theorem tryMark_operand {m : String} (hm : m ≠ "`") : tryMark m s = some (false, s) := by
  refine h.tryMark ?_
  cases ht with
  | template => simpa using Ne.symm hm
  | _ => nofun

/-- No arrow function begins here: behind a name there is no arrow. -/
theorem arrowHead_operand (hbehind : (∃ w, t = .word w false) → Ended behind) (grammar : Grammar)
    (c : Context) : arrowHead grammar c s = none := by
  unfold arrowHead
  rw [run_bind, tryMark_operand h ht (by decide)]
  cases ht with
  | word hw =>
    next w =>
    -- A word is read as a name or refused; behind a name there is no arrow.
    have hname : name c s = some (w, behind) ∨ name c s = none := by
      unfold name
      rw [run_bind, h.peek]
      cases isName c w <;> simp
    rcases hname with hname | hname <;> simp [hname, (hbehind ⟨w, rfl⟩).arrow]
  | string value => simp [h.name_eq_none nofun]
  | template => simp [h.name_eq_none nofun]

/-- An operand does not begin an arrow function: a word that could needs an arrow behind it. -/
theorem arrowStart_operand (hbehind : (∃ w, t = .word w false) → Ended behind) (grammar : Grammar)
    (c : Context) : arrowStart grammar c s = none := by
  -- The name may be `async` itself; then nothing is left for a head.
  have hasync : (do
      asyncWord
      arrowHead grammar { c with awaits := true } : Parser _) s = none := by
    unfold asyncWord
    by_cases hword : t = .word "async" false
    · have hended := hbehind ⟨_, hword⟩
      obtain ⟨t', rest', -, hpeek⟩ := hended.exists_peek
      simp [h.keyword_of_eq hword, hpeek, hended.arrowHead]
    · simp [h.keyword_of_ne hword]
  unfold arrowStart
  rw [run_bind, run_attempt, hasync]
  simp [arrowHead_operand h ht hbehind]

/-- An operand does not begin with an operator. -/
theorem unaryOp?_operand : unaryOp? t = none := by
  cases ht with
  | word hw =>
    -- `typeof`, `void` and `delete` are reserved.
    have hr := not_mem_reserved hw
    simp only [reserved, List.mem_cons, not_or] at hr
    unfold unaryOp?
    split <;> simp_all
  | _ => rfl

/-- It is not the word that waits for a value. -/
theorem atWord_await_operand : atWord "await" s = some (false, s) := by
  rw [h.atWord]
  cases ht with
  | word hw =>
    simp only [isName, Bool.true_and, Bool.and_eq_true, Bool.not_eq_true'] at hw
    simp [hw.1.2]
  | _ => rfl

variable {grammar : Grammar} {e : Expr} (hrest : Ended rest)
include hrest

omit ht in
/-- What is read as a primary expression is read as a chain without links. -/
theorem access_operand (hp : primary grammar {} s = some (e, rest)) :
    access grammar {} true s = some (e, rest) := by
  unfold access
  simp [h.here, hp, grow_stop (hrest.link _ _ _ _ _)]

/-- What is read as a chain is read as an operand without operators. -/
theorem unary_operand (ha : grammar (.access {} true) s = some (e, rest)) :
    unary grammar {} s = some (e, rest) := by
  have hupdate : isUpdate t = false := by cases ht <;> rfl
  have hpostfixed : postfixed grammar {} s = some (e, rest) := by
    obtain ⟨t', rest', ht', hpeek⟩ := hrest.exists_peek
    unfold postfixed
    cases ht' <;> simp [h.here, ha, hpeek, isUpdate]
  unfold unary
  rw [run_bind, h.peek]
  simp [unaryOp?_operand h ht, hupdate, atWord_await_operand h ht, hpostfixed]

/-- It is read as an operation without operators, at every level. -/
theorem binary_operand (hu : grammar (.unary {}) s = some (e, rest)) (level : Nat) :
    binary grammar {} level s = some (e, rest) := by
  unfold binary
  cases ht <;> simp [h.here, h.peek, hu, grow_stop (hrest.operation _ _ _ _ _)]

/-- It is read as an expression to which nothing is assigned. -/
theorem assignment_operand (hbehind : (∃ w, t = .word w false) → Ended behind)
    (hb : grammar (.binary {} 1) s = some (e, rest)) :
    assignment grammar {} s = some (e, rest) := by
  have hconditional : conditional grammar {} s = some (e, rest) := by
    unfold conditional
    simp [h.here, hb, hrest.tryMark]
  unfold assignment
  simp [h.here, h.atWord, arrowStart_operand h ht hbehind, hconditional, hrest.assignmentTo]

omit ht in
/-- It is read as a sequence of one expression. -/
theorem expression_operand (ha : grammar (.assignment {}) s = some (e, rest)) :
    expression grammar {} s = some (e, rest) := by
  unfold expression
  simp [h.here, ha, many_stop, hrest.tryMark]

/-- **The descent.** An operand reads as what `primary` makes of it, where that ends in front of the
end of the text or of a closing brace. -/
theorem unrolled_operand (hbehind : (∃ w, t = .word w false) → Ended behind) {depth : Nat}
    (hp : primary (unrolled depth) {} s = some (e, rest)) :
    unrolled (depth + 5) (.expression {}) s = some (e, rest) := by
  -- Every nonterminal on the way costs one unrolling.
  have haccess : unrolled (depth + 1) (.access {} true) s = some (e, rest) :=
    access_operand h hrest hp
  have hunary : unrolled (depth + 2) (.unary {}) s = some (e, rest) :=
    unary_operand h ht hrest haccess
  have hbinary : unrolled (depth + 3) (.binary {} 1) s = some (e, rest) :=
    binary_operand h ht hrest hunary 1
  have hassignment : unrolled (depth + 4) (.assignment {}) s = some (e, rest) :=
    assignment_operand h ht hrest hbehind hbinary
  exact expression_operand h hrest hassignment

end Descent

/-- Depth by depth through the grammar: a text that is one operand is parsed as what the primary
rule reads. -/
theorem parse?_operand {t : Token} {s behind : List Char} {e : Expr} (h : Leads t s behind)
    (ht : IsOperand t) (hbehind : (∃ w, t = .word w false) → Ended behind)
    (hs : skipPreamble s = s)
    (hp : primary (unrolled (16 * s.length + 59)) {} s = some (e, [])) :
    Expr.parse? (String.ofList s) = some e := by
  -- The depth is larger than the descent for every text, the empty one included.
  have hdepth : depthFor s = 16 * s.length + 59 + 5 := rfl
  have hnext : nextToken [] = some ⟨.finish, false, [], []⟩ := rfl
  unfold Expr.parse?
  simp [hs, hdepth, unrolled_operand h ht ended_nil hbehind hp, hnext]

end Parser

/-! ### Names and string literals -/

/-- A name leads the text that begins with it, if the word ends there. -/
theorem leads_name {w : String} (h : IsName w) (rest : List Char) (hrest : wordEnds rest = true) :
    Parser.Leads (.word w false) (w.toList ++ rest) rest := by
  have htoken := tokenAt_of_isWord h.isWord hrest
  rw [String.ofList_toList] at htoken
  exact ⟨skipBlanks_of_isWord h.isWord rest, htoken⟩

/-- **A name reads as the identifier of that name.** -/
theorem parse?_name {w : String} (h : IsName w) :
    Expr.parse? w = some (.mk w (.identifier w)) := by
  have hleads := leads_name h [] rfl
  rw [List.append_nil] at hleads
  -- A name is a primary expression, and nothing stands behind it.
  have hprimary := Parser.primary_name hleads Parser.ended_nil h.isFree
    (Parser.unrolled (16 * w.toList.length + 59))
  have hparse := Parser.parse?_operand hleads (.word h.isFree) (fun _ => Parser.ended_nil)
    (skipPreamble_of_isWord h.isWord) hprimary
  have htext : consumed w.toList [] = w.toList := by simp [consumed]
  rwa [htext, String.ofList_toList] at hparse

/-- The text is a string literal with this value, spelled out with its quotes. -/
def SpellsString (text value : String) : Prop :=
  tokenAt text.toList = some (.string value, [])

/-- Only a quote begins a string literal. -/
theorem SpellsString.exists_quote {text value : String} (h : SpellsString text value) :
    ∃ quote rest, text.toList = quote :: rest ∧ (quote = '"' ∨ quote = '\'') := by
  unfold SpellsString at h
  cases hs : text.toList with
  | nil => rw [hs] at h; cases h
  | cons c rest =>
    rw [hs] at h
    refine ⟨c, rest, rfl, ?_⟩
    simp only [tokenAt] at h
    repeat' split at h
    -- The branch of the quotes is the one that remains.
    all_goals
      obtain ⟨⟨v, after⟩, hvalue, h⟩ := Option.map_eq_some_iff.1 h
      cases h
    next hquote => simpa using hquote

/-- **A spelled string literal reads as that literal.** -/
theorem parse?_stringLiteral {text value : String} (h : SpellsString text value) :
    Expr.parse? text = some (.mk text (.string value)) := by
  obtain ⟨quote, rest, hs, hquote⟩ := h.exists_quote
  -- The quote stands first, so neither blanks nor a preamble are in front of the literal.
  have hleads : Parser.Leads (.string value) text.toList [] := by
    refine ⟨?_, h⟩
    rw [hs]
    rcases hquote with rfl | rfl <;> rfl
  have hpreamble : skipPreamble text.toList = text.toList := by
    rw [hs]
    rcases hquote with rfl | rfl <;> rfl
  have hparse := Parser.parse?_operand hleads (.string value) nofun hpreamble
    (Parser.primary_string hleads _)
  have htext : consumed text.toList [] = text.toList := by simp [consumed]
  rwa [htext, String.ofList_toList] at hparse

end Stencil.Script
