import Stencil.Proofs.Engine.Agreement
import Stencil.Proofs.Engine.Phrase

/-!
# Templates that fit the grammar of Liquid

Code is accepted for its words alone, whatever place they are for, and names are written as they
are. So a template fits the grammar of Liquid where every place of the tree gets what it admits.

* `Directive.Fits` — a line has the phrases and the names that the grammar asks for;
* `Owed` — what a place of the tree owes to the grammar: words of a kind, a test, or a name;
* `Piece.owed` — what a piece owes, in the order of the output;
* `fits_emit` — the lines of a piece fit if the piece owes nothing that is not met;
* `unsupported_of_operand` — all that has no words is refused as unsupported.

The main theorem is `template_fits`. What is owed need not be met: a filter is accepted as a test
(`filter_in_test`).
-/

namespace Stencil

open Script

namespace Liquid

/-! ### Lines that fit -/

/-- The words are a test, and have no filter outside of their string literals. -/
structure Test.Fits (t : Test) : Prop where
  covers : Phrase.test.Covers t.words
  no_bar : '|' ∉ unquoted none t.words.toList

/-- The value of an attribute is an output, and what it is under is a test. -/
def Slot.Fits : Slot → Prop
  | .value _ words test => Phrase.output.Covers words ∧ ∀ t ∈ test, t.Fits
  | .flag _ | .literal _ _ => True

/-- **A line fits the grammar**: outputs and assigned values are an operand followed by filters,
tests are operands and comparisons joined by `and` and `or`, and what is bound is an identifier. -/
def Directive.Fits : Directive → Prop
  | .startTag _ attributes | .emptyTag _ attributes | .voidTag _ attributes =>
    ∀ a ∈ attributes, a.Fits
  | .value words => Phrase.output.Covers words
  | .startIf test => test.Fits
  | .startFor item iterable => isIdentifier item = true ∧ Phrase.operand.Covers iterable
  | .assign name words => isIdentifier name = true ∧ Phrase.output.Covers words
  | .endTag _ | .text _ | .otherwise | .endIf _ | .endFor => True

/-- Every line among the emissions fits. -/
def AllFit (es : List (Emission Directive)) : Prop :=
  ∀ l ∈ Emission.lines es, l.2.Fits

/-- Nothing fits. -/
theorem allFit_nil : AllFit [] :=
  nofun

/-- Lines fit one by one. -/
theorem allFit_line {level : Nat} {d : Directive} {es : List (Emission Directive)} :
    AllFit (.line level d :: es) ↔ d.Fits ∧ AllFit es := by
  unfold AllFit
  rw [Emission.lines_line, List.forall_mem_cons]

/-- Emissions side by side fit if both do. -/
theorem allFit_append {as bs : List (Emission Directive)} :
    AllFit (as ++ bs) ↔ AllFit as ∧ AllFit bs := by
  unfold AllFit
  rw [Emission.lines_append, List.forall_mem_append]

/-- A failure is no line, so it has nothing to fit. -/
theorem allFit_failure (f : Failure) : AllFit [.failure f] :=
  nofun

theorem allFit_warnings (h : Head) : AllFit h.warnings := by
  unfold AllFit
  rw [Emission.lines_warnings]
  nofun

/-- Lines that all fit. -/
theorem allFit_map_line {level : Nat} {ds : List Directive} (h : ∀ d ∈ ds, d.Fits) :
    AllFit (ds.map (.line level)) := by
  unfold AllFit
  rw [Emission.lines_map_line, List.forall_mem_map]
  exact h

/-- A test fits if the phrases of tests cover its words. -/
theorem fits_test {t : Test} (h : Phrase.test.Covers t.words) : t.Fits :=
  ⟨h, (h.clear nofun).no_bar⟩

/-! ### What is owed -/

/-- What the words of a test look like, where a negation in front is taken off. -/
def testShape? (e : Expr) : Option Shape :=
  match e.bare.form with
  | .unary .not inner => shape? inner
  | _ => shape? e

/-- The words of an expression that became a test are of the shape that the expression has. -/
theorem fits_testShape? {e : Expr} {negated : Bool} {words : String}
    (h : testOperand e = .ok (negated, words)) : Fits (testShape? e) words := by
  -- Both branches pair the words with whether they are negated, so the words are those of an
  -- operand.
  have words_of_map {e : Expr} {b : Bool} (h : (operand e).map (b, ·) = .ok (negated, words)) :
      operand e = .ok words := by
    obtain ⟨w, hw, heq⟩ := map_eq_ok.1 h
    rw [hw, (Prod.mk.inj heq).2]
  unfold testOperand at h
  fun_cases testShape? e with
  | case1 inner hnot =>
    rw [hnot] at h
    exact fits_shape? (words_of_map h)
  | case2 hnot =>
    split at h
    · next inner hnot' => exact absurd hnot' (hnot inner)
    · exact fits_shape? (words_of_map h)

/-- What the engine parses is what the parser parses. -/
theorem parse?_of_parse {code : Code} {e : Expr} (h : parse code = .ok e) :
    Expr.parse? code.text = some e := by
  unfold parse at h
  split at h
  · next e' he =>
    cases h
    exact he
  · cases h

end Liquid

open Liquid

/-- What the words for code look like. -/
def Code.shape? (code : Code) : Option Shape :=
  (Expr.parse? code.text).bind Liquid.shape?

/-- What the words for code as a test look like. -/
def Code.testShape? (code : Code) : Option Shape :=
  (Expr.parse? code.text).bind Liquid.testShape?

/-- The words of a value are of the shape that its code has. -/
theorem Code.fits_shape? {code : Code} {words : String} (h : code.liquid = .ok words) :
    Fits code.shape? words := by
  obtain ⟨e, he, hwords⟩ := bind_eq_ok.1 h
  rw [Code.shape?, parse?_of_parse he]
  exact Liquid.fits_shape? hwords

theorem Code.fits_testShape? {code : Code} {negated : Bool} {words : String}
    (h : code.liquidTest = .ok (negated, words)) : Fits code.testShape? words := by
  obtain ⟨e, he, hwords⟩ := bind_eq_ok.1 h
  rw [Code.testShape?, parse?_of_parse he]
  exact Liquid.fits_testShape? hwords

/-- What a place owes to the grammar. -/
inductive Owed where
  /-- The words of the code are of a kind. -/
  | words (kind : Phrase) (code : Code)
  /-- The words of the code as a test are a test. -/
  | test (code : Code)
  /-- The name is an identifier. -/
  | name (n : String)

/-- The words are right for the place, unless there are none. -/
def Owed.isMet : Owed → Bool
  | .words kind code => (refusal? code.liquid).isSome || kind.admitsSome code.shape?
  | .test code => (refusal? code.liquidTest).isSome || Phrase.test.admitsSome code.testShape?
  | .name n => isIdentifier n

/-- What an attribute owes: one that may be missing is under a test for its value. -/
def Attribute.owed (a : Attribute) : List Owed :=
  match a.value with
  | .dynamic code =>
    if a.required then [.words .output code] else [.words .output code, .test code]
  | _ => []

/-- What a binding owes: its value is assigned to its name. -/
def Binding.owed (b : Binding) : List Owed :=
  match b.value with
  | some (.dynamic code) => [.name b.name, .words .output code]
  | _ => [.name b.name]

/-- What a loop owes. What it runs over is assigned if it has a name, and is an operand if not. -/
def Loop.owed (l : Loop) : List Owed :=
  (match l.array with
    | none => [.words .operand l.iterable]
    | some array => [.name array, .words .output l.iterable])
  ++ .name l.item :: l.index.toList.map .name

mutual

/-- **What a piece owes**, in the order of the output. -/
def Piece.owed : Piece → List Owed
  | .element head content =>
    head.attributes.flatMap Attribute.owed
      ++ if isVoid head.tag || head.isEmpty then [] else owedAll content
  | .text _ => []
  | .interpolation code => [.words .output code]
  | .condition test consequent alternate =>
    .test test :: owedBranch consequent ++ owedBranch alternate
  | .iteration loop body => loop.owed ++ owedAll body
  | .scope bindings body => bindings.flatMap Binding.owed ++ owedAll body

def owedAll : List Piece → List Owed
  | [] => []
  | p :: rest => p.owed ++ owedAll rest

def owedBranch : Option (List Piece) → List Owed
  | none => []
  | some ps => owedAll ps

end

/-- All that is owed is met. -/
def Met (os : List Owed) : Prop :=
  ∀ o ∈ os, o.isMet = true

/-- What is owed is met one by one. -/
theorem met_cons {o : Owed} {os : List Owed} : Met (o :: os) ↔ o.isMet = true ∧ Met os :=
  List.forall_mem_cons

/-- What is owed side by side is met if both are. -/
theorem met_append {os us : List Owed} : Met (os ++ us) ↔ Met os ∧ Met us :=
  List.forall_mem_append

/-- What several things owe is met if each meets its own. -/
theorem met_flatMap {α : Type} {owed : α → List Owed} {as : List α} :
    Met (as.flatMap owed) ↔ ∀ a ∈ as, Met (owed a) :=
  List.forall_mem_flatMap

/-- Words that are owed and that are there are of their kind. -/
theorem covers_of_isMet {kind : Phrase} {code : Code} {words : String}
    (h : (Owed.words kind code).isMet = true) (hwords : code.liquid = .ok words) :
    kind.Covers words := by
  rw [Owed.isMet, hwords] at h
  exact (Code.fits_shape? hwords).covers h

/-- A test that meets what it owes fits. -/
theorem fits_of_isMet {code : Code} {t : Test} (h : (Owed.test code).isMet = true)
    (ht : testOf code = .ok t) : t.Fits := by
  obtain ⟨⟨negated, words⟩, hwords, heq⟩ := bind_eq_ok.1 ht
  cases heq
  rw [Owed.isMet, hwords] at h
  exact fits_test ((Code.fits_testShape? hwords).covers h)

namespace Liquid

/-! ### Lines of pieces -/

/-- An attribute that meets what it owes has a value that fits. -/
theorem fits_slot {a : Attribute} (h : Met a.owed) {s : Slot} (hs : slot? a = .ok (some s)) :
    s.Fits := by
  unfold slot? at hs
  unfold Attribute.owed at h
  cases hvalue : a.value with
  | flag on =>
    rw [hvalue] at hs
    cases on <;> cases hs
    trivial
  | literal text =>
    rw [hvalue] at hs
    cases hs
    trivial
  | dynamic code =>
    simp only [hvalue] at hs h
    obtain ⟨words, hwords, hs⟩ := bind_eq_ok.1 hs
    cases hrequired : a.required with
    | true =>
      rw [hrequired, if_pos rfl] at hs h
      cases hs
      exact ⟨covers_of_isMet (met_cons.1 h).1 hwords, nofun⟩
    | false =>
      -- What may be missing is put into words twice, and both of them are owed.
      rw [hrequired, if_neg Bool.false_ne_true] at hs h
      obtain ⟨hvalue, htest⟩ := met_cons.1 h
      obtain ⟨t, ht, heq⟩ := bind_eq_ok.1 hs
      cases heq
      refine ⟨covers_of_isMet hvalue hwords, ?_⟩
      rintro _ ⟨⟩
      exact fits_of_isMet (met_cons.1 htest).1 ht

/-- What comes out of a list of steps comes out of one of them. -/
theorem exists_of_mem_mapM {α β : Type} {f : α → Except Failure β} {as : List α} {bs : List β}
    (h : as.mapM f = .ok bs) : ∀ b ∈ bs, ∃ a ∈ as, f a = .ok b := by
  -- By induction on the steps: the first one gives the first result, and `ih` all others.
  induction as generalizing bs with
  | nil =>
    cases h
    nofun
  | cons a rest ih =>
    rw [List.mapM_cons] at h
    obtain ⟨b, hb, h⟩ := bind_eq_ok.1 h
    obtain ⟨others, hothers, heq⟩ := bind_eq_ok.1 h
    cases heq
    refine List.forall_mem_cons.2 ⟨⟨a, List.mem_cons_self, hb⟩, fun b' hb' => ?_⟩
    obtain ⟨a', ha', hfa'⟩ := ih hothers b' hb'
    exact ⟨a', List.mem_cons_of_mem a ha', hfa'⟩

theorem fits_slots {attributes : List Attribute} (h : Met (attributes.flatMap Attribute.owed))
    {ss : List Slot} (hss : slots attributes = .ok ss) : ∀ s ∈ ss, s.Fits := by
  obtain ⟨all, hall, heq⟩ := bind_eq_ok.1 hss
  cases heq
  intro s hs
  obtain ⟨_, hmem, rfl⟩ := List.mem_filterMap.1 hs
  obtain ⟨a, ha, hslot⟩ := exists_of_mem_mapM hall _ hmem
  exact fits_slot (met_flatMap.1 h a ha) hslot

/-- A path of one name is an output. -/
theorem covers_of_isIdentifier {n : String} (h : isIdentifier n = true) :
    Phrase.output.Covers n :=
  .value (.path (.name h))

/-- A literal fits wherever a value is put out. -/
theorem covers_output_literal (s : String) : Phrase.output.Covers (literal s) := by
  apply (describes_literal s).covers
  unfold literalShape
  split <;> rfl

/-- The name that a binding assigns to is an identifier, if the binding meets what it owes. -/
theorem isIdentifier_of_owed {b : Binding} (h : Met b.owed) : isIdentifier b.name = true := by
  have hname : Owed.name b.name ∈ b.owed := by
    unfold Binding.owed
    split <;> exact List.mem_cons_self
  exact h _ hname

/-- Only code is owed as words. All other values are outputs in any case. -/
theorem covers_bindingWords {b : Binding} (h : Met b.owed) {words : String}
    (hwords : bindingWords b = .ok words) : Phrase.output.Covers words := by
  unfold bindingWords at hwords
  unfold Binding.owed at h
  split at hwords
  · cases hwords
    exact covers_of_isIdentifier (by decide)
  · -- Flags and missing values are put out as words of the language, which are identifiers.
    next on _ =>
    cases hwords
    cases on <;> exact covers_of_isIdentifier (by decide)
  · next s _ =>
    cases hwords
    exact covers_output_literal s
  · next code hvalue =>
    rw [hvalue] at h
    exact covers_of_isMet (met_cons.1 (met_cons.1 h).2).1 hwords

/-- Bindings that meet what they owe are assigned in lines that fit. -/
theorem fits_bindings {level : Nat} {bs : List Binding} (h : ∀ b ∈ bs, Met b.owed) :
    AllFit (bs.map (emitBinding level)) := by
  induction bs with
  | nil => exact allFit_nil
  | cons b rest ih =>
    obtain ⟨hb, hrest⟩ := List.forall_mem_cons.1 h
    rw [List.map_cons, ← List.singleton_append, allFit_append]
    refine ⟨?_, ih hrest⟩
    -- A binding without words fails and emits no line that could be unfit.
    unfold emitBinding
    cases hwords : bindingWords b with
    | error f => exact allFit_failure f
    | ok words =>
      have hfits := And.intro (isIdentifier_of_owed hb) (covers_bindingWords hb hwords)
      exact allFit_line.2 ⟨hfits, allFit_nil⟩

/-- A branch fits if its test meets what it owes and its content fits. -/
theorem fits_emitTest {level : Nat} {flip : Bool} {test : Code}
    {content : List (Emission Directive)} (h : (Owed.test test).isMet = true)
    (hcontent : AllFit content) : AllFit (emitTest level flip test content) := by
  unfold emitTest
  cases ht : testOf test with
  | error f => exact allFit_failure f
  | ok t =>
    have hfits : t.Fits := fits_of_isMet h ht
    -- The end of a test has no words.
    refine allFit_append.2 ⟨allFit_line.2 ⟨?_, hcontent⟩, allFit_line.2 ⟨trivial, allFit_nil⟩⟩
    cases flip with
    | true => exact ⟨hfits.covers, hfits.no_bar⟩
    | false => exact hfits

/-- The lines that a loop starts with, and those in front of its body. -/
theorem fits_loop {loop : Loop} (h : Met loop.owed) {iterable : String}
    (hiterable : loop.iterable.liquid = .ok iterable) :
    (∀ d ∈ startLoop loop iterable, d.Fits) ∧ ∀ d ∈ loopIndex loop, d.Fits := by
  obtain ⟨hstart, hnames⟩ := met_append.1 h
  obtain ⟨hitem, hindex⟩ := met_cons.1 hnames
  constructor
  · unfold startLoop
    cases harray : loop.array with
    | none =>
      rw [harray] at hstart
      have hoperand := covers_of_isMet (met_cons.1 hstart).1 hiterable
      exact List.forall_mem_singleton.2 ⟨hitem, hoperand⟩
    | some array =>
      -- The array is assigned first, and the loop runs over its name.
      rw [harray] at hstart
      obtain ⟨hname, hvalue⟩ := met_cons.1 hstart
      have houtput := covers_of_isMet (met_cons.1 hvalue).1 hiterable
      refine List.forall_mem_cons.2 ⟨⟨hname, houtput⟩, List.forall_mem_singleton.2 ⟨hitem, ?_⟩⟩
      exact .path (.name hname)
  · unfold loopIndex
    rw [List.forall_mem_map]
    intro index hmem
    have hname : isIdentifier index = true := hindex _ (List.mem_map_of_mem hmem)
    have hposition : Phrase.path.Covers "forloop.index0" :=
      .member (.name (n := "forloop") (by decide)) (n := "index0") (by decide)
    exact ⟨hname, .value (.path hposition)⟩

mutual

/-- **The lines of a piece fit**, if all that it owes is met. -/
theorem fits_emit (level : Nat) : ∀ p : Piece, Met p.owed → AllFit (emit level p)
  | .element head content, h => by
    rw [emit]
    obtain ⟨hattributes, hcontent⟩ := met_append.1 h
    refine allFit_append.2 ⟨allFit_warnings head, ?_⟩
    cases hslots : slots head.attributes with
    | error f => exact allFit_failure f
    | ok attributes =>
      have hfits : ∀ a ∈ attributes, a.Fits := fits_slots hattributes hslots
      -- The content is only owed where it is written.
      by_cases hvoid : isVoid head.tag = true
      · simp only [if_pos hvoid]
        exact allFit_line.2 ⟨hfits, allFit_nil⟩
      · by_cases hempty : head.isEmpty = true
        · simp only [if_neg hvoid, if_pos hempty]
          exact allFit_line.2 ⟨hfits, allFit_nil⟩
        · rw [if_neg (by simp [hvoid, hempty])] at hcontent
          simp only [if_neg hvoid, if_neg hempty]
          have hbody := fits_emitAll (level + 1) content hcontent
          exact allFit_append.2 ⟨allFit_line.2 ⟨hfits, hbody⟩, allFit_line.2 ⟨trivial, allFit_nil⟩⟩
  | .text _, _ => allFit_line.2 ⟨trivial, allFit_nil⟩
  | .interpolation code, h => by
    rw [emit]
    cases hwords : code.liquid with
    | error f => exact allFit_failure f
    | ok words => exact allFit_line.2 ⟨covers_of_isMet (met_cons.1 h).1 hwords, allFit_nil⟩
  | .condition test none (some alternate), h => by
    rw [emit]
    obtain ⟨htest, hbranches⟩ := met_cons.1 h
    exact fits_emitTest htest (fits_emitAll (level + 1) alternate hbranches)
  | .condition test none none, h => by
    rw [emit]
    · exact fits_emitTest (met_cons.1 h).1 allFit_nil
    · nofun
  | .condition test (some consequent) none, h => by
    rw [emit]
    · obtain ⟨htest, hbranches⟩ := met_cons.1 h
      have hconsequent := fits_emitAll (level + 1) consequent (met_append.1 hbranches).1
      exact fits_emitTest htest (allFit_append.2 ⟨hconsequent, allFit_nil⟩)
    · nofun
  | .condition test (some consequent) (some alternate), h => by
    rw [emit]
    · obtain ⟨htest, hbranches⟩ := met_cons.1 h
      obtain ⟨hconsequent, halternate⟩ := met_append.1 hbranches
      have hyes := fits_emitAll (level + 1) consequent hconsequent
      have hno := fits_emitAll (level + 1) alternate halternate
      exact fits_emitTest htest (allFit_append.2 ⟨hyes, allFit_line.2 ⟨trivial, hno⟩⟩)
    · nofun
  | .iteration loop body, h => by
    rw [emit]
    obtain ⟨hloop, hbody⟩ := met_append.1 h
    -- The lines at the start, the index, the body and the end of the loop.
    cases hiterable : loop.iterable.liquid with
    | error f => exact allFit_failure f
    | ok iterable =>
      obtain ⟨hstart, hindex⟩ := fits_loop hloop hiterable
      have hinside := fits_emitAll (level + 1) body hbody
      refine allFit_append.2 ⟨allFit_append.2 ⟨allFit_append.2 ⟨?_, ?_⟩, hinside⟩, ?_⟩
      · exact allFit_map_line hstart
      · exact allFit_map_line hindex
      · exact allFit_line.2 ⟨trivial, allFit_nil⟩
  | .scope bindings body, h => by
    rw [emit]
    obtain ⟨hbindings, hbody⟩ := met_append.1 h
    exact allFit_append.2 ⟨fits_bindings (met_flatMap.1 hbindings), fits_emitAll level body hbody⟩

/-- Pieces fit where everything they owe is met, by recursion along the emission. -/
theorem fits_emitAll (level : Nat) : ∀ ps : List Piece, Met (owedAll ps) → AllFit (emitAll level ps)
  | [], _ => allFit_nil
  | p :: rest, h => by
    obtain ⟨hp, hrest⟩ := met_append.1 h
    rw [emitAll]
    exact allFit_append.2 ⟨fits_emit level p hp, fits_emitAll level rest hrest⟩

end

/-! ### Refusals -/

/-- The failure says that an engine has no words. -/
def IsUnsupported (f : Failure) : Prop :=
  ∃ kind name, f = .unsupported kind name

mutual

/-- **What has no words is unsupported.** -/
theorem unsupported_of_operand : ∀ {e : Expr} {f : Failure}, operand e = .error f →
    IsUnsupported f
  | .mk text form, f, h => by
    rw [operand] at h
    exact unsupported_of_formOperand h

/-- A form that is refused is refused as unsupported, form by form. -/
theorem unsupported_of_formOperand {text : String} : ∀ {form : Form} {f : Failure},
    formOperand text form = .error f → IsUnsupported f
  | .paren inner, f, h => by
    rw [formOperand] at h
    exact unsupported_of_operand h
  | .identifier _, _, h | .string _, _, h | .number _, _, h | .boolean _, _, h | .null, _, h => by
    cases h
  | .member object property, f, h => by
    rw [formOperand] at h
    rcases bind_eq_error.1 h with hobject | ⟨_, -, hok⟩
    · exact unsupported_of_operand hobject
    · cases hok
  | .index object key, f, h => by
    rw [formOperand] at h
    rcases bind_eq_error.1 h with hobject | ⟨_, -, h⟩
    · exact unsupported_of_operand hobject
    · rcases bind_eq_error.1 h with hkey | ⟨_, -, hok⟩
      · exact unsupported_of_operand hkey
      · cases hok
  | .unary op (.mk _ form), f, h => by
    -- A negative numeral is the one that is not refused.
    cases op with
    | negate =>
      cases form with
      | number x => cases h
      | _ =>
        cases h
        exact ⟨_, _, rfl⟩
    | _ =>
      cases h
      exact ⟨_, _, rfl⟩
  | .binary op left right, f, h => by
    rw [formOperand] at h
    split at h
    · cases h
      exact ⟨_, _, rfl⟩
    · rcases bind_eq_error.1 h with hleft | ⟨l, -, h⟩
      · exact unsupported_of_operand hleft
      · rcases bind_eq_error.1 h with hright | ⟨r, -, h⟩
        · exact unsupported_of_operand hright
        · split at h
          · cases h
            exact ⟨_, _, rfl⟩
          · cases h
  | .logical op left right, f, h => by
    rw [formOperand] at h
    split at h
    · cases h
      exact ⟨_, _, rfl⟩
    · rcases bind_eq_error.1 h with hleft | ⟨l, -, h⟩
      · exact unsupported_of_operand hleft
      · rcases bind_eq_error.1 h with hright | ⟨r, -, hok⟩
        · exact unsupported_of_operand hright
        · cases hok
  | .call (.mk calleeText callee) arguments, f, h => by
    cases callee with
    | member object method =>
      cases arguments with
      | cons _ _ =>
        cases h
        exact ⟨_, _, rfl⟩
      | nil =>
        rw [formOperand] at h
        split at h
        · rcases bind_eq_error.1 h with hobject | ⟨_, -, hok⟩
          · exact unsupported_of_operand hobject
          · cases hok
        · cases h
          exact ⟨_, _, rfl⟩
    | _ =>
      cases h
      exact ⟨_, _, rfl⟩
  | .template runs substitutions, f, h => by
    rw [formOperand] at h
    rcases bind_eq_error.1 h with hparts | ⟨_, -, hok⟩
    · exact unsupported_of_templateParts hparts
    · cases hok
  | .conditional _ _ _, _, h | .object _, _, h | .assignment _ _, _, h | .function _, _, h
  | .arrow _, _, h | .element _ _ _, _, h | .fragment _, _, h | .other _ _, _, h
  | .chain _, _, h => by
    cases h
    exact ⟨_, _, rfl⟩

/-- So are the parts of a template. -/
theorem unsupported_of_templateParts {text : String} : ∀ {runs : List Quasi} {es : List Expr}
    {f : Failure}, templateParts text runs es = .error f → IsUnsupported f
  | runs, [], f, h => by
    cases h
  -- The parts of the literal come in order: the first that has no words is the reason.
  | runs, e :: rest, f, h => by
    rw [templateParts] at h
    rcases bind_eq_error.1 h with hvalue | ⟨value, -, h⟩
    · exact unsupported_of_operand hvalue
    · -- A value that has words may still be compound, and then it is refused inside a literal.
      split at h
      · cases h
        exact ⟨_, _, rfl⟩
      · rcases bind_eq_error.1 h with hothers | ⟨_, -, hok⟩
        · exact unsupported_of_templateParts hothers
        · cases hok

end

theorem unsupported_of_testOperand {e : Expr} {f : Failure} (h : testOperand e = .error f) :
    IsUnsupported f := by
  unfold testOperand at h
  split at h <;> exact unsupported_of_operand (map_eq_error.1 h)

end Liquid

/-- Code is refused as unsupported if it is an expression. -/
theorem Spoken.unsupported_of_refusal? {u : Spoken} {f : Failure} (h : u.refusal? = some f) :
    IsUnsupported f ∨ ∃ text, Expr.parse? text = none ∧ f = .malformedCode text := by
  -- Either the code does not parse, or its expression has no words; the two kinds of words differ
  -- in the second case only.
  have of_parse {α : Type} {code : Code} {words : Expr → Except Failure α}
      (hwords : ∀ e, words e = .error f → IsUnsupported f)
      (h : (Liquid.parse code >>= words) = .error f) :
      IsUnsupported f ∨ ∃ text, Expr.parse? text = none ∧ f = .malformedCode text := by
    rcases bind_eq_error.1 h with hparse | ⟨e, -, he⟩
    · unfold Liquid.parse at hparse
      split at hparse
      · cases hparse
      · next hnone =>
        cases hparse
        exact .inr ⟨code.text, hnone, rfl⟩
    · exact .inl (hwords e he)
  cases u with
  | value code => exact of_parse (fun _ => unsupported_of_operand) (eq_error_of_refusal? h)
  | test code => exact of_parse (fun _ => unsupported_of_testOperand) (eq_error_of_refusal? h)

/-- **The template fits the grammar of Liquid**, for every tree and table, if the words that are
accepted are right for their places and the names are identifiers. Where no template is written, an
expression is refused as unsupported, or code is no expression. -/
theorem template_fits (n : Node) (t : Table) (level : Nat) (h : Met (owedAll (n.layout t))) :
    let lines := Emission.lines (emitAll level (n.layout t))
    (∀ text, (Engine.liquid.generate level n t).result = .ok text →
      text = Emission.spelled Directive.spell lines ∧ ∀ l ∈ lines, l.2.Fits) ∧
    ∀ f, (Engine.liquid.generate level n t).result = .error f →
      IsUnsupported f ∨ ∃ text, Expr.parse? text = none ∧ f = .malformedCode text := by
  intro lines
  have hfits : AllFit (emitAll level (n.layout t)) := fits_emitAll level (n.layout t) h
  constructor
  · intro text htext
    exact ⟨(Emission.result_outcome_iff.1 htext).2, hfits⟩
  · intro f hf
    have hfirst := Emission.result_outcome_error_iff.1 hf
    -- The failure is that of the first code without words, whatever is owed.
    rw [findSome?_emitAll] at hfirst
    obtain ⟨u, -, hu⟩ := List.exists_of_findSome?_eq_some hfirst
    exact u.unsupported_of_refusal? hu

/-- A loop that names all it can, with filters in an output, in an attribute and in a prop, and with
a bar in a literal of a test. -/
theorem template_fits_loop_and_filters :
    let card : Component := ⟨{ name := "Card", props := [⟨"title", true⟩] },
      [.element "h1" [] [.interpolation ⟨"title"⟩]], true, none⟩
    let n : Node := .element "ul" [⟨"id", .dynamic ⟨"`list-${id}`"⟩, true⟩]
      [.iteration ⟨⟨"data.items"⟩, "item", some "i", some "all"⟩
        [.condition ⟨"(item.kind === 'a|b' || all[i].open) && i < last"⟩
          (some (.interpolation ⟨"item.name.trim().toUpperCase()"⟩))
          (some (.element "Card" [⟨"title", .dynamic ⟨"item.title.trim()"⟩, false⟩] []))]]
    let t : Table := { components := Dict.ofList [("Card", card)] }
    Met (owedAll (n.layout t)) ∧
      ∃ text, (Engine.liquid.generate 0 n t).result = .ok text ∧
        ∀ l ∈ Emission.lines (emitAll 0 (n.layout t)), l.2.Fits := by
  intro card n t
  -- What is owed is a finite list for a given tree, so it is checked by running it.
  have hmet : Met (owedAll (n.layout t)) := List.all_eq_true.1 (by decide +kernel)
  have hok : ∃ text, (Engine.liquid.generate 0 n t).result = .ok text :=
    exists_ok_of_isSome (by decide +kernel)
  obtain ⟨text, htext⟩ := hok
  obtain ⟨-, hfits⟩ := (template_fits n t 0 hmet).1 text htext
  exact ⟨hmet, text, htext, hfits⟩

/-- **A filter in a test** is accepted, although the words are no test. -/
theorem filter_in_test :
    let n : Node := .condition ⟨"name.trim()"⟩ (some (.text "shown")) none
    let lines := Emission.lines (emitAll 0 (n.layout {}))
    (Engine.liquid.generate 0 n {}).result = .ok (Emission.spelled Directive.spell lines) ∧
      (0, .startIf ⟨false, "name | strip"⟩) ∈ lines ∧ ¬ Phrase.test.Covers "name | strip" := by
  intro n lines
  have hlayout : n.layout {} = [.condition ⟨"name.trim()"⟩ (some [.text "shown"]) none] := rfl
  have htest : testOf ⟨"name.trim()"⟩ = .ok ⟨false, "name | strip"⟩ := by decide +kernel
  have hemitted : emitAll 0 (n.layout {}) = [.line 0 (.startIf ⟨false, "name | strip"⟩),
      .line 1 (.text "shown"), .line 0 (.endIf false)] := by
    rw [hlayout, emitAll, emitAll, List.append_nil, emit]
    · unfold emitTest
      rw [htest]
      rfl
    · nofun
  -- The template is printed, its first line has the words, and a test cannot have them.
  refine ⟨Emission.result_outcome_iff.2 ⟨?_, rfl⟩, ?_, fun h => ?_⟩
  · rw [hemitted]
    have hend : Emission.Succeeds [Emission.line 0 (Directive.endIf false)] :=
      Emission.succeeds_line Emission.succeeds_nil
    exact Emission.succeeds_line (Emission.succeeds_line hend)
  · have hlines : lines = Emission.lines (emitAll 0 (n.layout {})) := rfl
    rw [hlines, hemitted]
    exact List.mem_cons_self
  · have hbar : '|' ∉ unquoted none "name | strip".toList := (h.clear nofun).no_bar
    exact hbar (by decide)

end Stencil
