import Stencil.Compile
import Stencil.Proofs.Engine.Agreement
import Stencil.Proofs.Outcome
import Stencil.Proofs.Script.Name

/-!
# What Liquid refuses

EJS and Pug take code as it is, so they write every tree. Liquid has to put code in its own words,
and refuses what it has none for. This module says exactly when it does so, and why.

* `Spoken` — a code that Liquid has to find words for, as a value or as a test;
* `Says` — what the rendering of a site has to say, in the order of the output. Bodies of components
  and children of calls are rendered where they are inlined; the children of a void element are not
  rendered at all;
* `Piece.spoken` — the same for pieces.

A site says what its pieces do (`says_iff`), and the first failure that Liquid gives off is that of
the first code it has no words for (`findSome?_emitAll`). An attribute that may be missing is put in
words twice, as a value and as a test. The test adds no failure of its own, since a value in words
is never a negation (`liquidTest_of_liquid`).

The main theorem is `generate_refuses`.
-/

namespace Stencil

/-! ### What has to be put in words -/

/-- A code that has to be put in words. -/
inductive Spoken where
  | value (code : Code)
  | test (code : Code)

/-- Why Liquid has no words for the code. -/
def Spoken.refusal? : Spoken → Option Failure
  | .value code => Stencil.refusal? code.liquid
  | .test code => Stencil.refusal? code.liquidTest

/-- What an attribute of an element has to say: a flag and a literal need no words. -/
def Attribute.spoken? (a : Attribute) : Option Spoken :=
  match a.value with
  | .dynamic code => some (.value code)
  | _ => none

/-- What a prop of an inlined call has to say. -/
def Binding.spoken? (b : Binding) : Option Spoken :=
  match b.value with
  | some (.dynamic code) => some (.value code)
  | _ => none

/-- **What the rendering of a site has to say**, in the order of the output. -/
inductive Says (t : Table) : Site → List Spoken → Prop
  | nil {stack slots} : Says t ⟨stack, slots, []⟩ []
  | root {stack slots cs ns us vs} : Says t ⟨stack, slots, cs⟩ us → Says t ⟨stack, slots, ns⟩ vs →
    Says t ⟨stack, slots, .root cs :: ns⟩ (us ++ vs)
  | fragment {stack slots cs ns us vs} : Says t ⟨stack, slots, cs⟩ us →
    Says t ⟨stack, slots, ns⟩ vs → Says t ⟨stack, slots, .fragment cs :: ns⟩ (us ++ vs)
  | mixin {stack slots signature cs ns us vs} : Says t ⟨stack, slots, cs⟩ us →
    Says t ⟨stack, slots, ns⟩ vs → Says t ⟨stack, slots, .mixin signature cs :: ns⟩ (us ++ vs)
  /-- An element that is not inlined says its attributes and then its children. -/
  | plain {stack slots tag attributes cs ns us vs} : t.resolve? tag = none ∨ tag ∈ stack →
    isVoid tag = false → Says t ⟨stack, slots, cs⟩ us → Says t ⟨stack, slots, ns⟩ vs →
    Says t ⟨stack, slots, .element tag attributes cs :: ns⟩
      (attributes.filterMap Attribute.spoken? ++ us ++ vs)
  /-- A void element does not come to its children. -/
  | void {stack slots tag attributes cs ns vs} : t.resolve? tag = none ∨ tag ∈ stack →
    isVoid tag = true → Says t ⟨stack, slots, ns⟩ vs →
    Says t ⟨stack, slots, .element tag attributes cs :: ns⟩
      (attributes.filterMap Attribute.spoken? ++ vs)
  /-- An inlined call says what its declared props are bound to, and then the body. -/
  | inlined {stack slots tag attributes cs ns c us vs} : t.resolve? tag = some c → tag ∉ stack →
    Says t ⟨tag :: stack, cs :: slots, c.body⟩ us → Says t ⟨stack, slots, ns⟩ vs →
    Says t ⟨stack, slots, .element tag attributes cs :: ns⟩
      ((c.signature.bind attributes).filterMap Binding.spoken? ++ us ++ vs)
  | text {stack slots value ns vs} : Says t ⟨stack, slots, ns⟩ vs →
    Says t ⟨stack, slots, .text value :: ns⟩ vs
  /-- A slot says what the children of the call do. -/
  | slot {stack slot outer code ns us vs} : isChildrenSlot code = true →
    Says t ⟨stack, outer, slot⟩ us → Says t ⟨stack, slot :: outer, ns⟩ vs →
    Says t ⟨stack, slot :: outer, .interpolation code :: ns⟩ (us ++ vs)
  | interpolation {stack slots code ns vs} : isChildrenSlot code = false ∨ slots = [] →
    Says t ⟨stack, slots, ns⟩ vs →
    Says t ⟨stack, slots, .interpolation code :: ns⟩ (.value code :: vs)
  | condition {stack slots test yes no ns us vs ws} : Says t ⟨stack, slots, yes.toList⟩ us →
    Says t ⟨stack, slots, no.toList⟩ vs → Says t ⟨stack, slots, ns⟩ ws →
    Says t ⟨stack, slots, .condition test yes no :: ns⟩ (.test test :: us ++ vs ++ ws)
  | iteration {stack slots loop body ns us vs} : Says t ⟨stack, slots, body⟩ us →
    Says t ⟨stack, slots, ns⟩ vs →
    Says t ⟨stack, slots, .iteration loop body :: ns⟩ (.value loop.iterable :: us ++ vs)

mutual

/-- What a piece has to say. -/
def Piece.spoken : Piece → List Spoken
  | .element head content =>
    head.attributes.filterMap Attribute.spoken?
      ++ if isVoid head.tag || head.isEmpty then [] else spokenAll content
  | .text _ => []
  | .interpolation code => [.value code]
  | .condition test consequent alternate =>
    .test test :: spokenBranch consequent ++ spokenBranch alternate
  | .iteration loop body => .value loop.iterable :: spokenAll body
  | .scope bindings body => bindings.filterMap Binding.spoken? ++ spokenAll body

def spokenAll : List Piece → List Spoken
  | [] => []
  | p :: rest => p.spoken ++ spokenAll rest

def spokenBranch : Option (List Piece) → List Spoken
  | none => []
  | some ps => spokenAll ps

end

/-- What pieces side by side have translated stands side by side. -/
theorem spokenAll_append (ps qs : List Piece) :
    spokenAll (ps ++ qs) = spokenAll ps ++ spokenAll qs := by
  induction ps with
  | nil => rfl
  | cons p ps ih => rw [List.cons_append, spokenAll, spokenAll, ih, List.append_assoc]

/-- The pieces of a branch that is missing say nothing, and none are laid out for it. -/
theorem spokenBranch_map {t : Table} {stack : List String} {slots : List (List Node)}
    {b : Option Node} {ps : List Piece} (h : Lays t ⟨stack, slots, b.toList⟩ ps) :
    spokenBranch (b.map fun _ => ps) = spokenAll ps := by
  cases b with
  | none =>
    cases h
    rfl
  | some n => rfl

/-- The content of an element that is written with its children. -/
theorem spoken_content {t : Table} {stack : List String} {slots : List (List Node)}
    {tag : String} {cs : List Node} {ps : List Piece} (h : Lays t ⟨stack, slots, cs⟩ ps)
    (hvoid : isVoid tag = false) :
    (if isVoid tag || cs.isEmpty then [] else spokenAll ps) = spokenAll ps := by
  cases cs with
  | nil =>
    cases h
    rw [spokenAll, ite_self]
  | cons c cs => rw [hvoid, List.isEmpty_cons, Bool.or_false, if_neg Bool.false_ne_true]

/-- An element that is not inlined, void or not. -/
theorem says_element {t : Table} {stack : List String} {slots : List (List Node)}
    {tag : String} {attributes : List Attribute} {cs ns : List Node} {ps : List Piece}
    {vs : List Spoken} (hplain : t.resolve? tag = none ∨ tag ∈ stack)
    (hlays : Lays t ⟨stack, slots, cs⟩ ps) (hcs : Says t ⟨stack, slots, cs⟩ (spokenAll ps))
    (hns : Says t ⟨stack, slots, ns⟩ vs) :
    Says t ⟨stack, slots, .element tag attributes cs :: ns⟩
      (attributes.filterMap Attribute.spoken?
        ++ (if isVoid tag || cs.isEmpty then [] else spokenAll ps) ++ vs) := by
  -- A void element does not come to its children, and the pieces it is laid out to are not written.
  cases hvoid : isVoid tag with
  | true =>
    rw [Bool.true_or, if_pos rfl, List.append_nil]
    exact .void hplain hvoid hns
  | false =>
    rw [← hvoid, spoken_content hlays hvoid]
    exact .plain hplain hvoid hcs hns

/-- **A site says what its pieces do**, and nothing else. -/
theorem says_iff {t : Table} {s : Site} {ps : List Piece} (h : Lays t s ps) {us : List Spoken} :
    Says t s us ↔ us = spokenAll ps := by
  -- By induction on the layout. In each case inversion leaves the one rule for the node; for an
  -- element it is the same tag that decides between the rules.
  induction h generalizing us with
  | nil =>
    refine ⟨fun h => ?_, fun h => h ▸ .nil⟩
    cases h
    rfl
  | root _ _ ihcs ihns | fragment _ _ ihcs ihns | mixin _ _ ihcs ihns =>
    rw [spokenAll_append]
    constructor
    · intro h
      cases h
      rename_i hcs hns
      rw [ihcs.1 hcs, ihns.1 hns]
    · rintro rfl
      constructor
      · exact ihcs.2 rfl
      · exact ihns.2 rfl
  | plain hresolve hlays _ ihcs ihns =>
    rw [spokenAll, Piece.spoken]
    constructor
    · intro h
      cases h with
      | plain _ hvoid hcs hns => rw [spoken_content hlays hvoid, ihcs.1 hcs, ihns.1 hns]
      | void _ hvoid hns => rw [hvoid, ihns.1 hns, Bool.true_or, if_pos rfl, List.append_nil]
      | inlined hsome =>
        rw [hresolve] at hsome
        cases hsome
    · rintro rfl
      exact says_element (.inl hresolve) hlays (ihcs.2 rfl) (ihns.2 rfl)
  | recursive hresolve hmem hlays _ ihcs ihns =>
    rw [spokenAll, Piece.spoken]
    constructor
    · intro h
      cases h with
      | plain _ hvoid hcs hns => rw [spoken_content hlays hvoid, ihcs.1 hcs, ihns.1 hns]
      | void _ hvoid hns => rw [hvoid, ihns.1 hns, Bool.true_or, if_pos rfl, List.append_nil]
      | inlined _ hnot => exact absurd hmem hnot
    · rintro rfl
      exact says_element (.inr hmem) hlays (ihcs.2 rfl) (ihns.2 rfl)
  -- Neither rule for a tag that is kept applies here, as the tag names a component that is not
  -- open.
  | inlined hresolve hnot _ _ ihbody ihns =>
    rw [spokenAll, Piece.spoken]
    constructor
    · intro h
      cases h with
      | plain hplain | void hplain =>
        rcases hplain with hnone | hmem
        · rw [hresolve] at hnone
          cases hnone
        · exact absurd hmem hnot
      | inlined hsome _ hbody hns =>
        rw [hresolve] at hsome
        cases hsome
        rw [ihbody.1 hbody, ihns.1 hns]
    · rintro rfl
      exact .inlined hresolve hnot (ihbody.2 rfl) (ihns.2 rfl)
  | emptyText _ ihns =>
    refine ⟨fun h => ?_, fun h => .text (ihns.2 h)⟩
    cases h with
    | text hns => exact ihns.1 hns
  | text _ _ ihns =>
    rw [spokenAll, Piece.spoken, List.nil_append]
    refine ⟨fun h => ?_, fun h => .text (ihns.2 h)⟩
    cases h with
    | text hns => exact ihns.1 hns
  -- A slot that is filled is none of the interpolations that are kept.
  | slot hslot _ _ ihslot ihns =>
    rw [spokenAll_append]
    constructor
    · intro h
      cases h with
      | slot _ hcs hns => rw [ihslot.1 hcs, ihns.1 hns]
      | interpolation hno =>
        rcases hno with hno | hno
        · rw [hslot] at hno
          cases hno
        · cases hno
    · rintro rfl
      exact .slot hslot (ihslot.2 rfl) (ihns.2 rfl)
  | interpolation hslot _ ihns =>
    rw [spokenAll, Piece.spoken, List.singleton_append]
    constructor
    · intro h
      cases h with
      | slot hyes =>
        rcases hslot with hno | hno
        · rw [hyes] at hno
          cases hno
        · cases hno
      | interpolation _ hns => rw [ihns.1 hns]
    · rintro rfl
      exact .interpolation hslot (ihns.2 rfl)
  | condition hyes hno _ ihyes ihno ihns =>
    rw [spokenAll, Piece.spoken, spokenBranch_map hyes, spokenBranch_map hno]
    constructor
    · intro h
      cases h with
      | condition hyes' hno' hns => rw [ihyes.1 hyes', ihno.1 hno', ihns.1 hns]
    · rintro rfl
      exact .condition (ihyes.2 rfl) (ihno.2 rfl) (ihns.2 rfl)
  | iteration _ _ ihbody ihns =>
    rw [spokenAll, Piece.spoken]
    constructor
    · intro h
      cases h with
      | iteration hbody hns => rw [ihbody.1 hbody, ihns.1 hns]
    · rintro rfl
      exact .iteration (ihbody.2 rfl) (ihns.2 rfl)

/-! ### Words for values and for tests -/

/-- The first refusal among what is picked. -/
theorem findSome?_filterMap {α β γ : Type} (as : List α) (f : α → Option β) (g : β → Option γ) :
    (as.filterMap f).findSome? g = as.findSome? fun a => (f a).bind g := by
  rw [← List.head?_filterMap, List.filterMap_filterMap, List.head?_filterMap]

/-- What is done with a translation does not refuse it. -/
theorem refusal?_bind_ok {α β : Type} (x : Except Failure α) (f : α → β) :
    refusal? (x >>= fun a => .ok (f a)) = refusal? x := by
  cases x <;> rfl

namespace Liquid

open Script

/-- Parentheses change nothing about the words. -/
theorem operand_bare (e : Expr) : operand e.bare = operand e := by
  fun_induction Expr.bare e with
  | case1 text inner ih => rw [ih, operand, formOperand]
  | case2 e _ => rfl

/-- A negation has no words as a value. -/
theorem operand_of_not {e inner : Expr} (h : e.bare.form = .unary .not inner) :
    operand e = .error (.unsupported "UnaryExpression" e.bare.text) := by
  rw [← operand_bare]
  cases hbare : e.bare with
  | mk text form =>
    rw [hbare] at h
    cases h
    rfl

/-- **A value in words is no negation**, so it has the same words as a test. -/
theorem testOperand_of_operand {e : Expr} {words : String} (h : operand e = .ok words) :
    testOperand e = .ok (false, words) := by
  unfold testOperand
  split
  · next inner hnot =>
    rw [operand_of_not hnot] at h
    cases h
  · rw [h]
    rfl

end Liquid

/-- Code that is translated as a value is translated as a test, not negated. -/
theorem liquidTest_of_liquid {code : Code} {words : String} (h : code.liquid = .ok words) :
    code.liquidTest = .ok (false, words) := by
  obtain ⟨e, hparse, hwords⟩ := bind_eq_ok.1 h
  exact bind_eq_ok.2 ⟨e, hparse, Liquid.testOperand_of_operand hwords⟩

namespace Liquid

open Emission

/-- An attribute is refused for its value, and for nothing else. -/
theorem refusal?_slot? (a : Attribute) : refusal? (slot? a) = a.spoken?.bind Spoken.refusal? := by
  rw [slot?, Attribute.spoken?]
  cases a.value with
  | flag on => cases on <;> rfl
  | literal s => rfl
  | dynamic code =>
    simp only [Option.bind_some, Spoken.refusal?]
    -- Only an attribute that may be missing is tested, and a value with words has words as a test.
    cases hcode : code.liquid with
    | error f => rfl
    | ok words =>
      cases a.required with
      | true => rfl
      | false =>
        simp only [testOf, liquidTest_of_liquid hcode]
        rfl

/-- The attributes of an element are refused for the first value among them that has no words. -/
theorem refusal?_slots (attributes : List Attribute) : refusal? (slots attributes)
    = (attributes.filterMap Attribute.spoken?).findSome? Spoken.refusal? := by
  rw [slots, refusal?_bind_ok, findSome?_filterMap]
  induction attributes with
  | nil => rfl
  | cons a rest ih =>
    rw [List.mapM_cons, List.findSome?_cons, ← refusal?_slot?]
    -- Attributes are translated in order, up to the first one that is refused.
    cases slot? a with
    | error f => rfl
    | ok s =>
      rw [← ih]
      exact refusal?_bind_ok _ _

/-- The bindings of a call are refused for the first value among them that has no words. -/
theorem findSome?_bindings (level : Nat) (bindings : List Binding) :
    (bindings.map (emitBinding level)).findSome? failure?
      = (bindings.filterMap Binding.spoken?).findSome? Spoken.refusal? := by
  rw [List.findSome?_map, findSome?_filterMap]
  congr 1
  funext b
  rw [Function.comp_apply, emitBinding, bindingWords, Binding.spoken?]
  cases b.value with
  | none => rfl
  | some value =>
    cases value with
    | flag on => rfl
    | literal s => rfl
    | dynamic code =>
      -- Only code can be without words; what is written around it fails for nothing.
      simp only [Option.bind_some, Spoken.refusal?]
      cases code.liquid <;> rfl

/-- Warnings are no failures. -/
theorem findSome?_warnings (h : Head) :
    (h.warnings : List (Emission Directive)).findSome? failure? = none :=
  List.findSome?_eq_none_iff.2 (succeeds_warnings h)

/-- Lines do not fail. -/
theorem findSome?_lines (level : Nat) (ds : List Directive) :
    (ds.map (Emission.line level)).findSome? failure? = none :=
  List.findSome?_eq_none_iff.2 (succeeds_map_line level id ds)

/-- A test around lines is refused for itself, or else for what is inside. -/
theorem findSome?_emitTest (level : Nat) (flip : Bool) (test : Code)
    (content : List (Emission Directive)) :
    (emitTest level flip test content).findSome? failure?
      = (refusal? test.liquidTest).or (content.findSome? failure?) := by
  unfold emitTest testOf
  -- The words of the test come first, so its failure does.
  cases test.liquidTest with
  | error f => rfl
  | ok words =>
    simp only [bind, Except.bind, refusal?, Option.none_or]
    rw [List.findSome?_append]
    exact Option.or_none

/-- A test is refused before what stands in its branches. -/
theorem findSome?_test (test : Code) (us : List Spoken) :
    (Spoken.test test :: us).findSome? Spoken.refusal?
      = (refusal? test.liquidTest).or (us.findSome? Spoken.refusal?) := by
  rw [List.findSome?_cons, Spoken.refusal?]
  cases refusal? test.liquidTest <;> rfl

mutual

/-- **The first failure of a piece** is that of the first code in it that has no words. -/
theorem findSome?_emit (level : Nat) : ∀ p : Piece,
    (emit level p).findSome? failure? = p.spoken.findSome? Spoken.refusal?
  | .element head content => by
    have hattributes := refusal?_slots head.attributes
    rw [emit, List.findSome?_append, findSome?_warnings, Option.none_or, Piece.spoken,
      List.findSome?_append, ← hattributes]
    -- The attributes come first in the output, and their failure is all that is left of the
    -- element.
    cases slots head.attributes with
    | error f => rfl
    | ok attributes =>
      -- The lines of the tags fail for nothing, so the failure is that of the content, if it is
      -- written.
      simp only [refusal?, Option.none_or]
      by_cases hvoid : isVoid head.tag = true
      · rw [if_pos hvoid, hvoid, Bool.true_or]
        rfl
      · by_cases hempty : head.isEmpty = true
        · rw [if_neg hvoid, if_pos hempty, hempty, Bool.or_true]
          rfl
        · have hcontent := findSome?_emitAll (level + 1) content
          rw [if_neg hvoid, if_neg hempty, if_neg (by simp [hvoid, hempty]), ← hcontent,
            List.findSome?_append]
          exact Option.or_none
  | .text _ => rfl
  | .interpolation code => by
    rw [emit, Piece.spoken]
    simp only [List.findSome?_cons, List.findSome?_nil, Spoken.refusal?]
    cases code.liquid <;> rfl
  | .condition test none (some alternate) => by
    rw [emit, findSome?_emitTest, findSome?_emitAll (level + 1) alternate]
    exact (findSome?_test test (spokenAll alternate)).symm
  -- What is tested comes first in all four conditions, and the order of the branches is that of the
  -- output.
  | .condition test none none => by
    have htest := findSome?_emitTest level false test []
    exact htest.trans (findSome?_test test []).symm
  | .condition test (some consequent) none => by
    have hconsequent := findSome?_emitAll (level + 1) consequent
    rw [emit, findSome?_emitTest, emitConsequent, emitAlternate, List.append_nil, hconsequent,
      Piece.spoken, spokenBranch, spokenBranch, List.append_nil, findSome?_test]
    nofun
  | .condition test (some consequent) (some alternate) => by
    have hconsequent := findSome?_emitAll (level + 1) consequent
    have halternate := findSome?_emitAll (level + 1) alternate
    rw [emit, findSome?_emitTest, emitConsequent, emitAlternate, List.findSome?_append, hconsequent,
      Piece.spoken, spokenBranch, spokenBranch, List.cons_append, findSome?_test,
      List.findSome?_append, ← halternate]
    · rfl
    · nofun
  | .iteration loop body => by
    have hbody := findSome?_emitAll (level + 1) body
    rw [emit, Piece.spoken, List.findSome?_cons, Spoken.refusal?]
    cases loop.iterable.liquid with
    | error f => rfl
    | ok iterable =>
      -- The lines around the body fail for nothing.
      simp only [refusal?]
      rw [List.findSome?_append, List.findSome?_append, List.findSome?_append, findSome?_lines,
        findSome?_lines, Option.none_or, Option.none_or, hbody]
      exact Option.or_none
  | .scope bindings body => by
    rw [emit, Piece.spoken, List.findSome?_append, List.findSome?_append, findSome?_bindings,
      findSome?_emitAll level body]

/-- The first failure of pieces side by side is the first refusal of what they have translated. -/
theorem findSome?_emitAll (level : Nat) : ∀ ps : List Piece,
    (emitAll level ps).findSome? failure? = (spokenAll ps).findSome? Spoken.refusal?
  | [] => rfl
  | p :: ps => by
    rw [emitAll, spokenAll, List.findSome?_append, List.findSome?_append, findSome?_emit level p,
      findSome?_emitAll level ps]

end

end Liquid

/-! ### Compilations -/

/-- The compilation comes to a template. -/
def Compiles (fs : Files) (o : Options) (source : String) : Prop :=
  ∃ text, (compile fs o source).result = .ok text

/-- **A source compiles** if it can be lowered and bundled, whatever the engine, and the engine has
words for the result. -/
theorem compiles_iff {fs : Files} {o : Options} {source : String} {e : Engine} :
    Compiles fs { o with engine := e } source ↔
      ∃ l l', Lowered.optimized o.file source = .ok l ∧ (l.bundled fs o.file).result = .ok l' ∧
        ∃ body, (e.generate o.level l'.tree l'.table).result = .ok body := by
  unfold Compiles compile
  constructor
  · rintro ⟨text, h⟩
    obtain ⟨l, hl, h⟩ := Outcome.result_bind_iff.1 h
    obtain ⟨l', hl', h⟩ := Outcome.result_bind_iff.1 h
    obtain ⟨body, hbody, -⟩ := Outcome.result_bind_iff.1 h
    exact ⟨l, l', hl, hl', body, hbody⟩
  · rintro ⟨l, l', hl, hl', body, hbody⟩
    -- The three steps of a compilation in the order in which they are taken.
    refine ⟨o.wrap body, ?_⟩
    refine Outcome.result_bind_iff.2 ⟨l, hl, Outcome.result_bind_iff.2 ⟨l', hl', ?_⟩⟩
    exact Outcome.result_bind_iff.2 ⟨body, hbody, rfl⟩

/-- EJS prints every tree. -/
theorem Ejs.exists_generate (level : Nat) (n : Node) (t : Table) :
    ∃ text, (Engine.ejs.generate level n t).result = .ok text :=
  ⟨_, Emission.result_outcome_iff.2 ⟨Ejs.succeeds_emitAll level _, rfl⟩⟩

theorem Pug.exists_generate (level : Nat) (n : Node) (t : Table) :
    ∃ text, (Engine.pug.generate level n t).result = .ok text :=
  ⟨_, Emission.result_outcome_iff.2 ⟨Pug.succeeds_emitAll level _, rfl⟩⟩

/-- Emissions come to a failure where one of them is a failure: to the first one. -/
theorem Emission.result_outcome_error_iff {δ : Type} {spell : δ → String}
    {es : List (Emission δ)} {f : Failure} :
    (outcome spell es).result = .error f ↔ es.findSome? failure? = some f := by
  unfold outcome
  cases es.findSome? failure? with
  | none => exact ⟨nofun, nofun⟩
  | some g => exact ⟨fun h => congrArg some (Except.error.inj h), fun h => by cases h; rfl⟩

/-- **Only Liquid refuses, and exactly what it has no words for.** EJS and Pug come to a template
for every tree and table. What a tree has to say is determined, and Liquid comes to a failure if and
only if it has no words for some of it; the failure is the one for the first of these in the order
of the output. So a source compiles for EJS if and only if it does for Pug, and it compiles for both
if it does for Liquid. -/
theorem generate_refuses (n : Node) (t : Table) (level : Nat) :
    (∃ text, (Engine.ejs.generate level n t).result = .ok text) ∧
    (∃ text, (Engine.pug.generate level n t).result = .ok text) ∧
    (∃ us, (∀ vs, Says t n.site vs ↔ vs = us) ∧
      ∀ f, (Engine.liquid.generate level n t).result = .error f ↔
        ∃ before u after, us = before ++ u :: after ∧ u.refusal? = some f ∧
          ∀ v ∈ before, v.refusal? = none) ∧
    ∀ (fs : Files) (o : Options) (source : String),
      (Compiles fs { o with engine := .ejs } source ↔
        Compiles fs { o with engine := .pug } source) ∧
      (Compiles fs { o with engine := .liquid } source →
        Compiles fs { o with engine := .ejs } source ∧
        Compiles fs { o with engine := .pug } source) := by
  refine ⟨Ejs.exists_generate level n t, Pug.exists_generate level n t, ?_, fun fs o source => ?_⟩
  · refine ⟨spokenAll (n.layout t), fun vs => says_iff (lays_site_iff.2 rfl), fun f => ?_⟩
    have hfirst := Liquid.findSome?_emitAll level (n.layout t)
    rw [← List.findSome?_eq_some_iff, ← hfirst]
    exact Emission.result_outcome_error_iff
  · -- Up to the engine, a compilation does the same for all of them.
    have compiles {e e' : Engine} (h : Compiles fs { o with engine := e } source)
        (he' : ∀ level n t, ∃ text, (e'.generate level n t).result = .ok text) :
        Compiles fs { o with engine := e' } source := by
      obtain ⟨l, l', hl, hl', -⟩ := compiles_iff.1 h
      exact compiles_iff.2 ⟨l, l', hl, hl', he' o.level l'.tree l'.table⟩
    exact ⟨⟨fun h => compiles h Pug.exists_generate, fun h => compiles h Ejs.exists_generate⟩,
      fun h => ⟨compiles h Ejs.exists_generate, compiles h Pug.exists_generate⟩⟩

/-- A call whose props and children both hold something that Liquid has no words for, and a source
that it compiles. -/
theorem generate_refuses_prop_first :
    let card : Component := ⟨{ name := "Card", props := [⟨"title", true⟩, ⟨"size", false⟩] },
      [.element "h1" [] [.interpolation ⟨"title"⟩], .interpolation ⟨"children"⟩], true, none⟩
    let n : Node := .element "Card"
      [⟨"size", .dynamic ⟨"f(x)"⟩, false⟩, ⟨"title", .dynamic ⟨"a + b"⟩, false⟩]
      [.interpolation ⟨"a ? b : c"⟩]
    let t : Table := { components := Dict.ofList [("Card", card)] }
    let source := "export default (\x7b a \x7d) => <p title=\x7ba\x7d>\x7b!a && 'none'\x7d</p>;"
    (∃ us before u after, Says t n.site us ∧ us = before ++ u :: after ∧
      u.refusal? = some (.unsupported "BinaryExpression" "+") ∧
      ∀ v ∈ before, v.refusal? = none) ∧
    Compiles {} { engine := .liquid } source ∧
    Compiles {} { engine := .ejs } source ∧ Compiles {} { engine := .pug } source := by
  intro card n t source
  obtain ⟨-, -, ⟨us, hus, hfirst⟩, hcompile⟩ := generate_refuses n t 0
  have herror : (Engine.liquid.generate 0 n t).result
      = .error (.unsupported "BinaryExpression" "+") := eq_error_of_refusal? (by decide +kernel)
  have hliquid : Compiles {} { engine := .liquid } source :=
    exists_ok_of_isSome (by decide +kernel)
  obtain ⟨before, u, after, heq, hu, hbefore⟩ := (hfirst _).1 herror
  obtain ⟨-, hboth⟩ := hcompile {} {} source
  obtain ⟨hejs, hpug⟩ := hboth hliquid
  exact ⟨⟨us, before, u, after, (hus us).2 rfl, heq, hu, hbefore⟩, hliquid, hejs, hpug⟩

end Stencil
