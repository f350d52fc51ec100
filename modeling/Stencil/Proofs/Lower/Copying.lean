import Stencil.Proofs.Lower.EarlyReturn

/-!
# What lowering copies

A template holds code: interpolations, tests, attribute values and iterables. Lowering does not make
up any of it. A code is the source text of an expression that lowering does not look into, or the
opposite of a test.

* `Node.codes` — the codes of a tree;
* `Copies` — the expressions of a script that lowering copies: whatever is not markup, a choice, a
  loop or nothing, and of those the attribute values, the left operands, the tests and the
  iterables. Markup in any other place of them is looked into, and copied from in turn;
* `Assembled` — how lowering puts nodes together out of such copies;
* `assembled_expr` — the lowered nodes are put together out of copied expressions, by induction on
  the script.

So the codes of lowered nodes are those of copies (`Assembled.exists_copy`).

`SourceCopies` gathers these copies over the component functions of a whole source.
-/

namespace Stencil

open Script (Expr Form Part Child Function Body Stmt)

/-! ### Codes -/

/-- The code that an attribute value is. -/
def AttributeValue.code? : AttributeValue → Option Code
  | .dynamic code => some code
  | _ => none

namespace Node

mutual

/-- The codes of a tree. -/
def codes : Node → List Code
  | .root cs | .fragment cs | .mixin _ cs => codesOfList cs
  | .element _ attributes cs => attributes.filterMap (·.value.code?) ++ codesOfList cs
  | .text _ => []
  | .interpolation code => [code]
  | .condition test consequent alternate =>
    test :: codesOfOption consequent ++ codesOfOption alternate
  | .iteration loop body => loop.iterable :: codesOfList body

def codesOfList : List Node → List Code
  | [] => []
  | n :: rest => n.codes ++ codesOfList rest

def codesOfOption : Option Node → List Code
  | none => []
  | some n => n.codes

end

/-- The codes of a list are those of its parts. -/
theorem codesOfList_append (as bs : List Node) :
    codesOfList (as ++ bs) = codesOfList as ++ codesOfList bs := by
  induction as with
  | nil => rfl
  | cons n as ih => rw [List.cons_append, codesOfList, codesOfList, ih, List.append_assoc]

/-- The codes of a single node. -/
theorem codesOfList_singleton (n : Node) : codesOfList [n] = n.codes := by
  rw [codesOfList, codesOfList, List.append_nil]

/-- A place for one node holds the codes of the siblings that are put there. -/
theorem codesOfOption_slotOf (ns : List Node) : codesOfOption (slotOf ns) = codesOfList ns := by
  match ns with
  | [] => rfl
  | [n] => exact (codesOfList_singleton n).symm
  | _ :: _ :: _ => rfl

end Node

namespace Lower

/-! ### Copied expressions -/

/-- An expression that lowering copies, as it is or as a test that has to fail. -/
inductive Copy where
  | verbatim (e : Expr)
  | opposite (test : Expr)

/-- The code that lowering makes of it. -/
def Copy.code : Copy → Code
  | .verbatim e => ⟨e.text⟩
  | .opposite test => negated test

/-- The test in front of a value: a null value is left out by the opposite test. -/
def Copy.ofTest (test value : Expr) : Copy :=
  if isNull value then .opposite test else .verbatim test

/-- What a call of `map` runs over, and the function that it calls. -/
def loop? : Form → Option (Expr × Function)
  | .call (.mk _ (.member object "map")) (.value (.mk _ (.arrow f)) :: _) => some (object, f)
  | .call (.mk _ (.member object "map")) (.value (.mk _ (.function f)) :: _) => some (object, f)
  | _ => none

/-- Lowering looks into the form instead of copying it. -/
def looksInto : Form → Bool
  | .paren _ | .null | .element _ _ _ | .fragment _ | .conditional _ _ _
  | .logical .and _ _ | .logical .or _ _ => true
  -- A call of `map` without a callback comes to nothing.
  | .call (.mk _ (.member _ "map")) [] => true
  | form => (loop? form).isSome

/-- The expressions that lowering an expression copies. -/
inductive Copies : Expr → Copy → Prop
  | value {text form} : looksInto form = false →
    Copies (.mk text form) (.verbatim (.mk text form))
  | paren {text inner c} : Copies inner c → Copies (.mk text (.paren inner)) c
  | attribute {text tag attributes cs name e} : isGrouping tag = false →
    .value name e ∈ attributes → isIgnored name = false →
    Copies (.mk text (.element tag attributes cs)) (.verbatim e)
  | child {text tag attributes cs e c} : .value e ∈ cs → Copies e c →
    Copies (.mk text (.element tag attributes cs)) c
  | grouped {text cs e c} : .value e ∈ cs → Copies e c → Copies (.mk text (.fragment cs)) c
  | left {text op left right} : op ≠ .coalesce →
    Copies (.mk text (.logical op left right)) (.verbatim left)
  | right {text op left right c} : op ≠ .coalesce → Copies right c →
    Copies (.mk text (.logical op left right)) c
  | test {text test consequent alternate} :
    Copies (.mk text (.conditional test consequent alternate)) (.ofTest test consequent)
  | consequent {text test consequent alternate c} : Copies consequent c →
    Copies (.mk text (.conditional test consequent alternate)) c
  | alternate {text test consequent alternate c} : Copies alternate c →
    Copies (.mk text (.conditional test consequent alternate)) c
  -- The tests and the values of a callback are copied where the loop stands.
  | iterable {text form object f} : loop? form = some (object, f) →
    Copies (.mk text form) (.verbatim object)
  | guard {text form object f rs r test} : loop? form = some (object, f) →
    returned? f = some rs → r ∈ rs → r.test = some test →
    Copies (.mk text form) (.ofTest test r.value)
  | returned {text form object f rs r c} : loop? form = some (object, f) →
    returned? f = some rs → r ∈ rs → Copies r.value c → Copies (.mk text form) c

/-- The expressions that returns copy: the tests in front of the values, and those that the values
copy. -/
def ReturnsCopy (rs : List Return) (c : Copy) : Prop :=
  ∃ r ∈ rs, (∃ test, r.test = some test ∧ c = .ofTest test r.value) ∨ Copies r.value c

/-- The expressions that lowering a function copies. -/
def FunctionCopies (f : Function) (c : Copy) : Prop :=
  ∃ rs, returned? f = some rs ∧ ReturnsCopy rs c

/-- A call of `map` copies what the function it calls copies. -/
theorem copies_of_loop {text : String} {form : Form} {object : Expr} {f : Function} {c : Copy}
    (hloop : loop? form = some (object, f)) (h : FunctionCopies f c) :
    Copies (.mk text form) c := by
  obtain ⟨rs, hrs, r, hr, ⟨test, htest, rfl⟩ | hc⟩ := h
  · exact .guard hloop hrs hr htest
  · exact .returned hloop hrs hr hc

/-! ### Lowered nodes -/

/-- **How lowering puts siblings together**, out of copies that `R` holds of. -/
inductive Assembled (R : Copy → Prop) : List Node → Prop
  | nil : Assembled R []
  | append {as bs : List Node} : Assembled R as → Assembled R bs → Assembled R (as ++ bs)
  /-- A text between tags, without its layout. -/
  | cleaned (raw : String) : Assembled R [.text (cleanText raw)]
  /-- A string literal that is an operand of a choice. -/
  | literal {text s : String} : R (.verbatim (.mk text (.string s))) → Assembled R [.text s]
  | interpolation {e : Expr} : R (.verbatim e) → Assembled R [.interpolation ⟨e.text⟩]
  | element (tag : String) {attributes : List Attribute} {cs : List Node} :
    (∀ code ∈ attributes.filterMap (·.value.code?), ∃ c, R c ∧ c.code = code) → Assembled R cs →
    Assembled R [.element tag attributes cs]
  | condition {c : Copy} {as bs : List Node} : R c → Assembled R as → Assembled R bs →
    Assembled R [.condition c.code (Node.slotOf as) (Node.slotOf bs)]
  | iteration {e : Expr} (params : List Script.Param) {body : List Node} : R (.verbatim e) →
    Assembled R body → Assembled R [.iteration (loopOf ⟨e.text⟩ params) body]

section Assembled

variable {R R' : Copy → Prop}

/-- Nodes put together out of copies are put together out of more copies. -/
theorem Assembled.mono (h : ∀ c, R c → R' c) {ns : List Node} (hns : Assembled R ns) :
    Assembled R' ns := by
  -- Along the way the siblings are put together, with each copy taken over to `R'`.
  induction hns with
  | nil => exact .nil
  | append _ _ iha ihb => exact iha.append ihb
  | cleaned raw => exact .cleaned raw
  | literal hc => exact .literal (h _ hc)
  | interpolation hc => exact .interpolation (h _ hc)
  | element tag hcodes _ ih =>
    refine .element tag (fun code hcode => ?_) ih
    obtain ⟨c, hc, rfl⟩ := hcodes code hcode
    exact ⟨c, h c hc, rfl⟩
  | condition hc _ _ iha ihb => exact .condition (h _ hc) iha ihb
  | iteration params hc _ ih => exact .iteration params (h _ hc) ih

/-- What is put together out of copies has no other codes. -/
theorem Assembled.exists_copy {ns : List Node} (h : Assembled R ns) :
    ∀ code ∈ Node.codesOfList ns, ∃ c, R c ∧ c.code = code := by
  -- A text has no code, and each of the other pieces brings that of its own copy.
  induction h with
  | nil | cleaned | literal => exact nofun
  | append _ _ iha ihb =>
    rw [Node.codesOfList_append, List.forall_mem_append]
    exact ⟨iha, ihb⟩
  | interpolation hc =>
    rw [Node.codesOfList_singleton, Node.codes, List.forall_mem_singleton]
    exact ⟨_, hc, rfl⟩
  | element tag hcodes _ ih =>
    rw [Node.codesOfList_singleton, Node.codes, List.forall_mem_append]
    exact ⟨hcodes, ih⟩
  | condition hc _ _ iha ihb =>
    rw [Node.codesOfList_singleton, Node.codes, Node.codesOfOption_slotOf,
      Node.codesOfOption_slotOf, List.cons_append, List.forall_mem_cons, List.forall_mem_append]
    exact ⟨⟨_, hc, rfl⟩, iha, ihb⟩
  | iteration params hc _ ih =>
    rw [Node.codesOfList_singleton, Node.codes, List.forall_mem_cons]
    exact ⟨⟨_, hc, rfl⟩, ih⟩

end Assembled

/-- Nested returns are put together out of their tests and of what their values copy. -/
theorem assembled_nest : ∀ rs : List Return, (∀ r ∈ rs, Assembled (Copies r.value) r.markup.nodes) →
    Assembled (ReturnsCopy rs) (nest rs).nodes
  | [], _ => .nil
  | r :: rest, h => by
    have hfirst : Assembled (ReturnsCopy (r :: rest)) r.markup.nodes :=
      (h r List.mem_cons_self).mono fun c hc => ⟨r, List.mem_cons_self, .inr hc⟩
    have hrest : Assembled (ReturnsCopy (r :: rest)) (nest rest).nodes :=
      (assembled_nest rest fun r hr => h r (List.mem_cons_of_mem _ hr)).mono
        fun c ⟨r, hr, hc⟩ => ⟨r, List.mem_cons_of_mem _ hr, hc⟩
    rw [nest]
    split
    · exact hfirst
    · next test htest =>
      have hguard : ReturnsCopy (r :: rest) (.ofTest test r.value) :=
        ⟨r, List.mem_cons_self, .inl ⟨test, htest, rfl⟩⟩
      -- A null value comes to nothing, so the rest stands under the opposite test.
      unfold Copy.ofTest at hguard
      by_cases hnull : isNull r.value = true
      · rw [if_pos hnull] at hguard ⊢
        exact .condition hguard hrest .nil
      · rw [if_neg hnull] at hguard ⊢
        exact .condition hguard hfirst hrest

/-- An attribute in the template holds the code of a value that it is lowered from. -/
theorem exists_value_of_attribute? {a : Script.Attribute} {b : Attribute} {code : Code}
    (h : attribute? a = some b) (hcode : b.value.code? = some code) :
    ∃ name e, a = .value name e ∧ isIgnored name = false ∧ code = ⟨e.text⟩ := by
  -- A spread is dropped, and a flag or a string is no code; only a value can be one.
  cases a with
  | flag name =>
    rw [attribute?] at h
    split at h
    · cases h
    · cases h
      cases hcode
  | string name value =>
    rw [attribute?] at h
    split at h
    · cases h
    · cases h
      cases hcode
  | value name e =>
    rw [attribute?] at h
    split at h
    · cases h
    · next hignored =>
      refine ⟨name, e, rfl, Bool.eq_false_iff.2 hignored, ?_⟩
      -- A constant value has become a flag or a literal.
      unfold valueAttribute? at h
      split at h
      · cases h
      · cases h
        cases hcode
      · cases h
        cases hcode
        rfl
  | spread e => cases h

/-- An element is put together out of its attributes and of what its children are. -/
theorem assembled_element {text tag : String} {attributes : List Script.Attribute}
    {cs : List Child} (htag : isGrouping tag = false) {ns : List Node}
    (hns : Assembled (Copies (.mk text (.element tag attributes cs))) ns) :
    Assembled (Copies (.mk text (.element tag attributes cs)))
      [.element tag (attributes.filterMap attribute?) ns] := by
  refine .element tag (fun code hcode => ?_) hns
  -- A code of the element is the value of one of its attributes.
  obtain ⟨b, hb, hcode⟩ := List.mem_filterMap.1 hcode
  obtain ⟨a, ha, hab⟩ := List.mem_filterMap.1 hb
  obtain ⟨name, e, rfl, hname, rfl⟩ := exists_value_of_attribute? hab hcode
  exact ⟨.verbatim e, .attribute htag ha hname, rfl⟩

/-- An expression that lowering does not look into is copied whole. -/
theorem assembled_value {text : String} {form : Form} (h : looksInto form = false) :
    Assembled (Copies (.mk text form)) [.interpolation ⟨text⟩] := by
  have hcopy : Copies (.mk text form) (.verbatim (.mk text form)) := .value h
  exact .interpolation hcopy

/-- A callee that is no `map` is not looked into. -/
theorem mapped?_cases (callee : Expr) :
    (∃ text object, callee = .mk text (.member object "map")) ∨
      mapped? callee = none ∧ ∀ arguments, looksInto (.call callee arguments) = false := by
  obtain ⟨text, form⟩ := callee
  -- A callee that is no member, or the member of another name, is no `map`.
  cases form with
  | member object property =>
    by_cases hmap : property = "map"
    · subst hmap
      exact .inl ⟨text, object, rfl⟩
    · refine .inr ⟨?_, fun arguments => ?_⟩
      · unfold mapped?
        split
        · next hform =>
          cases hform
          exact absurd rfl hmap
        · rfl
      · simp [looksInto, loop?, hmap]
  | _ => exact .inr ⟨rfl, fun arguments => rfl⟩

/-- A body of two statements or more has no sole return. -/
theorem soleReturn_cons_cons (operand : Bool) (s t : Stmt) (rest : List Stmt) :
    soleReturn operand (s :: t :: rest) = none := by
  rw [soleReturn]
  exact nofun

/-! One theorem for each function of lowering, by recursion on the script. -/

mutual

/-- An expression is lowered into copies of its own. -/
theorem assembled_expr (operand : Bool) : ∀ e : Expr, Assembled (Copies e) (expr operand e).nodes
  | .mk text form => assembled_forms operand text form
  termination_by structural e => e

/-- The case by case part of `assembled_expr`: each form says which of its parts are looked into. -/
theorem assembled_forms (operand : Bool) (text : String) :
    ∀ form : Form, Assembled (Copies (.mk text form)) (forms operand text form).nodes
  | .paren inner => (assembled_expr operand inner).mono fun _ => .paren
  | .null => .nil
  | .string s => by
    rw [forms]
    split
    · exact .literal (.value rfl)
    · exact assembled_value rfl
  | .element tag attributes cs => by
    have hchildren : Assembled (Copies (.mk text (.element tag attributes cs)))
        (children cs).nodes :=
      (assembled_children cs).mono fun c ⟨e, he, hc⟩ => .child he hc
    rw [forms]
    split
    · exact hchildren
    · next htag => exact assembled_element (Bool.eq_false_iff.2 htag) hchildren
  | .fragment cs => (assembled_children cs).mono fun c ⟨e, he, hc⟩ => .grouped he hc
  | .logical .and left right => by
    have hright : Assembled (Copies (.mk text (.logical .and left right)))
        (expr true right).nodes :=
      (assembled_expr true right).mono fun _ => .right nofun
    have hleft : Copies (.mk text (.logical .and left right)) (.verbatim left) := .left nofun
    exact .condition hleft hright .nil
  | .logical .or left right => by
    have hright : Assembled (Copies (.mk text (.logical .or left right))) (expr true right).nodes :=
      (assembled_expr true right).mono fun _ => .right nofun
    -- The left operand stands twice: as the test, and as what is shown where it holds.
    have hleft : Copies (.mk text (.logical .or left right)) (.verbatim left) := .left nofun
    exact .condition hleft (.interpolation hleft) hright
  | .logical .coalesce _ _ => assembled_value rfl
  | .conditional test consequent alternate => by
    have hconsequent : Assembled (Copies (.mk text (.conditional test consequent alternate)))
        (expr true consequent).nodes := (assembled_expr true consequent).mono fun _ => .consequent
    have halternate : Assembled (Copies (.mk text (.conditional test consequent alternate)))
        (expr true alternate).nodes := (assembled_expr true alternate).mono fun _ => .alternate
    have htest : Copies (.mk text (.conditional test consequent alternate))
        (.ofTest test consequent) := .test
    rw [forms]
    unfold Copy.ofTest at htest
    by_cases hnull : isNull consequent = true
    · rw [if_pos hnull] at htest ⊢
      exact .condition htest halternate .nil
    · rw [if_neg hnull] at htest ⊢
      exact .condition htest hconsequent halternate
  | .call callee arguments => by
    rcases mapped?_cases callee with ⟨calleeText, object, rfl⟩ | ⟨hmapped, hvalue⟩
    · exact assembled_mapCall text calleeText object arguments
    · rw [forms, hmapped]
      exact assembled_value (hvalue arguments)
  | .identifier _ => assembled_value rfl
  | .number _ => assembled_value rfl
  | .boolean _ => assembled_value rfl
  | .template _ _ => assembled_value rfl
  | .unary _ _ => assembled_value rfl
  | .binary _ _ _ => assembled_value rfl
  | .member _ _ => assembled_value rfl
  | .index _ _ => assembled_value rfl
  | .chain _ => assembled_value rfl
  | .object _ => assembled_value rfl
  | .assignment _ _ => assembled_value rfl
  | .function _ => assembled_value rfl
  | .arrow _ => assembled_value rfl
  | .other _ _ => assembled_value rfl
  termination_by structural form => form

/-- Children are lowered one after the other. -/
theorem assembled_children : ∀ cs : List Child,
    Assembled (fun c => ∃ e, .value e ∈ cs ∧ Copies e c) (children cs).nodes
  | [] => .nil
  | child :: rest => by
    rw [children]
    refine Assembled.append ?_ ?_
    · exact (assembled_child child).mono
        fun c ⟨e, he, hc⟩ => ⟨e, he ▸ List.mem_cons_self, hc⟩
    · exact (assembled_children rest).mono
        fun c ⟨e, he, hc⟩ => ⟨e, List.mem_cons_of_mem child he, hc⟩
  termination_by structural cs => cs

/-- A child is a text or an expression. -/
theorem assembled_child : ∀ child : Child,
    Assembled (fun c => ∃ e, .value e = child ∧ Copies e c) (Lower.child child).nodes
  | .text raw => by
    rw [Lower.child]
    split
    · exact .nil
    · exact .cleaned raw
  | .value e => (assembled_expr false e).mono fun c hc => ⟨e, rfl, hc⟩
  | .spread _ => .nil
  | .empty => .nil
  termination_by structural child => child

/-- A call of `map` is a loop if its first argument is a function in place, and copied otherwise. -/
theorem assembled_mapCall (text calleeText : String) (object : Expr) : ∀ arguments : List Part,
    Assembled (Copies (.mk text (.call (.mk calleeText (.member object "map")) arguments)))
      (mapCall ⟨object.text⟩ text arguments).nodes
  | [] => .nil
  | .value e :: rest => assembled_callback text calleeText object rest e
  | .spread _ :: _ => assembled_value rfl
  | .binding _ :: _ => assembled_value rfl
  | .statement _ :: _ => assembled_value rfl
  termination_by structural arguments => arguments

/-- The function that a call of `map` is given, behind its parentheses. -/
theorem assembled_callback (text calleeText : String) (object : Expr) (rest : List Part) :
    ∀ e : Expr,
      Assembled
        (Copies (.mk text (.call (.mk calleeText (.member object "map")) (.value e :: rest))))
        (callback ⟨object.text⟩ text e).nodes
  | .mk callbackText form => assembled_callbackForm text calleeText object rest callbackText form
  termination_by structural e => e

/-- A function is looked into; what is no function is interpolated with the call. -/
theorem assembled_callbackForm (text calleeText : String) (object : Expr) (rest : List Part)
    (callbackText : String) : ∀ form : Form,
      Assembled (Copies (.mk text (.call (.mk calleeText (.member object "map"))
        (.value (.mk callbackText form) :: rest)))) (callbackForm ⟨object.text⟩ text form).nodes
  | .arrow f =>
    .iteration f.params (.iterable rfl)
      ((assembled_callbackBody f).mono fun _ => copies_of_loop rfl)
  | .function f =>
    .iteration f.params (.iterable rfl)
      ((assembled_callbackBody f).mono fun _ => copies_of_loop rfl)
  -- What is no function is not looked into.
  | .identifier _ | .string _ | .number _ | .boolean _ | .null | .paren _ | .template _ _
  | .unary _ _ | .binary _ _ _ | .logical _ _ _ | .conditional _ _ _ | .member _ _ | .index _ _
  | .call _ _ | .chain _ | .object _ | .assignment _ _ | .element _ _ _ | .fragment _
  | .other _ _ => assembled_value rfl
  termination_by structural form => form

/-- The body of the function, under its returns. -/
theorem assembled_callbackBody : ∀ f : Function, Assembled (FunctionCopies f) (callbackBody f).nodes
  | .mk name params rest body => by
    have hnest := assembled_nest (returns body) (assembled_returns body)
    rw [callbackBody]
    -- A callback that returns no markup comes to nothing.
    split
    · next hany => exact hnest.mono fun c hc => ⟨returns body, if_pos hany, hc⟩
    · exact .nil
  termination_by structural f => f

/-- What a body returns is lowered into copies of what it returns. -/
theorem assembled_returns :
    ∀ body : Body, ∀ r ∈ returns body, Assembled (Copies r.value) r.markup.nodes
  | .value e, r, hr => by
    cases List.mem_singleton.1 hr
    exact assembled_expr false e
  | .block statements, r, hr => assembled_blockReturns statements r hr
  termination_by structural body => body

/-- The returns of a block, statement by statement. -/
theorem assembled_blockReturns : ∀ statements : List Stmt, ∀ r ∈ blockReturns statements,
    Assembled (Copies r.value) r.markup.nodes
  | [], r, hr => nomatch hr
  | s :: rest, r, hr => by
    rcases mem_blockReturns_cons hr with hr | hr
    · exact assembled_chainReturns s r hr
    · exact assembled_blockReturns rest r hr
  termination_by structural statements => statements

/-- The returns of a chain of branches. -/
theorem assembled_chainReturns : ∀ s : Stmt, ∀ r ∈ (chainReturns s).1,
    Assembled (Copies r.value) r.markup.nodes
  | .ret (some e), r, hr => by
    cases List.mem_singleton.1 hr
    exact assembled_expr false e
  | .block statements, r, hr => by
    obtain ⟨value, markup, hsole, rfl⟩ := mem_chainReturns_block hr
    exact assembled_soleReturn false statements value markup hsole
  -- The first return is the guarded one, the others stand behind `else`.
  | .branch test consequent alternate, r, hr => by
    obtain ⟨value, markup, hguarded, rfl | hr⟩ := mem_chainReturns_branch hr
    · exact assembled_guardedReturn consequent value markup hguarded
    · exact assembled_alternateReturns alternate r hr
  | .ret none, _, hr | .expression _, _, hr | .declaration _ _, _, hr | .function _, _, hr
  | .other _, _, hr => nomatch hr
  termination_by structural s => s

/-- The returns of what stands behind `else`. -/
theorem assembled_alternateReturns : ∀ s : Option Stmt, ∀ r ∈ (alternateReturns s).1,
    Assembled (Copies r.value) r.markup.nodes
  | none, _, hr => nomatch hr
  | some s, r, hr => assembled_chainReturns s r hr
  termination_by structural s => s

/-- A branch whose only statement is a return. -/
theorem assembled_guardedReturn : ∀ (s : Stmt) (value : Expr) (markup : Markup),
    guardedReturn s = some (value, markup) → Assembled (Copies value) markup.nodes
  | .ret (some e), value, markup, h => by
    cases h
    exact assembled_expr true e
  | .block statements, value, markup, h => assembled_soleReturn true statements value markup h
  | .ret none, _, _, h | .branch _ _ _, _, _, h | .expression _, _, _, h | .declaration _ _, _, _, h
  | .function _, _, _, h | .other _, _, _, h => nomatch h
  termination_by structural s => s

/-- A block that is a return and nothing else. -/
theorem assembled_soleReturn (operand : Bool) : ∀ (statements : List Stmt) (value : Expr)
    (markup : Markup), soleReturn operand statements = some (value, markup) →
      Assembled (Copies value) markup.nodes
  | [.ret (some e)], value, markup, h => by
    cases h
    exact assembled_expr operand e
  | [], _, _, h | [.ret none], _, _, h | [.branch _ _ _], _, _, h | [.block _], _, _, h
  | [.expression _], _, _, h | [.declaration _ _], _, _, h | [.function _], _, _, h
  | [.other _], _, _, h => nomatch h
  | s :: t :: rest, _, _, h => nomatch (soleReturn_cons_cons operand s t rest).symm.trans h
  termination_by structural statements => statements

end

/-! ### Modules -/

/-- The returns of a function, nested into conditions, are put together out of what the function
copies. -/
theorem assembled_function {f : Function} {rs : List Return} (h : returned? f = some rs) :
    Assembled (FunctionCopies f) (nest rs).nodes := by
  have hreturns : ∀ r ∈ rs, Assembled (Copies r.value) r.markup.nodes := by
    rw [eq_of_returned? h]
    exact assembled_returns f.body
  exact (assembled_nest rs hreturns).mono fun c hc => ⟨rs, h, hc⟩

namespace Harvest

/-- The candidates carry what their functions return. -/
def Reads (h : Harvest) : Prop :=
  ∀ k ∈ h.candidates, returned? k.function = some k.returns

/-- A candidate keeps what its function returns. -/
theorem returned?_of_candidate? {name : String} {isDefault : Bool} {f : Function} {k : Candidate}
    (h : candidate? name isDefault f = some k) : returned? k.function = some k.returns := by
  obtain ⟨rs, hrs, rfl⟩ := Option.map_eq_some_iff.1 h
  exact hrs

/-- So does a candidate whose name had to be one of a component. -/
theorem returned?_of_component? {name : String} {isDefault : Bool} {f : Function} {k : Candidate}
    (h : component? name isDefault f = some k) : returned? k.function = some k.returns := by
  unfold component? at h
  split at h
  · exact returned?_of_candidate? h
  · cases h

variable {h : Harvest}

/-- Adding a candidate that keeps what its function returns. -/
theorem Reads.addCandidate (hreads : h.Reads) {c : Option Candidate}
    (hc : ∀ k, c = some k → returned? k.function = some k.returns) :
    (h.addCandidate c).Reads := by
  intro k hk
  rcases List.mem_append.1 hk with hk | hk
  · exact hreads k hk
  · exact hc k (Option.mem_toList.1 hk)

/-- A fold keeps what each of its steps keeps. -/
theorem Reads.foldl {α : Type} {step : Harvest → α → Harvest}
    (hstep : ∀ h a, h.Reads → (step h a).Reads) (as : List α) (hreads : h.Reads) :
    (as.foldl step h).Reads := by
  induction as generalizing h with
  | nil => exact hreads
  | cons a as ih => exact ih (hstep h a hreads)

/-- Imports are no candidates. -/
theorem reads_addImport (file : Option Path) (source : String) (h : Harvest)
    (name : Script.ImportName) (hreads : h.Reads) : (h.addImport file source name).Reads := by
  cases name <;> exact hreads

/-- A variable may hold a function, and is a candidate then. -/
theorem reads_addVariable (kind : Script.DeclarationKind) (h : Harvest) (d : Script.Declarator)
    (hreads : h.Reads) : (h.addVariable kind d).Reads := by
  unfold addVariable
  split
  -- Of the declared values, functions can be components and others constants.
  · split
    · exact hreads.addCandidate fun k => returned?_of_component?
    · exact hreads.addCandidate fun k => returned?_of_component?
    · split
      · unfold addConstant
        split
        · exact hreads
        · exact hreads
      · exact hreads
  · exact hreads

/-- A declaration adds its variables, or its function. -/
theorem reads_addDeclaration (h : Harvest) (s : Stmt) (hreads : h.Reads) :
    (h.addDeclaration s).Reads := by
  unfold addDeclaration
  split
  · exact hreads.foldl (reads_addVariable _) _
  · refine hreads.addCandidate fun k hk => ?_
    obtain ⟨name, -, hk⟩ := Option.bind_eq_some_iff.1 hk
    exact returned?_of_component? hk
  · exact hreads

/-- Prop types are no candidates. -/
theorem reads_addPropTypes (h : Harvest) (e : Expr) (hreads : h.Reads) :
    (h.addPropTypes e).Reads := by
  unfold addPropTypes
  split
  · split
    · exact hreads
    · exact hreads
  · exact hreads

/-- A default export may be a function. -/
theorem reads_addDefault (file : Option Path) (h : Harvest) (e : Expr) (hreads : h.Reads) :
    (h.addDefault file e).Reads := by
  unfold addDefault
  split
  · exact hreads.addCandidate fun k => returned?_of_candidate?
  · exact hreads
  · exact hreads

/-- One step of the first pass. -/
theorem reads_add (file : Option Path) (h : Harvest) (item : Script.Item) (hreads : h.Reads) :
    (h.add file item).Reads := by
  unfold add
  -- One case for each kind of item that is harvested.
  split
  · exact hreads.foldl (reads_addImport file _) _
  · exact reads_addPropTypes h _ hreads
  · exact reads_addDeclaration h _ hreads
  · exact reads_addDeclaration h _ hreads
  · exact hreads.addCandidate fun k => returned?_of_component?
  · exact reads_addDefault file h _ hreads
  · exact hreads

end Harvest

/-- The whole first pass, by induction on the items of the module. -/
theorem reads_harvest (file : Option Path) (m : Script.Module) : (harvest file m).Reads :=
  Harvest.Reads.foldl (Harvest.reads_add file) m nofun

end Lower

/-- The expressions that lowering the source of a module copies, from the functions of its
components. -/
def SourceCopies (file : Option Path) (source : String) (c : Lower.Copy) : Prop :=
  ∃ m, Script.Module.parse? source = some m ∧
    ∃ k ∈ (Lower.harvest file m).candidates, Lower.FunctionCopies k.function c

end Stencil
