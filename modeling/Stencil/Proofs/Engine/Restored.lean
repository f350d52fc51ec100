import Stencil.Proofs.Engine.Block
import Stencil.Proofs.Engine.Pass
import Stencil.Proofs.Layout.Copy

/-!
# The stacks of a pass

The walk through a tree changes its stacks all the time: slots take children off and put them back,
calls put tags, children and closing lines on, and a failure can stop either halfway. This module
shows that whoever starts a walk finds the stacks as they were.

* `Manner.Spells` — a manner writes what an engine gives off, construct by construct;
* `Manner.leave_eq` — a call takes off again what it put on the stacks, whatever its body comes to;
* `gives_of_lays` — from every state, a walk writes what the engine gives off for the layout of the
  siblings in this state;
* `renderAll_copied` — a slot stands for the children of the call whose body it is written in.

The proof follows the derivation of the layout (`Lays`), which every site has, so walks come back.
In EJS, the closing line of a scope would stay behind if the body of the scope failed; but EJS has
words for everything (`Manner.Spells.closing`).

The main theorem is `render_restores`.
-/

namespace Stencil

/-! ### The manners of the engines -/

/-- The lines that close a scope with these bindings. -/
def Manner.ending (m : Manner) (level : Nat) (bindings : List Binding) : List (Emission String) :=
  (m.closing.bind (· bindings)).toList.map (.line level)

/-- **The manner writes what the engine gives off**, construct by construct: where a walk through
the parts of a construct writes what the engine gives off for their pieces, the steps of the
construct write what it gives off for the whole. -/
structure Manner.Spells (m : Manner) (e : Engine) (t : Table) : Prop where
  element : ∀ {stack slots cs ps} (level : Nat) (tag : String) (attributes : List Attribute),
    (∀ level, Gives stack slots (m.renderAll t level · cs) (e.emissions level ps)) →
    Gives stack slots (m.follow t · (m.element level tag attributes cs))
      (e.emissions level [.element ⟨tag, attributes, cs.isEmpty, false⟩ ps])
  text : ∀ level value, e.emissions level [.text value] = [m.text level value]
  interpolation : ∀ level code,
    e.emissions level [.interpolation code] = [m.interpolation level code]
  condition : ∀ {stack slots yes no ps qs} (level : Nat) (test : Code),
    (∀ level, Gives stack slots (m.renderAll t level · yes.toList) (e.emissions level ps)) →
    (∀ level, Gives stack slots (m.renderAll t level · no.toList) (e.emissions level qs)) →
    Gives stack slots (m.follow t · (m.condition level test yes no))
      (e.emissions level [.condition test (yes.map fun _ => ps) (no.map fun _ => qs)])
  iteration : ∀ {stack slots body ps} (level : Nat) (loop : Loop),
    (∀ level, Gives stack slots (m.renderAll t level · body) (e.emissions level ps)) →
    Gives stack slots (m.follow t · (m.iteration level loop body))
      (e.emissions level [.iteration loop ps])
  scope : ∀ level bindings ps, e.emissions level [.scope bindings ps] =
    m.opening level bindings ++ (e.emissions (m.bodyLevel level bindings) ps
      ++ m.ending level bindings)
  /-- A manner that keeps closing lines has words for everything. -/
  closing : m.closing.isSome = true → ∀ level ps, Emission.Succeeds (e.emissions level ps)

/-- Pieces side by side are emitted one after the other. -/
theorem Engine.emissions_append (e : Engine) (level : Nat) (ps qs : List Piece) :
    e.emissions level (ps ++ qs) = e.emissions level ps ++ e.emissions level qs := by
  cases e with
  | ejs => rw [emissions, Ejs.emitAll_append, List.map_append]; rfl
  | pug => rw [emissions, Pug.emitAll_append, List.map_append]; rfl
  | liquid => rw [emissions, Liquid.emitAll_append, List.map_append]; rfl

/-- The first piece comes first. -/
theorem Engine.emissions_cons (e : Engine) (level : Nat) (p : Piece) (ps : List Piece) :
    e.emissions level (p :: ps) = e.emissions level [p] ++ e.emissions level ps :=
  e.emissions_append level [p] ps

/-- An element inside the component that it names is written like any other, with a warning. -/
theorem Engine.emissions_recursive (e : Engine) (level : Nat) (tag : String)
    (attributes : List Attribute) (isEmpty : Bool) (ps : List Piece) :
    e.emissions level [.element ⟨tag, attributes, isEmpty, true⟩ ps] =
      .warning (.recursiveUse tag)
        :: e.emissions level [.element ⟨tag, attributes, isEmpty, false⟩ ps] := by
  cases e <;> rfl

namespace Ejs

open Engine (emissions)

/-- An element, in the three ways an EJS line may open it. -/
theorem emissions_element (level : Nat) (tag : String) (attributes : List Attribute)
    (isEmpty : Bool) (ps : List Piece) :
    emissions .ejs level [.element ⟨tag, attributes, isEmpty, false⟩ ps] =
      if isVoid tag then [.line level (Directive.voidTag tag attributes).spell]
      else if isEmpty then [.line level (Directive.emptyTag tag attributes).spell]
      else .line level (Directive.startTag tag attributes).spell ::
        (emissions .ejs (level + 1) ps ++ [.line level (Directive.endTag tag).spell]) := by
  cases isEmpty <;> by_cases hvoid : isVoid tag = true <;>
    simp [emissions, emitAll, emit, Head.warnings, Emission.map, hvoid]

/-- A condition; a pass asks which branches there are before it walks through them. -/
theorem emissions_condition (level : Nat) (test : Code) (yes no : Option Node)
    (ps qs : List Piece) :
    emissions .ejs level [.condition test (yes.map fun _ => ps) (no.map fun _ => qs)] =
      .line level (Directive.startIf test).spell ::
        ((yes.elim [] fun _ => emissions .ejs (level + 1) ps) ++
          ((no.elim [] fun _ => .line level Directive.otherwise.spell ::
            emissions .ejs (level + 1) qs) ++ [.line level Directive.endIf.spell])) := by
  cases yes <;> cases no <;>
    simp [emissions, emitAll, emit, emitConsequent, emitAlternate, Emission.map]

/-- A loop. -/
theorem emissions_iteration (level : Nat) (loop : Loop) (ps : List Piece) :
    emissions .ejs level [.iteration loop ps] =
      .line level (Directive.startEach loop).spell ::
        (emissions .ejs (level + 1) ps ++ [.line level Directive.endEach.spell]) := by
  simp [emissions, emitAll, emit, Emission.map]

/-- The EJS pass spells each construct as the emissions do. -/
theorem spells (t : Table) : manner.Spells .ejs t where
  element level tag attributes h := by
    rw [emissions_element]
    change Gives _ _ (manner.follow t · (elementSteps level tag attributes _)) _
    -- An element is written in three ways, of which the last one walks through the children.
    unfold elementSteps
    split
    · exact Gives.steps_nil.emission _
    · split
      · exact Gives.steps_nil.emission _
      · exact ((h _).nodes (Gives.steps_nil.emission _)).emission _
  text _ _ := rfl
  interpolation _ _ := rfl
  condition level test hyes hno := by
    rw [emissions_condition]
    exact ((Gives.consequent (hyes _)).nodes
      ((hno _).alternative _ (Gives.steps_nil.emission _))).emission _
  iteration level loop h := by
    rw [emissions_iteration]
    exact ((h _).nodes (Gives.steps_nil.emission _)).emission _
  scope level bindings ps := by
    cases bindings <;> simp [emissions, emitAll, emit, manner, Manner.ending, Emission.map]
  closing _ level ps :=
    List.forall_mem_map.2 fun e he =>
      (Emission.failure?_map _ e).trans (succeeds_emitAll level ps e he)

end Ejs

namespace Pug

open Engine (emissions)

/-- An element of Pug has no closing line. -/
theorem emissions_element (level : Nat) (tag : String) (attributes : List Attribute)
    (isEmpty : Bool) (ps : List Piece) :
    emissions .pug level [.element ⟨tag, attributes, isEmpty, false⟩ ps] =
      .line level (Directive.tag tag attributes).spell ::
        (emissions .pug (level + 1) ps ++ []) := by
  simp [emissions, emitAll, emit, Head.warnings, Emission.map]

/-- A condition with its second branch only is turned around. -/
theorem emissions_unless (level : Nat) (test : Code) (qs : List Piece) :
    emissions .pug level [.condition test none (some qs)] =
      .line level (Directive.startUnless test).spell :: (emissions .pug (level + 1) qs ++ []) := by
  simp [emissions, emitAll, emit, Emission.map]

/-- A condition with its first branch. -/
theorem emissions_condition (level : Nat) (test : Code) (yes no : Option Node) (ps qs : List Piece)
    (h : yes = none → no = none) :
    emissions .pug level [.condition test (yes.map fun _ => ps) (no.map fun _ => qs)] =
      .line level (Directive.startIf test).spell ::
        ((yes.elim [] fun _ => emissions .pug (level + 1) ps) ++
          no.elim [] fun _ => .line level Directive.otherwise.spell ::
            emissions .pug (level + 1) qs) := by
  cases yes <;> cases no <;>
    simp_all [emissions, emitAll, emit, emitConsequent, emitAlternate, Emission.map]

/-- A loop. -/
theorem emissions_iteration (level : Nat) (loop : Loop) (ps : List Piece) :
    emissions .pug level [.iteration loop ps] =
      (startLoop loop).map (fun d => .line level d.spell) ++
        (emissions .pug (level + 1) ps ++ []) := by
  simp [emissions, emitAll, emit, Emission.map]

/-- The Pug pass spells each construct as the emissions do. -/
theorem spells (t : Table) : manner.Spells .pug t where
  element level tag attributes h := by
    rw [emissions_element]
    exact ((h _).nodes .steps_nil).emission _
  text _ _ := rfl
  interpolation _ _ := rfl
  condition {_ _ yes no ps qs} level test hyes hno := by
    -- Pug turns the test around if the consequent is missing and there is an alternate.
    match yes, no with
    | none, some alternate =>
      rw [Option.map_none, Option.map_some, emissions_unless]
      exact ((hno _).nodes .steps_nil).emission _
    | none, none =>
      rw [emissions_condition level test none none ps qs fun _ => rfl]
      exact (Gives.siblings_nil.nodes .steps_nil).emission _
    | some consequent, no =>
      rw [emissions_condition level test (some consequent) no ps qs nofun]
      have halternative := (hno (level + 1)).alternative Directive.otherwise.spell .steps_nil
      rw [List.append_nil, List.append_nil] at halternative
      exact ((hyes _).nodes halternative).emission _
  iteration level loop h := by
    rw [emissions_iteration]
    exact .emissions _ _ ((h _).nodes .steps_nil)
  scope level bindings ps := by
    simp [emissions, emitAll, emit, manner, Manner.ending, Emission.map]
  closing h := by cases h

end Pug

namespace Liquid

open Engine (emissions)

/-- An element of Liquid, or the failure to translate one of its attributes. -/
theorem emissions_element (level : Nat) (tag : String) (attributes : List Attribute)
    (isEmpty : Bool) (ps : List Piece) :
    emissions .liquid level [.element ⟨tag, attributes, isEmpty, false⟩ ps] =
      match slots attributes with
      | .error cause => [.failure cause]
      | .ok attributes =>
        if isVoid tag then [.line level (Directive.voidTag tag attributes).spell]
        else if isEmpty then [.line level (Directive.emptyTag tag attributes).spell]
        else .line level (Directive.startTag tag attributes).spell ::
          (emissions .liquid (level + 1) ps ++ [.line level (Directive.endTag tag).spell]) := by
  -- With words for all attributes the tag is one of the three kinds, or else there is only the
  -- failure.
  cases hslots : slots attributes with
  | error cause => simp [emissions, emitAll, emit, Head.warnings, Emission.map, hslots]
  | ok attributes =>
    cases isEmpty <;> by_cases hvoid : isVoid tag = true <;>
      simp [emissions, emitAll, emit, Head.warnings, Emission.map, hvoid, hslots]

/-- A condition whose test is refused emits the failure alone. -/
theorem emissions_test_error {test : Code} {cause : Failure} (h : testOf test = .error cause)
    (level : Nat) (ps qs : Option (List Piece)) :
    emissions .liquid level [.condition test ps qs] = [.failure cause] := by
  cases ps <;> cases qs <;> simp [emissions, emitAll, emit, emitTest, Emission.map, h]

/-- A condition with its second branch only is turned around. -/
theorem emissions_unless {test : Code} {words : Test} (h : testOf test = .ok words) (level : Nat)
    (qs : List Piece) :
    emissions .liquid level [.condition test none (some qs)] =
      .line level (Directive.startIf { words with negated := !words.negated }).spell ::
        (emissions .liquid (level + 1) qs ++
          [.line level (Directive.endIf !words.negated).spell]) := by
  simp [emissions, emitAll, emit, emitTest, Emission.map, h]

/-- A condition with its first branch. -/
theorem emissions_condition {test : Code} {words : Test} (h : testOf test = .ok words) (level : Nat)
    (yes no : Option Node) (ps qs : List Piece) (hsome : yes = none → no = none) :
    emissions .liquid level [.condition test (yes.map fun _ => ps) (no.map fun _ => qs)] =
      .line level (Directive.startIf words).spell ::
        ((yes.elim [] fun _ => emissions .liquid (level + 1) ps) ++
          ((no.elim [] fun _ => .line level Directive.otherwise.spell ::
            emissions .liquid (level + 1) qs) ++
              [.line level (Directive.endIf words.negated).spell])) := by
  cases yes <;> cases no <;>
    simp_all [emissions, emitAll, emit, emitTest, emitConsequent, emitAlternate, Emission.map]

/-- A loop, or the failure to translate what it goes over. -/
theorem emissions_iteration (level : Nat) (loop : Loop) (ps : List Piece) :
    emissions .liquid level [.iteration loop ps] =
      match loop.iterable.liquid with
      | .error cause => [.failure cause]
      | .ok iterable =>
        (startLoop loop iterable).map (fun d => .line level d.spell) ++
          ((loopIndex loop).map (fun d => .line (level + 1) d.spell) ++
            (emissions .liquid (level + 1) ps ++ [.line level Directive.endFor.spell])) := by
  cases hiterable : loop.iterable.liquid with
  | error cause => simp [emissions, emitAll, emit, Emission.map, hiterable]
  | ok iterable => simp [emissions, emitAll, emit, Emission.map, hiterable, Function.comp_def]

/-- The Liquid pass spells each construct as the emissions do, failures included. -/
theorem spells (t : Table) : manner.Spells .liquid t where
  element level tag attributes h := by
    rw [emissions_element]
    change Gives _ _ (manner.follow t · (elementSteps level tag attributes _)) _
    unfold elementSteps
    -- Attributes without words stop the walk where the engine gives off a failure.
    cases slots attributes with
    | error cause => exact .failure cause _ _
    | ok attributes =>
      dsimp only
      split
      · exact Gives.steps_nil.emission _
      · split
        · exact Gives.steps_nil.emission _
        · exact ((h _).nodes (Gives.steps_nil.emission _)).emission _
  text _ _ := rfl
  interpolation _ _ := rfl
  condition {_ _ yes no ps qs} level test hyes hno := by
    change Gives _ _ (manner.follow t · (conditionSteps level test yes no)) _
    unfold conditionSteps
    -- So does a test without words; the branches are then as in the other engines.
    cases htest : testOf test with
    | error cause =>
      rw [emissions_test_error htest]
      exact .failure cause _ _
    | ok words =>
      dsimp only
      match yes, no with
      | none, some alternate =>
        rw [Option.map_none, Option.map_some, emissions_unless htest]
        exact ((hno _).nodes (Gives.steps_nil.emission _)).emission _
      | none, none =>
        rw [emissions_condition htest level none none ps qs fun _ => rfl]
        exact (Gives.siblings_nil.nodes (Gives.steps_nil.emission _)).emission _
      | some consequent, no =>
        rw [emissions_condition htest level (some consequent) no ps qs nofun]
        exact ((hyes _).nodes
          ((hno _).alternative _ (Gives.steps_nil.emission _))).emission _
  iteration level loop h := by
    rw [emissions_iteration]
    change Gives _ _ (manner.follow t · (iterationSteps level loop _)) _
    unfold iterationSteps
    -- And what the loop runs over.
    cases loop.iterable.liquid with
    | error cause => exact .failure cause _ _
    | ok iterable =>
      exact .emissions _ _ (.emissions _ _ ((h _).nodes (Gives.steps_nil.emission _)))
  scope level bindings ps := by
    simp [emissions, emitAll, emit, manner, Manner.ending]
  closing h := by cases h

end Liquid

/-- Every engine's pass spells as its emissions do. -/
theorem Engine.spells (e : Engine) (t : Table) : e.manner.Spells e t := by
  cases e with
  | ejs => exact Ejs.spells t
  | pug => exact Pug.spells t
  | liquid => exact Liquid.spells t

/-! ### The walk and the layout -/

namespace Manner

variable {m : Manner}

/-- Opening a scope only remembers how to close it. -/
theorem openScope_eq (bindings : List Binding) (p : Pass) :
    m.openScope bindings p = { p with closings := (m.openScope bindings p).closings } := by
  unfold openScope
  split <;> rfl

/-- Closing the scope that was opened last writes its closing line, and the others stay open. -/
theorem closeScope_eq (level : Nat) (bindings : List Binding) (p : Pass) {q : Pass}
    (h : q.closings = (m.openScope bindings p).closings) :
    m.closeScope level q =
      ({ q with closings := p.closings } : Pass).takeAll (m.ending level bindings) := by
  unfold openScope at h
  unfold closeScope ending
  -- A manner without closing lines keeps none, so the scopes that are open are the same.
  cases hclosing : m.closing with
  | none =>
    rw [hclosing] at h
    dsimp only at h ⊢
    rw [← h]
    rfl
  | some closing =>
    rw [hclosing] at h
    dsimp only at h ⊢
    rw [h, Option.bind_some]
    cases closing bindings with
    | none => rfl
    | some s => rfl

/-- Behind the body of a component the call is off the stacks again, whatever the body came to, and
so is the closing line if the body did not fail. -/
theorem leave_eq (level : Nat) (bindings : List Binding) (p : Pass) (es : List (Emission String))
    (hok : m.closing.isSome = true → (p.takeAll es).1 = .ok ()) :
    (let q : Pass := { (p.takeAll es).2 with
      stack := p.stack, slots := p.slots, closings := (m.openScope bindings p).closings }
    match (p.takeAll es).1 with
    | .error cause => some (.error cause, q)
    | .ok () => some (m.closeScope level q))
      = some (p.takeAll (es ++ m.ending level bindings)) := by
  obtain ⟨hstack, hslots, hclosings⟩ := p.takeAll_keeps es
  rw [Pass.takeAll_append]
  generalize p.takeAll es = result at *
  obtain ⟨r, q⟩ := result
  dsimp only at hstack hslots hclosings hok ⊢
  have hback : ({ q with stack := p.stack, slots := p.slots, closings := p.closings } : Pass)
      = q := by
    rw [← hstack, ← hslots, ← hclosings]
  cases r with
  | ok =>
    refine congrArg some ((closeScope_eq level bindings p (by rfl)).trans ?_)
    dsimp only
    rw [hback]
  | error cause =>
    -- Only a manner without closing lines comes here.
    have hnone : (m.openScope bindings p).closings = p.closings := by
      unfold openScope
      cases hclosing : m.closing with
      | none => rfl
      | some closing => cases hok (by rw [hclosing]; rfl)
    dsimp only
    rw [hnone, hback]

end Manner

section

variable {m : Manner} {e : Engine} {t : Table}

/-- **A call writes its scope**, and changes nothing else. -/
theorem Gives.inline (hm : m.Spells e t) {stack : List String} {slots : List (List Node)}
    {tag : String} {cs : List Node} {c : Component} {ps : List Piece} (level : Nat)
    (attributes : List Attribute)
    (hbody : ∀ level, Gives (tag :: stack) (cs :: slots) (m.renderAll t level · c.body)
      (e.emissions level ps)) :
    Gives stack slots (m.inline t level · c tag attributes cs)
      (e.emissions level [.scope (c.signature.bind attributes) ps]) := by
  intro p hstack hslots
  dsimp only
  rw [hm.scope, Pass.takeAll_append, Manner.inline]
  dsimp only
  generalize c.signature.bind attributes = bindings
  obtain ⟨hkeeps, hkeeps', -⟩ := p.takeAll_keeps (m.opening level bindings)
  match hopening : p.takeAll (m.opening level bindings) with
  | (.error cause, q) => rfl
  | (.ok (), q) =>
    rw [hopening] at hkeeps hkeeps'
    have hstack' : q.stack = stack := hkeeps.trans hstack
    have hslots' : q.slots = slots := hkeeps'.trans hslots
    subst hstack' hslots'
    -- The body is written on the state with the call, which differs in the stacks only.
    have hrun := hbody (m.bodyLevel level bindings) { q with
      stack := tag :: q.stack, slots := cs :: q.slots,
      closings := (m.openScope bindings q).closings } rfl rfl
    rw [Pass.takeAll_with] at hrun
    dsimp only at hrun
    dsimp only
    rw [Manner.openScope_eq]
    dsimp only
    rw [hrun, Option.bind_eq_bind, Option.bind_some]
    exact m.leave_eq level bindings q _ fun hclosing => q.takeAll_ok (hm.closing hclosing _ ps)

end

/-- **A walk writes what the engine gives off for the layout.** -/
theorem gives_of_lays (e : Engine) {t : Table} {s : Site} {ps : List Piece} (h : Lays t s ps)
    (level : Nat) :
    Gives s.stack s.slots (e.manner.renderAll t level · s.nodes) (e.emissions level ps) := by
  have hm := e.spells t
  -- By induction on the layout, each node in front of its siblings: what is written for the node is
  -- written first.
  induction h generalizing level with
  | nil =>
    have hnil : e.emissions level [] = [] := by cases e <;> rfl
    rw [hnil]
    exact .siblings_nil
  | root _ _ ihcs ihns =>
    rw [e.emissions_append]
    exact .siblings_cons (ihcs level).root (ihns level)
  | fragment _ _ ihcs ihns =>
    rw [e.emissions_append]
    exact .siblings_cons (ihcs level).fragment (ihns level)
  | mixin _ _ ihcs ihns =>
    rw [e.emissions_append]
    exact .siblings_cons (ihcs level).mixin (ihns level)
  | plain hresolve _ _ ihcs ihns =>
    rw [e.emissions_cons]
    exact .siblings_cons (.plain hresolve (hm.element level _ _ ihcs)) (ihns level)
  | recursive hresolve hmem _ _ ihcs ihns =>
    rw [e.emissions_cons, e.emissions_recursive]
    exact .siblings_cons (.recursive hresolve hmem (hm.element level _ _ ihcs)) (ihns level)
  | inlined hresolve hnot _ _ ihbody ihns =>
    rw [e.emissions_cons]
    exact .siblings_cons (.call hresolve hnot (.inline hm level _ ihbody)) (ihns level)
  | emptyText _ ihns => exact .siblings_cons .emptyText (ihns level)
  | text hne _ ihns =>
    rw [e.emissions_cons, hm.text]
    exact .siblings_cons (.text hne) (ihns level)
  | slot hslot _ _ ihslot ihns =>
    rw [e.emissions_append]
    exact .siblings_cons (.slot hslot (ihslot level)) (ihns level)
  | interpolation hplain _ ihns =>
    rw [e.emissions_cons, hm.interpolation]
    exact .siblings_cons (.interpolation hplain) (ihns level)
  | condition _ _ _ ihyes ihno ihns =>
    rw [e.emissions_cons]
    exact .siblings_cons (.condition (hm.condition level _ ihyes ihno)) (ihns level)
  | iteration _ _ ihbody ihns =>
    rw [e.emissions_cons]
    exact .siblings_cons (.iteration (hm.iteration level _ ihbody)) (ihns level)

/-! ### The stacks -/

/-- The walk from this state comes back. The calls that are going on are those from before, and so
are the scopes that are open, unless it stopped at a failure. -/
def Pass.Restored (p : Pass) (run : Option (Except Failure Unit × Pass)) : Prop :=
  ∃ r q, run = some (r, q) ∧ q.stack = p.stack ∧ q.slots = p.slots ∧
    (r = .ok () → q.closings = p.closings)

/-- A walk that gives emissions within a call leaves the call's stack, slots and closings as they
were. -/
theorem Gives.restored {p : Pass} {run : Pass → Option (Except Failure Unit × Pass)}
    {es : List (Emission String)} (h : Gives p.stack p.slots run es) : p.Restored (run p) := by
  obtain ⟨hstack, hslots, hclosings⟩ := p.takeAll_keeps es
  exact ⟨_, _, h p rfl rfl, hstack, hslots, fun _ => hclosings⟩

/-- Walking through a node is walking through it without siblings. -/
theorem gives_render (e : Engine) {t : Table} {stack : List String} {slots : List (List Node)}
    {n : Node} {ps : List Piece} (h : Lays t ⟨stack, slots, [n]⟩ ps) (level : Nat) :
    Gives stack slots (e.manner.render t level · n) (e.emissions level ps) := by
  intro p hstack hslots
  have hrun := gives_of_lays e h level p hstack hslots
  dsimp only at hrun ⊢
  rw [Manner.renderAll] at hrun
  -- Without siblings the walk through the list goes on with nothing.
  cases hn : e.manner.render t level p n with
  | none =>
    rw [hn] at hrun
    cases hrun
  | some result =>
    obtain ⟨r, q⟩ := result
    rw [hn, Option.bind_eq_bind, Option.bind_some] at hrun
    cases r with
    | error cause => exact hrun
    | ok =>
      dsimp only at hrun
      rwa [Manner.renderAll] at hrun

/-- **Within calls, siblings are written as their copies are outside of any.** -/
theorem renderAll_copied (e : Engine) (t : Table) (level : Nat) (p : Pass) (ns : List Node) :
    e.manner.renderAll t level p ns =
      (e.manner.renderAll t level { p with slots := [] } (copied p.slots ns)).map
        fun (r, q) => (r, { q with slots := p.slots }) := by
  obtain ⟨ps, hps⟩ := exists_lays t ⟨p.stack, p.slots, ns⟩
  have hrun := gives_of_lays e hps level p rfl rfl
  have hcopy := gives_of_lays e (lays_copied hps) level { p with slots := [] } rfl rfl
  have hwith := p.takeAll_with p.stack [] p.closings (e.emissions level ps)
  -- Both passes take the same emissions, so they differ by what they were given.
  obtain ⟨hstack, hslots, hclosings⟩ := p.takeAll_keeps (e.emissions level ps)
  dsimp only at hrun hcopy hwith
  rw [hrun, hcopy, hwith, Option.map_some]
  dsimp only
  rw [← hstack, ← hslots, ← hclosings]

/-- **A walk leaves the stacks as it found them.** From every state, the walk through a node and
the walk through a call come back, and the tags and the children of the calls that are going on are
those from before, whether it failed or not. If it did not, the scopes that are open are those from
before, too.

So a slot stands for the children of the call whose body it is written in: siblings within calls
are written as their copies are outside of any, where every slot has been replaced by the children
of its own call. And the walk through a tree from the beginning is the template of that tree. -/
theorem render_restores (e : Engine) (t : Table) (level : Nat) (p : Pass) :
    (∀ n, p.Restored (e.manner.render t level p n)) ∧
    (∀ c tag attributes cs, p.Restored (e.manner.inline t level p c tag attributes cs)) ∧
    (∀ ns, e.manner.renderAll t level p ns =
      (e.manner.renderAll t level { p with slots := [] } (copied p.slots ns)).map
        fun (r, q) => (r, { q with slots := p.slots })) ∧
    ∀ n, ∃ r q, e.manner.render t level {} n = some (r, q) ∧
      e.generate level n t = ⟨q.warnings, r.map fun _ => q.text⟩ := by
  -- Every site has a layout, so each walk gives what the engine gives off for it and comes back.
  refine ⟨fun n => ?_, fun c tag attributes cs => ?_, renderAll_copied e t level p, fun n => ?_⟩
  · obtain ⟨ps, hps⟩ := exists_lays t ⟨p.stack, p.slots, [n]⟩
    exact (gives_render e hps level).restored
  · obtain ⟨ps, hps⟩ := exists_lays t ⟨tag :: p.stack, cs :: p.slots, c.body⟩
    exact (Gives.inline (e.spells t) level attributes (gives_of_lays e hps)).restored
  · have hlays : Lays t n.site (n.layout t) := lays_site_iff.2 rfl
    refine ⟨_, _, gives_render e hlays level {} rfl rfl, ?_⟩
    rw [Engine.generate, Engine.print_eq, ← Pass.outcome_eq]

end Stencil
