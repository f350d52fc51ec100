import Stencil.Proofs.Engine.Level

/-!
# Templates in one pass

An engine needs no layout in between. It can write the template while it walks through the tree, if
it keeps two stacks on the way: the tags of the calls that are going on, and their children. A call
puts its tag and its children on them. A slot takes the uppermost children off, walks through them,
and puts them back. Engines that close a scope also keep the closing lines of the scopes that are
open.

* `Pass` — what is written so far, and the stacks;
* `Manner` — what an engine writes for a construct, and where it walks on in between;
* `Manner.render`, `Manner.inline` — the walk through a node, and through a call;
* `Gives` — a walk writes some emissions and changes nothing but what is written.

A walk calls itself for the bodies of components and for the children that wait for a slot, so
nothing in its definition says that it comes back. That it does is part of `Gives`. This module has
the rules for walks that are put together: siblings and steps one after the other
(`Gives.siblings_cons`, `Gives.nodes`), and nodes by their constructs.
-/

namespace Stencil

/-! ### Passes -/

/-- The state of a walk through a tree. -/
structure Pass where
  text : String := ""
  warnings : List Warning := []
  /-- The tags of the calls that are going on, the innermost first. -/
  stack : List String := []
  /-- The children of the calls that a slot can take, the innermost first. -/
  slots : List (List Node) := []
  /-- The closing lines of the scopes that are open, for scopes that have one. -/
  closings : List (Option String) := []

namespace Pass

/-- Writes what is given off, or stops at it. -/
def take (p : Pass) : Emission String → Except Failure Unit × Pass
  | .line level s => (.ok (), { p with text := p.text ++ indented level s })
  | .warning w => (.ok (), { p with warnings := p.warnings ++ [w] })
  | .failure cause => (.error cause, p)

/-- Writes what is given off up to the first failure. -/
def takeAll (p : Pass) : List (Emission String) → Except Failure Unit × Pass
  | [] => (.ok (), p)
  | e :: es =>
    match p.take e with
    | (.error cause, p) => (.error cause, p)
    | (.ok (), p) => p.takeAll es

end Pass

/-! ### Manners -/

/-- A step of writing a construct. -/
inductive Step where
  | emission (e : Emission String)
  /-- The siblings are walked through at this level. -/
  | nodes (level : Nat) (siblings : List Node)

/-- How the constructs are written, each at a level. -/
structure Manner where
  element : Nat → String → List Attribute → List Node → List Step
  text : Nat → String → Emission String
  interpolation : Nat → Code → Emission String
  condition : Nat → Code → Option Node → Option Node → List Step
  iteration : Nat → Loop → List Node → List Step
  /-- What stands in front of the body of a component. -/
  opening : Nat → List Binding → List (Emission String)
  bodyLevel : Nat → List Binding → Nat
  /-- The line behind the body, in a manner that keeps such lines. -/
  closing : Option (List Binding → Option String)

/-- The other branch of a condition, if there is one. -/
def alternative (level : Nat) (otherwise : String) : Option Node → List Step
  | none => []
  | some n => [.emission (.line level otherwise), .nodes (level + 1) [n]]

/-- An element in EJS: its tags around its children, or one line. -/
def Ejs.elementSteps (level : Nat) (tag : String) (attributes : List Attribute) (cs : List Node) :
    List Step :=
  if isVoid tag then [.emission (.line level (Directive.voidTag tag attributes).spell)]
  else if cs.isEmpty then [.emission (.line level (Directive.emptyTag tag attributes).spell)]
  else
    [.emission (.line level (Directive.startTag tag attributes).spell), .nodes (level + 1) cs,
      .emission (.line level (Directive.endTag tag).spell)]

/-- The manner of EJS. -/
def Ejs.manner : Manner where
  element := elementSteps
  text level value := .line level (Directive.text value).spell
  interpolation level code := .line level (Directive.value code).spell
  condition level test yes no :=
    .emission (.line level (Directive.startIf test).spell) :: .nodes (level + 1) yes.toList
      :: alternative level Directive.otherwise.spell no
      ++ [.emission (.line level Directive.endIf.spell)]
  iteration level loop body :=
    [.emission (.line level (Directive.startEach loop).spell), .nodes (level + 1) body,
      .emission (.line level Directive.endEach.spell)]
  opening level bindings :=
    if bindings.isEmpty then [] else [.line level (Directive.startScope bindings).spell]
  bodyLevel level bindings := if bindings.isEmpty then level else level + 1
  closing := some fun bindings =>
    if bindings.isEmpty then none else some (Directive.endScope bindings).spell

/-- The manner of Pug. -/
def Pug.manner : Manner where
  element level tag attributes cs :=
    [.emission (.line level (Directive.tag tag attributes).spell), .nodes (level + 1) cs]
  text level value := .line level (Directive.text value).spell
  interpolation level code := .line level (Directive.value code).spell
  condition level test yes no :=
    match yes, no with
    | none, some alternate =>
      [.emission (.line level (Directive.startUnless test).spell), .nodes (level + 1) [alternate]]
    | yes, no =>
      .emission (.line level (Directive.startIf test).spell) :: .nodes (level + 1) yes.toList
        :: alternative level Directive.otherwise.spell no
  iteration level loop body :=
    (startLoop loop).map (fun d => .emission (.line level d.spell)) ++ [.nodes (level + 1) body]
  opening level bindings := bindings.map fun b => .line level (assignment b).spell
  bodyLevel level _ := level
  closing := none

/-- An element in Liquid, whose attributes may have no words. -/
def Liquid.elementSteps (level : Nat) (tag : String) (attributes : List Attribute)
    (cs : List Node) : List Step :=
  match Liquid.slots attributes with
  | .error cause => [.emission (.failure cause)]
  | .ok attributes =>
    if isVoid tag then [.emission (.line level (Directive.voidTag tag attributes).spell)]
    else if cs.isEmpty then [.emission (.line level (Directive.emptyTag tag attributes).spell)]
    else
      [.emission (.line level (Directive.startTag tag attributes).spell), .nodes (level + 1) cs,
        .emission (.line level (Directive.endTag tag).spell)]

/-- A condition in Liquid, whose test may have no words. -/
def Liquid.conditionSteps (level : Nat) (test : Code) (yes no : Option Node) : List Step :=
  match testOf test with
  | .error cause => [.emission (.failure cause)]
  | .ok words =>
    match yes, no with
    | none, some alternate =>
      let words := { words with negated := !words.negated }
      [.emission (.line level (Directive.startIf words).spell), .nodes (level + 1) [alternate],
        .emission (.line level (Directive.endIf words.negated).spell)]
    | yes, no =>
      .emission (.line level (Directive.startIf words).spell) :: .nodes (level + 1) yes.toList
        :: alternative level Directive.otherwise.spell no
        ++ [.emission (.line level (Directive.endIf words.negated).spell)]

/-- An iteration in Liquid, whose iterable may have no words. -/
def Liquid.iterationSteps (level : Nat) (loop : Loop) (body : List Node) : List Step :=
  match loop.iterable.liquid with
  | .error cause => [.emission (.failure cause)]
  | .ok iterable =>
    (startLoop loop iterable).map (fun d => .emission (.line level d.spell))
      ++ ((loopIndex loop).map (fun d => .emission (.line (level + 1) d.spell))
        ++ [.nodes (level + 1) body, .emission (.line level Directive.endFor.spell)])

/-- The manner of Liquid, which stops at what it has no words for. -/
def Liquid.manner : Manner where
  element := elementSteps
  text level value := .line level (Directive.text value).spell
  interpolation level code := (lineOrFailure level (code.liquid.map .value)).map Directive.spell
  condition := conditionSteps
  iteration := iterationSteps
  opening level bindings := bindings.map fun b => (emitBinding level b).map Directive.spell
  bodyLevel level _ := level
  closing := none

/-- The manner of an engine. -/
def Engine.manner : Engine → Manner
  | .ejs => Ejs.manner
  | .pug => Pug.manner
  | .liquid => Liquid.manner

/-! ### The walk -/

namespace Manner

/-- A scope is opened, and its closing line is kept for later. -/
def openScope (m : Manner) (bindings : List Binding) (p : Pass) : Pass :=
  match m.closing with
  | none => p
  | some closing => { p with closings := closing bindings :: p.closings }

/-- The innermost scope is closed, with its closing line if it has one. -/
def closeScope (m : Manner) (level : Nat) (p : Pass) : Except Failure Unit × Pass :=
  match m.closing, p.closings with
  | none, _ | _, [] => (.ok (), p)
  | some _, none :: outer => (.ok (), { p with closings := outer })
  | some _, some s :: outer => ({ p with closings := outer } : Pass).take (.line level s)

mutual

/-- The walk through a node. -/
def render (m : Manner) (t : Table) (level : Nat) (p : Pass) (n : Node) :
    Option (Except Failure Unit × Pass) :=
  match n with
  | .root cs | .fragment cs | .mixin _ cs => m |>.renderAll t level p cs
  | .element tag attributes cs =>
    match t.resolve? tag with
    | none => m |>.follow t p (m.element level tag attributes cs)
    | some c =>
      if p.stack.contains tag then
        m |>.follow t p
          (.emission (.warning (.recursiveUse tag)) :: m.element level tag attributes cs)
      else m |>.inline t level p c tag attributes cs
  | .text value => if value.isEmpty then some (.ok (), p) else some (p.take (m.text level value))
  | .interpolation code =>
    match isChildrenSlot code, p.slots with
    | true, slot :: outer => do
      let (r, p) ← m |>.renderAll t level { p with slots := outer } slot
      some (r, { p with slots := slot :: p.slots })
    | _, _ => some (p.take (m.interpolation level code))
  | .condition test yes no => m |>.follow t p (m.condition level test yes no)
  | .iteration loop body => m |>.follow t p (m.iteration level loop body)
partial_fixpoint

/-- The walk through siblings, up to the first failure. -/
def renderAll (m : Manner) (t : Table) (level : Nat) (p : Pass) (ns : List Node) :
    Option (Except Failure Unit × Pass) :=
  match ns with
  | [] => some (.ok (), p)
  | n :: ns => do
    let (r, p) ← m |>.render t level p n
    match r with
    | .error cause => some (.error cause, p)
    | .ok () => m |>.renderAll t level p ns
partial_fixpoint

/-- The steps of a construct, up to the first failure. -/
def follow (m : Manner) (t : Table) (p : Pass) (steps : List Step) :
    Option (Except Failure Unit × Pass) :=
  match steps with
  | [] => some (.ok (), p)
  | .emission e :: steps =>
    match p.take e with
    | (.error cause, p) => some (.error cause, p)
    | (.ok (), p) => m |>.follow t p steps
  | .nodes level ns :: steps => do
    let (r, p) ← m |>.renderAll t level p ns
    match r with
    | .error cause => some (.error cause, p)
    | .ok () => m |>.follow t p steps
partial_fixpoint

/-- The walk through the body of a component, for a call with these attributes and children. -/
def inline (m : Manner) (t : Table) (level : Nat) (p : Pass) (c : Component) (tag : String)
    (attributes : List Attribute) (cs : List Node) : Option (Except Failure Unit × Pass) :=
  let bindings := c.signature.bind attributes
  match p.takeAll (m.opening level bindings) with
  | (.error cause, p) => some (.error cause, p)
  | (.ok (), p) => do
    let p := m.openScope bindings p
    let (r, p) ← m |>.renderAll t (m.bodyLevel level bindings)
      { p with stack := tag :: p.stack, slots := cs :: p.slots } c.body
    let p := { p with stack := p.stack.tail, slots := p.slots.tail }
    match r with
    | .error cause => some (.error cause, p)
    | .ok () => some (m.closeScope level p)
partial_fixpoint

end

end Manner

/-- The body of a component, with the child of the call in its slot. -/
example :
    let card : Component :=
      ⟨⟨"Card", [], Dict.empty⟩, [.element "p" [] [.interpolation ⟨"children"⟩]], false, none⟩
    Ejs.manner.render { components := Dict.ofList [("Card", card)] } 0 {}
        (.element "Card" [] [.text "x"])
      = some (.ok (), { text := "<p>\n  x\n</p>\n" }) := by
  cbv

/-! ### What is written -/

namespace Emission

/-- A first line stands before the rest of the result. -/
theorem result_outcome_line (level : Nat) (s : String) (es : List (Emission String)) :
    (outcome id (.line level s :: es)).result
      = (outcome id es).result.map (indented level s ++ ·) := by
  unfold outcome
  rw [List.findSome?_cons]
  dsimp only [failure?]
  -- A line is no failure, so the result fails where the rest does.
  cases es.findSome? failure? with
  | some cause => rfl
  | none =>
    refine congrArg Except.ok ?_
    rw [List.map_cons, String.join_cons]
    rfl

/-- A warning leaves no text. -/
theorem result_outcome_warning (w : Warning) (es : List (Emission String)) :
    (outcome id (.warning w :: es)).result = (outcome id es).result := by
  unfold outcome
  rw [List.findSome?_cons]
  dsimp only [failure?]
  cases es.findSome? failure? with
  | some cause => rfl
  | none =>
    refine congrArg Except.ok ?_
    rw [List.map_cons, String.join_cons]
    exact String.empty_append

end Emission

namespace Pass

/-- Emissions one after the other, where the first ones need not come to an end. -/
theorem takeAll_append (p : Pass) (as bs : List (Emission String)) :
    p.takeAll (as ++ bs) =
      match p.takeAll as with
      | (.error cause, p) => (.error cause, p)
      | (.ok (), p) => p.takeAll bs := by
  induction as generalizing p with
  | nil => rfl
  | cons e as ih =>
    -- The second part is reached only if the first one has no failure.
    cases e with
    | line level s => exact ih _
    | warning w => exact ih _
    | failure cause => rfl

/-- Taking one emission. -/
theorem takeAll_singleton (p : Pass) (e : Emission String) : p.takeAll [e] = p.take e := by
  cases e <;> rfl

/-- The stacks stand beside what is written. -/
theorem takeAll_with (p : Pass) (stack : List String) (slots : List (List Node))
    (closings : List (Option String)) (es : List (Emission String)) :
    ({ p with stack := stack, slots := slots, closings := closings } : Pass).takeAll es =
      ((p.takeAll es).1,
        { (p.takeAll es).2 with stack := stack, slots := slots, closings := closings }) := by
  induction es generalizing p with
  | nil => rfl
  | cons e es ih =>
    -- Emissions change the text and the warnings, and the other parts pass through.
    cases e with
    | line level s => exact ih { p with text := p.text ++ indented level s }
    | warning w => exact ih { p with warnings := p.warnings ++ [w] }
    | failure cause => rfl

/-- Writing changes no stack. -/
theorem takeAll_keeps (p : Pass) (es : List (Emission String)) :
    (p.takeAll es).2.stack = p.stack ∧ (p.takeAll es).2.slots = p.slots ∧
      (p.takeAll es).2.closings = p.closings := by
  have hwith : (p.takeAll es).2 = { (p.takeAll es).2 with
      stack := p.stack, slots := p.slots, closings := p.closings } :=
    congrArg Prod.snd (takeAll_with p p.stack p.slots p.closings es)
  refine ⟨?_, ?_, ?_⟩ <;> rw [hwith]

/-- Emissions without a failure are written to the end. -/
theorem takeAll_ok {es : List (Emission String)} (h : Emission.Succeeds es) (p : Pass) :
    (p.takeAll es).1 = .ok () := by
  induction es generalizing p with
  | nil => rfl
  | cons e es ih =>
    obtain ⟨he, hes⟩ := Emission.succeeds_cons.1 h
    -- Lines and warnings are taken in; a failure was excluded.
    cases e with
    | line level s => exact ih hes _
    | warning w => exact ih hes _
    | failure cause => cases he

/-- What is written is what the emissions come to. -/
theorem takeAll_outcome (p : Pass) (es : List (Emission String)) :
    (p.takeAll es).2.warnings = p.warnings ++ (Emission.outcome id es).warnings ∧
      ((p.takeAll es).1.map fun _ => (p.takeAll es).2.text) =
        (Emission.outcome id es).result.map (p.text ++ ·) := by
  induction es generalizing p with
  | nil => exact ⟨(List.append_nil _).symm, congrArg Except.ok String.append_empty.symm⟩
  | cons e es ih =>
    cases e with
    | line level s =>
      obtain ⟨hwarnings, htext⟩ := ih { p with text := p.text ++ indented level s }
      refine ⟨hwarnings, htext.trans ?_⟩
      rw [Emission.result_outcome_line]
      -- The line stands between what was written before and what comes behind it.
      cases (Emission.outcome id es).result with
      | error cause => rfl
      | ok s => exact congrArg Except.ok String.append_assoc
    | warning w =>
      obtain ⟨hwarnings, htext⟩ := ih { p with warnings := p.warnings ++ [w] }
      rw [Emission.result_outcome_warning]
      exact ⟨hwarnings.trans (List.append_assoc _ _ _), htext⟩
    | failure cause => exact ⟨(List.append_nil _).symm, rfl⟩

/-- What is written from the beginning is all that the emissions come to. -/
theorem outcome_eq (es : List (Emission String)) :
    Emission.outcome id es =
      ⟨(({} : Pass).takeAll es).2.warnings,
        (({} : Pass).takeAll es).1.map fun _ => (({} : Pass).takeAll es).2.text⟩ := by
  -- The state collects what the emissions hold, from an empty start.
  obtain ⟨hwarnings, htext⟩ := ({} : Pass).takeAll_outcome es
  rw [hwarnings, htext]
  obtain ⟨warnings, result⟩ := Emission.outcome id es
  cases result with
  | error cause => rfl
  | ok s => rw [Except.map, String.empty_append, List.nil_append]

end Pass

section

variable {m : Manner} {t : Table} {stack : List String} {slots : List (List Node)}

/-- **A walk that starts within these calls writes these emissions**, up to the first failure, and
changes nothing else. -/
def Gives (stack : List String) (slots : List (List Node))
    (run : Pass → Option (Except Failure Unit × Pass)) (es : List (Emission String)) : Prop :=
  ∀ p : Pass, p.stack = stack → p.slots = slots → run p = some (p.takeAll es)

/-- One walk after the other. -/
theorem Gives.andThen {run next : Pass → Option (Except Failure Unit × Pass)}
    {as bs : List (Emission String)} (hrun : Gives stack slots run as)
    (hnext : Gives stack slots next bs) :
    Gives stack slots (fun p => do
      let (r, p) ← run p
      match r with
      | .error cause => some (.error cause, p)
      | .ok () => next p) (as ++ bs) := by
  intro p hstack hslots
  -- What is written leaves both stacks as they are, so the second walk starts with those of the
  -- first.
  obtain ⟨hkeeps, hkeeps', -⟩ := p.takeAll_keeps as
  dsimp only
  rw [hrun p hstack hslots, Option.bind_eq_bind, Option.bind_some, Pass.takeAll_append]
  match hp : p.takeAll as with
  | (.error cause, q) => rfl
  -- A walk that ended well hands its state on to the next one.
  | (.ok (), q) =>
    rw [hp] at hkeeps hkeeps'
    exact hnext q (hkeeps.trans hstack) (hkeeps'.trans hslots)

/-! Siblings. -/

/-- No nodes give nothing. -/
theorem Gives.siblings_nil {level : Nat} : Gives stack slots (m.renderAll t level · []) [] := by
  intro p _ _
  dsimp only
  rw [Manner.renderAll]
  rfl

/-- Nodes side by side give theirs one after the other. -/
theorem Gives.siblings_cons {level : Nat} {n : Node} {ns : List Node}
    {as bs : List (Emission String)} (hn : Gives stack slots (m.render t level · n) as)
    (hns : Gives stack slots (m.renderAll t level · ns) bs) :
    Gives stack slots (m.renderAll t level · (n :: ns)) (as ++ bs) := by
  intro p hstack hslots
  rw [← hn.andThen hns p hstack hslots]
  dsimp only
  rw [Manner.renderAll]

/-! Steps. -/

/-- No steps give nothing. -/
theorem Gives.steps_nil : Gives stack slots (m.follow t · []) [] := by
  intro p _ _
  dsimp only
  rw [Manner.follow]
  rfl

/-- A step that emits gives its emission first. -/
theorem Gives.emission (e : Emission String) {steps : List Step} {es : List (Emission String)}
    (h : Gives stack slots (m.follow t · steps) es) :
    Gives stack slots (m.follow t · (.emission e :: steps)) (e :: es) := by
  intro p hstack hslots
  dsimp only
  rw [Manner.follow]
  cases e with
  | line level s => exact h _ hstack hslots
  | warning w => exact h _ hstack hslots
  | failure cause => rfl

/-- A step into nodes gives what they do. -/
theorem Gives.nodes {level : Nat} {ns : List Node} {steps : List Step}
    {as bs : List (Emission String)} (hns : Gives stack slots (m.renderAll t level · ns) as)
    (h : Gives stack slots (m.follow t · steps) bs) :
    Gives stack slots (m.follow t · (.nodes level ns :: steps)) (as ++ bs) := by
  intro p hstack hslots
  rw [← hns.andThen h p hstack hslots]
  dsimp only
  rw [Manner.follow]

/-- Nothing is written behind a failure. -/
theorem Gives.failure (cause : Failure) (steps : List Step) (es : List (Emission String)) :
    Gives stack slots (m.follow t · (.emission (.failure cause) :: steps))
      (.failure cause :: es) := by
  intro p _ _
  dsimp only
  rw [Manner.follow]
  rfl

/-- Several steps that emit. -/
theorem Gives.emissions {α : Type} (f : α → Emission String) (as : List α) {steps : List Step}
    {es : List (Emission String)} (h : Gives stack slots (m.follow t · steps) es) :
    Gives stack slots (m.follow t · (as.map (fun a => .emission (f a)) ++ steps))
      (as.map f ++ es) := by
  induction as with
  | nil => exact h
  | cons a as ih => exact ih.emission (f a)

/-- A branch that is missing writes nothing. -/
theorem Gives.consequent {level : Nat} {yes : Option Node} {as : List (Emission String)}
    (h : Gives stack slots (m.renderAll t level · yes.toList) as) :
    Gives stack slots (m.renderAll t level · yes.toList) (yes.elim [] fun _ => as) := by
  cases yes with
  | none => exact siblings_nil
  | some n => exact h

/-- The other branch of a condition writes its line and its siblings, if there is one. -/
theorem Gives.alternative {level : Nat} (otherwise : String) {no : Option Node}
    {steps : List Step} {as bs : List (Emission String)}
    (hno : Gives stack slots (m.renderAll t (level + 1) · no.toList) as)
    (h : Gives stack slots (m.follow t · steps) bs) :
    Gives stack slots (m.follow t · (alternative level otherwise no ++ steps))
      ((no.elim [] fun _ => .line level otherwise :: as) ++ bs) := by
  cases no with
  | none => exact h
  | some n => exact (hno.nodes h).emission _

end

/-! ### Nodes -/

section

variable {m : Manner} {t : Table} {stack : List String} {slots : List (List Node)} {level : Nat}
  {es : List (Emission String)}

/-- The root gives what its nodes do. -/
theorem Gives.root {cs : List Node} (h : Gives stack slots (m.renderAll t level · cs) es) :
    Gives stack slots (m.render t level · (.root cs)) es := by
  intro p hstack hslots
  dsimp only
  rw [Manner.render]
  exact h p hstack hslots

theorem Gives.fragment {cs : List Node} (h : Gives stack slots (m.renderAll t level · cs) es) :
    Gives stack slots (m.render t level · (.fragment cs)) es := by
  intro p hstack hslots
  dsimp only
  rw [Manner.render]
  exact h p hstack hslots

theorem Gives.mixin {signature : Signature} {cs : List Node}
    (h : Gives stack slots (m.renderAll t level · cs) es) :
    Gives stack slots (m.render t level · (.mixin signature cs)) es := by
  intro p hstack hslots
  dsimp only
  rw [Manner.render]
  exact h p hstack hslots

/-- An element that names no component gives its own steps. -/
theorem Gives.plain {tag : String} {attributes : List Attribute} {cs : List Node}
    (hresolve : t.resolve? tag = none)
    (h : Gives stack slots (m.follow t · (m.element level tag attributes cs)) es) :
    Gives stack slots (m.render t level · (.element tag attributes cs)) es := by
  intro p hstack hslots
  dsimp only
  rw [Manner.render, hresolve]
  exact h p hstack hslots

/-- An element inside the component that it names is warned about. -/
theorem Gives.recursive {tag : String} {attributes : List Attribute} {cs : List Node}
    {c : Component}
    (hresolve : t.resolve? tag = some c) (hmem : tag ∈ stack)
    (h : Gives stack slots (m.follow t · (m.element level tag attributes cs)) es) :
    Gives stack slots (m.render t level · (.element tag attributes cs))
      (.warning (.recursiveUse tag) :: es) := by
  intro p hstack hslots
  dsimp only
  rw [Manner.render, hresolve]
  dsimp only
  -- The tag is being inlined, so the element goes out as a plain one behind the warning.
  rw [hstack, if_pos (List.contains_iff_mem.2 hmem)]
  exact h.emission _ p hstack hslots

/-- An element that names a component gives the inlined call, unless the component is being
inlined. -/
theorem Gives.call {tag : String} {attributes : List Attribute} {cs : List Node} {c : Component}
    (hresolve : t.resolve? tag = some c) (hnot : tag ∉ stack)
    (h : Gives stack slots (m.inline t level · c tag attributes cs) es) :
    Gives stack slots (m.render t level · (.element tag attributes cs)) es := by
  intro p hstack hslots
  dsimp only
  rw [Manner.render, hresolve]
  dsimp only
  -- The tag is not being inlined, so the component is.
  rw [hstack, if_neg (mt List.contains_iff_mem.1 hnot)]
  exact h p hstack hslots

/-- An empty text gives nothing. -/
theorem Gives.emptyText : Gives stack slots (m.render t level · (.text "")) [] := by
  intro p _ _
  dsimp only
  rw [Manner.render]
  rfl

/-- Any other text gives a line. -/
theorem Gives.text {value : String} (hne : value ≠ "") :
    Gives stack slots (m.render t level · (.text value)) [m.text level value] := by
  intro p _ _
  dsimp only
  rw [Manner.render, if_neg (by rwa [String.isEmpty_iff]), Pass.takeAll_singleton]

/-- An interpolation gives a line, unless it is the slot of a call. -/
theorem Gives.interpolation {code : Code} (h : isChildrenSlot code = false ∨ slots = []) :
    Gives stack slots (m.render t level · (.interpolation code)) [m.interpolation level code] := by
  intro p _ hslots
  dsimp only
  rw [Manner.render, Pass.takeAll_singleton, hslots]
  rcases h with hplain | rfl
  · rw [hplain]
  · cases isChildrenSlot code <;> rfl

/-- **A slot writes the children of the innermost call**, outside of that call, and the call goes on
behind it. -/
theorem Gives.slot {code : Code} {slot : List Node} {outer : List (List Node)}
    (hslot : isChildrenSlot code = true)
    (h : Gives stack outer (m.renderAll t level · slot) es) :
    Gives stack (slot :: outer) (m.render t level · (.interpolation code)) es := by
  intro p hstack hslots
  dsimp only
  rw [Manner.render]
  -- The children are walked through with the uppermost ones taken off, and the writing does not
  -- look at the stacks.
  have hrun := h { p with slots := outer } hstack rfl
  have hwith := p.takeAll_with p.stack outer p.closings es
  obtain ⟨hkeeps, hkeeps', hkeeps''⟩ := p.takeAll_keeps es
  dsimp only at hrun hwith
  rw [hwith] at hrun
  rw [hslot, hslots]
  dsimp only
  rw [hrun, Option.bind_eq_bind, Option.bind_some]
  dsimp only
  -- Putting the children back makes the state the one that only the writing has changed.
  rw [← hslots, ← hkeeps, ← hkeeps', ← hkeeps'']

/-- A condition gives the steps of its kind. -/
theorem Gives.condition {test : Code} {yes no : Option Node}
    (h : Gives stack slots (m.follow t · (m.condition level test yes no)) es) :
    Gives stack slots (m.render t level · (.condition test yes no)) es := by
  intro p hstack hslots
  dsimp only
  rw [Manner.render]
  exact h p hstack hslots

theorem Gives.iteration {loop : Loop} {body : List Node}
    (h : Gives stack slots (m.follow t · (m.iteration level loop body)) es) :
    Gives stack slots (m.render t level · (.iteration loop body)) es := by
  intro p hstack hslots
  dsimp only
  rw [Manner.render]
  exact h p hstack hslots

end

end Stencil
