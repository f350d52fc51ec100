import Stencil.Proofs.Lower.Copying
import Stencil.Proofs.Lower.Mirror
import Stencil.Proofs.Script.Named

/-!
# How lowering builds trees

Lowering puts markup together in a few ways: it strings siblings together, makes a text, an
interpolation, an element or an iteration, and puts siblings into the two branches of a condition.
What all of these keep holds of everything that is lowered (`Builds`, `built_expr`), by one
recursion along the functions of lowering. It may be about the nodes alone (`BuildsNodes`), or about
the nodes and the names that are marked on the way.

The tags of the elements come from the script, so what is asked of tags (`Q`) is asked of the tags
of the script (`Expr.Named`).
-/

namespace Stencil

namespace Lower

open Script (Expr Form Part Child Function Body Stmt childrenNamed partsNamed statementsNamed
  statementNamed)

/-- A property of markup that lowering keeps in all it puts together, if the tags satisfy `Q`. -/
structure Builds (Q : String → Prop) (P : Markup → Prop) : Prop where
  empty : P .empty
  append {a b : Markup} : P a → P b → P (a.append b)
  text (value : String) : P (.text value)
  interpolation (code : Code) : P (.interpolation code)
  element {tag : String} (attributes : List Attribute) {inside : Markup} :
    Q tag → P inside → P (.element tag attributes inside)
  condition (test : Code) {a b : Markup} : P a → P b → P (.condition test a b)
  iteration (loop : Loop) {body : Markup} : P body → P (.iteration loop body)

/-- A property of siblings that lowering keeps. -/
structure BuildsNodes (Q : String → Prop) (P : List Node → Prop) : Prop where
  nil : P []
  append {as bs : List Node} : P as → P bs → P (as ++ bs)
  text (value : String) : P [.text value]
  interpolation (code : Code) : P [.interpolation code]
  element {tag : String} (attributes : List Attribute) {cs : List Node} :
    Q tag → P cs → P [.element tag attributes cs]
  condition (test : Code) {as bs : List Node} :
    P as → P bs → P [.condition test (Node.slotOf as) (Node.slotOf bs)]
  iteration (loop : Loop) {body : List Node} : P body → P [.iteration loop body]

/-- It is a property of markup that does not ask for the marks. -/
theorem BuildsNodes.builds {Q : String → Prop} {P : List Node → Prop} (h : BuildsNodes Q P) :
    Builds Q fun m => P m.nodes where
  empty := h.nil
  append := h.append
  text := h.text
  interpolation := h.interpolation
  element attributes := h.element attributes
  condition test _ _ := h.condition test
  iteration loop _ := h.iteration loop

section Built

variable {Q : String → Prop} {P : Markup → Prop}

/-- Nested returns are conditions of what is returned, by induction on the returns. -/
theorem Builds.nest (hP : Builds Q P) : ∀ rs : List Return, (∀ r ∈ rs, P r.markup) → P (nest rs)
  | [], _ => hP.empty
  | r :: rest, h => by
    have hfirst : P r.markup := h r List.mem_cons_self
    have hrest : P (Lower.nest rest) :=
      Builds.nest hP rest fun r hr => h r (List.mem_cons_of_mem _ hr)
    rw [Lower.nest]
    split
    · exact hfirst
    · -- The later returns stand in a branch of a condition, whichever of the two it is.
      split
      · exact hP.condition _ hrest hP.empty
      · exact hP.condition _ hfirst hrest

/-! One theorem for each function of lowering, by recursion on the script. -/

mutual

/-- What lowering an expression gives is built. -/
theorem built_expr (hP : Builds Q P) (operand : Bool) :
    ∀ e : Expr, e.Named Q → P (expr operand e)
  | .mk text form, h => built_forms hP operand text form h
  termination_by structural e => e

/-- The case by case part of `built_expr`: each form is lowered in one of the few ways, or
copied. -/
theorem built_forms (hP : Builds Q P) (operand : Bool) (text : String) :
    ∀ form : Form, form.Named Q → P (forms operand text form)
  | .paren inner, h => built_expr hP operand inner h
  | .null, _ => hP.empty
  | .string s, _ => by
    rw [forms]
    -- A string literal is a text where it is an operand, and is interpolated elsewhere.
    split
    · exact hP.text s
    · exact hP.interpolation _
  | .element tag attributes cs, h => by
    -- An element with no tag of its own leaves its children, and else it is one of the script's
    -- tags.
    have hchildren : P (children cs) := built_children hP cs h.2
    rw [forms]
    split
    · exact hchildren
    · exact hP.element _ h.1 hchildren
  | .fragment cs, h => built_children hP cs h
  | .logical .and left right, h =>
    hP.condition ⟨left.text⟩ (built_expr hP true right h.2) hP.empty
  | .logical .or left right, h =>
    hP.condition ⟨left.text⟩ (hP.interpolation ⟨left.text⟩) (built_expr hP true right h.2)
  | .conditional test consequent alternate, h => by
    have hconsequent : P (expr true consequent) := built_expr hP true consequent h.1
    have halternate : P (expr true alternate) := built_expr hP true alternate h.2
    rw [forms]
    -- A null consequent turns the condition around.
    split
    · exact hP.condition _ halternate hP.empty
    · exact hP.condition _ hconsequent halternate
  | .call callee arguments, h => by
    rw [forms]
    -- A call is an iteration if it maps something, and copied as it is otherwise.
    cases mapped? callee with
    | some iterable => exact built_mapCall hP iterable text arguments h
    | none => exact hP.interpolation _
  | .logical .coalesce _ _, _ | .identifier _, _ | .number _, _ | .boolean _, _ | .template _ _, _
  | .unary _ _, _ | .binary _ _ _, _ | .member _ _, _ | .index _ _, _ | .chain _, _ | .object _, _
  | .assignment _ _, _ | .arrow _, _ | .function _, _ | .other _ _, _ => hP.interpolation _
  termination_by structural form => form

/-- Children are strung together. -/
theorem built_children (hP : Builds Q P) :
    ∀ cs : List Child, childrenNamed Q cs → P (children cs)
  | [], _ => hP.empty
  | c :: rest, h => by
    rw [children]
    exact hP.append (built_child hP c h.1) (built_children hP rest h.2)
  termination_by structural cs => cs

/-- A child is a text, an expression or nothing. -/
theorem built_child (hP : Builds Q P) : ∀ c : Child, c.Named Q → P (child c)
  | .text raw, _ => by
    rw [child]
    split
    · exact hP.empty
    · exact hP.text _
  | .value e, h => built_expr hP false e h
  | .spread _, _ | .empty, _ => hP.empty
  termination_by structural c => c

/-- A call of `map` is looked into if its first argument is an expression. -/
theorem built_mapCall (hP : Builds Q P) (iterable : Code) (text : String) :
    ∀ arguments : List Part, partsNamed Q arguments → P (mapCall iterable text arguments)
  | [], _ => hP.empty
  | .value e :: _, h => built_callback hP iterable text e h.1
  | .spread _ :: _, _ | .binding _ :: _, _ | .statement _ :: _, _ => hP.interpolation _
  termination_by structural arguments => arguments

/-- The function that it is given, behind its parentheses. -/
theorem built_callback (hP : Builds Q P) (iterable : Code) (text : String) :
    ∀ e : Expr, e.Named Q → P (callback iterable text e)
  | .mk _ form, h => built_callbackForm hP iterable text form h
  termination_by structural e => e

/-- A function gives an iteration; what is no function is interpolated with the call. -/
theorem built_callbackForm (hP : Builds Q P) (iterable : Code) (text : String) :
    ∀ form : Form, form.Named Q → P (callbackForm iterable text form)
  | .arrow f, h => hP.iteration _ (built_callbackBody hP f h)
  | .function f, h => hP.iteration _ (built_callbackBody hP f h)
  | .identifier _, _ | .string _, _ | .number _, _ | .boolean _, _ | .null, _ | .paren _, _
  | .template _ _, _ | .unary _ _, _ | .binary _ _ _, _ | .logical _ _ _, _
  | .conditional _ _ _, _ | .member _ _, _ | .index _ _, _ | .call _ _, _ | .chain _, _
  | .object _, _ | .assignment _ _, _ | .element _ _ _, _ | .fragment _, _ | .other _ _, _ =>
    hP.interpolation _
  termination_by structural form => form

/-- The body of the function, under its returns. -/
theorem built_callbackBody (hP : Builds Q P) : ∀ f : Function, f.Named Q → P (callbackBody f)
  | .mk _ _ _ body, h => by
    have hnest : P (nest (returns body)) := hP.nest (returns body) (built_returns hP body h.2.2)
    rw [callbackBody]
    -- A callback that returns no markup comes to nothing.
    split
    · exact hnest
    · exact hP.empty
  termination_by structural f => f

/-- Every return of a body is built. -/
theorem built_returns (hP : Builds Q P) :
    ∀ body : Body, body.Named Q → ∀ r ∈ returns body, P r.markup
  | .value e, h, r, hr => by
    cases List.mem_singleton.1 hr
    exact built_expr hP false e h
  | .block statements, h, r, hr => built_blockReturns hP statements h r hr
  termination_by structural body => body

/-- The returns of a block, statement by statement. -/
theorem built_blockReturns (hP : Builds Q P) : ∀ statements : List Stmt,
    statementsNamed Q statements → ∀ r ∈ blockReturns statements, P r.markup
  | [], _, r, hr => nomatch hr
  | s :: rest, h, r, hr => by
    rcases mem_blockReturns_cons hr with hr | hr
    · exact built_chainReturns hP s h.1 r hr
    · exact built_blockReturns hP rest h.2 r hr
  termination_by structural statements => statements

/-- The returns of a chain of branches. -/
theorem built_chainReturns (hP : Builds Q P) :
    ∀ s : Stmt, s.Named Q → ∀ r ∈ (chainReturns s).1, P r.markup
  | .ret (some e), h, r, hr => by
    cases List.mem_singleton.1 hr
    exact built_expr hP false e h
  | .block statements, h, r, hr => by
    obtain ⟨value, markup, hsole, rfl⟩ := mem_chainReturns_block hr
    exact built_soleReturn hP false statements h value markup hsole
  -- The first return is the guarded one, the others stand behind `else`.
  | .branch test consequent alternate, h, r, hr => by
    obtain ⟨value, markup, hguarded, rfl | hr⟩ := mem_chainReturns_branch hr
    · exact built_guardedReturn hP consequent h.1 value markup hguarded
    · exact built_alternateReturns hP alternate h.2 r hr
  | .ret none, _, _, hr | .expression _, _, _, hr | .declaration _ _, _, _, hr
  | .function _, _, _, hr | .other _, _, _, hr => nomatch hr
  termination_by structural s => s

/-- The returns of what stands behind `else`. -/
theorem built_alternateReturns (hP : Builds Q P) :
    ∀ s : Option Stmt, statementNamed Q s → ∀ r ∈ (alternateReturns s).1, P r.markup
  | none, _, _, hr => nomatch hr
  | some s, h, r, hr => built_chainReturns hP s h r hr
  termination_by structural s => s

/-- A branch whose only statement is a return. -/
theorem built_guardedReturn (hP : Builds Q P) : ∀ s : Stmt, s.Named Q → ∀ (value : Expr)
    (markup : Markup), guardedReturn s = some (value, markup) → P markup
  | .ret (some e), h, value, markup, hs => by
    cases hs
    exact built_expr hP true e h
  | .block statements, h, value, markup, hs => built_soleReturn hP true statements h value markup hs
  | .ret none, _, _, _, hs | .branch _ _ _, _, _, _, hs | .expression _, _, _, _, hs
  | .declaration _ _, _, _, _, hs | .function _, _, _, _, hs | .other _, _, _, _, hs => nomatch hs
  termination_by structural s => s

/-- A block that is a return and nothing else. -/
theorem built_soleReturn (hP : Builds Q P) (operand : Bool) : ∀ statements : List Stmt,
    statementsNamed Q statements → ∀ (value : Expr) (markup : Markup),
      soleReturn operand statements = some (value, markup) → P markup
  -- A lone return is read, and nothing else.
  | [.ret (some e)], h, value, markup, hs => by
    cases hs
    exact built_expr hP operand e h.1
  | [], _, _, _, hs | [.ret none], _, _, _, hs | [.branch _ _ _], _, _, _, hs
  | [.block _], _, _, _, hs | [.expression _], _, _, _, hs | [.declaration _ _], _, _, _, hs
  | [.function _], _, _, _, hs | [.other _], _, _, _, hs => nomatch hs
  | s :: t :: rest, _, _, _, hs => nomatch (soleReturn_cons_cons operand s t rest).symm.trans hs
  termination_by structural statements => statements

end

/-- What a function returns is lowered from its body. -/
theorem built_returned {f : Function} {rs : List Return} (hP : Builds Q P) (hf : f.Named Q)
    (hrs : returned? f = some rs) : P (nest rs) := by
  obtain ⟨name, params, rest, body⟩ := f
  rw [eq_of_returned? hrs]
  exact hP.nest _ (built_returns hP body hf.2.2)

end Built

/-! ### Modules

What a module declares comes from its script, with one exception: a default export without a name
gets a name made of the path of its file. -/

open Script (Item Declarator DeclarationKind ImportName Module IsTagName IsWord)

/-- The function is one of the script, and its name is one, unless it has none. -/
structure Candidate.Plain (file : Option Path) (k : Candidate) : Prop where
  name : IsWord k.name.toList ∨ k.name = anonymousName file
  function : k.function.Named IsTagName

namespace Harvest

/-- **What the first pass keeps**: names of the script are words, and no import is resolved or
marked. -/
structure Plain (file : Option Path) (h : Harvest) : Prop where
  candidates : ∀ k ∈ h.candidates, k.Plain file
  required : ∀ name, (h.required.get? name).isSome = true → IsWord name.toList
  defaultName : ∀ name ∈ h.defaultName, IsWord name.toList
  unresolved : ∀ d ∈ h.dependencies.values, d.path = none
  unmarked : ∀ d ∈ h.dependencies.values, d.instantiated = false

variable {file : Option Path} {h : Harvest} {name : String} {isDefault : Bool} {f : Function}

/-- A candidate is plain if its name is and its function has names of the script. -/
theorem plain_candidate? (hname : IsWord name.toList ∨ name = anonymousName file)
    (hf : f.Named IsTagName) : ∀ k ∈ candidate? name isDefault f, k.Plain file := by
  intro k hk
  obtain ⟨rs, -, rfl⟩ := Option.map_eq_some_iff.1 hk
  exact ⟨hname, hf⟩

/-- So is a candidate whose name had to be one of a component. -/
theorem plain_component? (hname : IsWord name.toList ∨ name = anonymousName file)
    (hf : f.Named IsTagName) : ∀ k ∈ component? name isDefault f, k.Plain file := by
  unfold component?
  split
  · exact plain_candidate? hname hf
  · nofun

/-- Adding a plain candidate. -/
theorem Plain.addCandidate (hplain : h.Plain file) {c : Option Candidate}
    (hc : ∀ k ∈ c, k.Plain file) : (h.addCandidate c).Plain file where
  candidates k hk := (List.mem_append.1 hk).elim (hplain.candidates k)
    fun hk => hc k (Option.mem_toList.1 hk)
  required := hplain.required
  defaultName := hplain.defaultName
  unresolved := hplain.unresolved
  unmarked := hplain.unmarked

/-- A fold keeps what each of its steps keeps. -/
theorem Plain.foldl {α : Type} {step : Harvest → α → Harvest} {as : List α}
    (hstep : ∀ h, ∀ a ∈ as, h.Plain file → (step h a).Plain file) (hplain : h.Plain file) :
    (as.foldl step h).Plain file := by
  induction as generalizing h with
  | nil => exact hplain
  | cons a as ih =>
    obtain ⟨hfirst, hrest⟩ := List.forall_mem_cons.1 fun a ha h => hstep h a ha
    exact ih (fun h a ha => hrest a ha h) (hfirst h hplain)

/-- An import is kept under a name of the script and required from the file. -/
theorem plain_addImport (source : String) (hplain : h.Plain file) (n : ImportName) :
    (h.addImport file source n).Plain file := by
  -- A name that is bound again gets the new entry, with no path; all others keep theirs.
  have hrecord (name : String) (imported : Option String) :
      (addImport.record file source h name imported).Plain file := by
    have hfresh : ∀ d ∈ (addImport.record file source h name imported).dependencies.values,
        d.path = none ∧ d.instantiated = false := by
      intro d hd
      obtain ⟨key, hkey⟩ := Dict.mem_values_iff.1 hd
      rw [addImport.record, Dict.get?_insert] at hkey
      split at hkey
      · cases hkey
        exact ⟨rfl, rfl⟩
      · have hd : d ∈ h.dependencies.values := Dict.mem_values_iff.2 ⟨key, hkey⟩
        exact ⟨hplain.unresolved d hd, hplain.unmarked d hd⟩
    exact { hplain with
      unresolved := fun d hd => (hfresh d hd).1
      unmarked := fun d hd => (hfresh d hd).2 }
  cases n with
  | default name => exact hrecord name none
  | named name imported => exact hrecord name _
  | whole name => exact hplain

/-- A variable has a name of the script. -/
theorem plain_addVariable (kind : DeclarationKind) (hplain : h.Plain file) {d : Declarator}
    (hd : d.Named IsTagName) : (h.addVariable kind d).Plain file := by
  unfold addVariable
  split
  · next name value =>
    have hvalue : value.bare.Named IsTagName := hd.2.bare
    revert hvalue
    -- Of the declared values, functions can be components and others constants.
    cases value.bare with
    | mk text form =>
      intro hvalue
      split
      · next f heq =>
        cases heq
        exact hplain.addCandidate (plain_component? (.inl hd.1) hvalue)
      · next f heq =>
        cases heq
        exact hplain.addCandidate (plain_component? (.inl hd.1) hvalue)
      · unfold addConstant
        split
        · split
          · exact { hplain with }
          · exact hplain
        · exact hplain
  · exact hplain

/-- So has everything that a declaration declares. -/
theorem plain_addDeclaration (hplain : h.Plain file) {s : Stmt} (hs : s.Named IsTagName) :
    (h.addDeclaration s).Plain file := by
  unfold addDeclaration
  split
  · next kind declarators =>
    have hall := Script.declaratorsNamed_iff.1 hs
    exact hplain.foldl fun h d hd hplain => plain_addVariable kind hplain (hall d hd)
  · next f =>
    refine hplain.addCandidate fun k hk => ?_
    obtain ⟨name, hname, hk⟩ := Option.bind_eq_some_iff.1 hk
    obtain ⟨n, params, rest, body⟩ := f
    -- A function that is declared has a name of the script.
    exact plain_component? (.inl (hs.1 name hname)) hs k hk
  · exact hplain

/-- Prop types are assigned to a member of a component with a name of the script. -/
theorem isWord_of_propTypesOf? {target : Expr} (ht : target.Named IsTagName)
    (hname : propTypesOf? target = some name) : IsWord name.toList := by
  have hbare := ht.bare
  unfold propTypesOf? at hname
  -- `propTypes` is a member of a name, and this name is one of the target.
  revert hname hbare
  cases target.bare with
  | mk text form =>
    intro hname hbare
    split at hname
    · next object hform =>
      cases hform
      obtain ⟨_, form⟩ := object
      split at hname
      · next n hobject =>
        cases hobject
        cases hname
        exact hbare
      · cases hname
    · cases hname

/-- So they are kept under such a name. -/
theorem plain_addPropTypes (hplain : h.Plain file) {e : Expr} (he : e.Named IsTagName) :
    (h.addPropTypes e).Plain file := by
  obtain ⟨text, form⟩ := e
  unfold addPropTypes
  split
  · next target value hform =>
    cases hform
    split
    · next name properties hname _ =>
      have htarget : target.Named IsTagName := he
      -- Only the required names change, and by this one name.
      refine { hplain with required := fun n hn => ?_ }
      rw [Dict.get?_insert] at hn
      split at hn
      · next heq => exact heq ▸ isWord_of_propTypesOf? htarget hname
      · exact hplain.required n hn
    · exact hplain
  · exact hplain

/-- A default export is named in the script, or after the file. -/
theorem plain_addDefault (hplain : h.Plain file) {e : Expr} (he : e.Named IsTagName) :
    (h.addDefault file e).Plain file := by
  obtain ⟨text, form⟩ := e
  unfold addDefault
  split
  · -- A default without a name takes that of the file, which `Candidate.Plain` allows.
    next f hform =>
    cases hform
    exact hplain.addCandidate (plain_candidate? (.inr rfl) he)
  · next name hform =>
    cases hform
    refine { hplain with defaultName := fun n hn => ?_ }
    cases hn
    exact he
  · exact hplain

/-- The same of a function that is exported where it is declared. -/
theorem plain_addDefaultFunction (hplain : h.Plain file) (hf : f.Named IsTagName) :
    (h.addDefaultFunction file f).Plain file := by
  obtain ⟨name, params, rest, body⟩ := f
  refine hplain.addCandidate (plain_component? ?_ hf)
  cases name with
  | none => exact .inr rfl
  | some n => exact .inl (hf.1 n rfl)

/-- One step of the first pass. -/
theorem plain_add (hplain : h.Plain file) {item : Item} (hitem : item.Named IsTagName) :
    (h.add file item).Plain file := by
  unfold add
  -- One case for each kind of item that is harvested.
  split
  · exact hplain.foldl fun h n _ hplain => plain_addImport _ hplain n
  · exact plain_addPropTypes hplain hitem
  · exact plain_addDeclaration hplain hitem
  · exact plain_addDeclaration hplain hitem
  · exact plain_addDefaultFunction hplain hitem
  · exact plain_addDefault hplain hitem
  · exact hplain

end Harvest

/-- The whole first pass, by induction on the items of the module. -/
theorem plain_harvest {file : Option Path} {source : String} {m : Module}
    (h : Module.parse? source = some m) : (harvest file m).Plain file := by
  have hitems := Script.named_of_parse? h
  have hempty : ({} : Harvest).Plain file := ⟨nofun, nofun, nofun, nofun, nofun⟩
  exact hempty.foldl fun h item hitem hplain => Harvest.plain_add hplain (hitems item hitem)

end Lower

/-- **The bodies of the components of a source are built by lowering.** -/
theorem built_body {P : List Node → Prop} (hP : Lower.BuildsNodes Script.IsTagName P)
    {file : Option Path} {source : String} {l : Lowered}
    (h : Lowered.ofSource file source = .ok l) {c : Component}
    (hc : c ∈ l.table.components.values) : P c.body := by
  obtain ⟨m, -, hm, htable, -, -⟩ := Lowered.ofSource_ok h
  rw [htable] at hc
  -- The body is what a candidate of the module returns.
  obtain ⟨k, hk, hbody⟩ := Lower.Harvest.exists_candidate_of_mem hc
  rw [hbody]
  exact Lower.built_returned hP.builds ((Lower.plain_harvest hm).candidates k hk).function
    (Lower.reads_harvest file m k hk)

end Stencil
