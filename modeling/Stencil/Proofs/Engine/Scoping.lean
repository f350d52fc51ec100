import Mathlib.Logic.Function.Basic
import Stencil.Proofs.Engine.Block

/-!
# The scope of props

A call is inlined with the means of the engine: EJS writes a function around the body and calls it
with the values of the props, Pug and Liquid assign the values in front of the body. This module
renders the lines and says which environment each of them sees.

* `Interpretation` — what the words of a template mean in an environment;
* `renderAll` — renders blocks. A `Rendering` lists the lines that are rendered, each with the
  environment it is rendered in, and the assignments that stay in effect;
* `within_renderAll` — the lines bound what rendering can do: it assigns what a line assigns, and
  names that no line binds keep their values everywhere;
* `Engine.given`, `Engine.left` — what a call gives to its props, and the environment after it;
* `render_scope` — what is rendered for a call is the body, where the props are given.

The main theorem is `inlined_scoping`. Only EJS keeps the scope of a call to itself, and not even
EJS keeps it from the children that fill a slot: they are rendered where the slot is, so a prop can
capture a name of the caller (`title_captured_by_call`).
-/

namespace Stencil

section

variable {V : Type}

/-! ### Environments -/

/-- The values of names. -/
abbrev Env (V : Type) := String → V

/-- The environment with names bound on top of it. The last binding of a name counts. -/
def bindAll (s : Env V) : List (String × V) → Env V
  | [] => s
  | (name, v) :: rest => bindAll (Function.update s name v) rest

/-- Bindings are made one after the other. -/
theorem bindAll_append (s : Env V) (as bs : List (String × V)) :
    bindAll s (as ++ bs) = bindAll (bindAll s as) bs := by
  induction as generalizing s with
  | nil => rfl
  | cons a as ih => exact ih _

/-- A name that is not bound keeps its value. -/
theorem bindAll_of_notMem {s : Env V} {bs : List (String × V)} {x : String}
    (h : x ∉ bs.map Prod.fst) : bindAll s bs x = s x := by
  induction bs generalizing s with
  | nil => rfl
  | cons b bs ih =>
    rw [List.map_cons, List.mem_cons, not_or] at h
    rw [bindAll, ih h.2, Function.update_of_ne h.1]

/-- One round of a loop. -/
structure Round (V : Type) where
  item : V
  position : V
  /-- What the engine itself tells about the round. -/
  status : V

/-- What the words of a template mean when it is rendered. -/
structure Interpretation (V : Type) where
  value : String → Env V → V
  holds : String → Env V → Bool
  /-- The rounds of a loop over a value. -/
  rounds : V → List (Round V)
  /-- The name under which a loop tells about its rounds, if the engine has one. -/
  statusName : Option String

namespace Interpretation

variable (I : Interpretation V)

/-- The words mean the same whatever the name stands for. -/
def Ignores (words name : String) : Prop :=
  ∀ (s : Env V) (v : V), I.value words (Function.update s name v) = I.value words s

/-- What a loop over `source` binds in a round. -/
def round (item : String) (index array : Option String) (source : V) (r : Round V) :
    List (String × V) :=
  I.statusName.toList.map (·, r.status) ++
    (item, r.item) :: (index.toList.map (·, r.position) ++ array.toList.map (·, source))

end Interpretation

/-! ### Rendering -/

/-- A line that is rendered, and the environment that its words, and those of its attributes, are
read in. -/
structure Sight (V : Type) where
  mark : Mark
  env : Env V

/-- What comes of rendering lines: what is rendered, and what is assigned, both in order. -/
structure Rendering (V : Type) where
  sights : List (Sight V)
  assigned : List (String × V)

namespace Rendering

/-- Nothing is rendered. -/
def empty : Rendering V := ⟨[], []⟩

/-- A line is rendered first. -/
def see (r : Rendering V) (m : Mark) (s : Env V) : Rendering V :=
  { r with sights := ⟨m, s⟩ :: r.sights }

/-- Rendering goes on, in the environment that the assignments so far leave. -/
def andThen (r : Rendering V) (s : Env V) (next : Env V → Rendering V) : Rendering V :=
  let after := next (bindAll s r.assigned)
  ⟨r.sights ++ after.sights, r.assigned ++ after.assigned⟩

/-- A body is rendered in each of the rounds. What a round binds is gone after it, and what is
assigned in it stays. -/
def inRounds (body : Env V → Rendering V) : List (List (String × V)) → Env V → Rendering V
  | [], _ => empty
  | r :: rest, s => (body (bindAll s r)).andThen s (inRounds body rest)

/-- Rendering nothing leaves the environment to what comes next. -/
theorem empty_andThen (s : Env V) (next : Env V → Rendering V) :
    empty.andThen s next = next s := rfl

/-- Sequences of renderings do not depend on how they are grouped. -/
theorem andThen_assoc (r : Rendering V) (s : Env V) (f g : Env V → Rendering V) :
    (r.andThen s f).andThen s g = r.andThen s fun s => (f s).andThen s g := by
  simp only [andThen, bindAll_append, List.append_assoc]

end Rendering

mutual

/-- Renders a block. An assignment is in effect from there on, and the parameters of a function are
bound inside it, to values from the outside. -/
def Block.render (I : Interpretation V) : Block → Env V → Rendering V
  | .part (.bound name (some words)), s => ⟨[], [(name, I.value words s)]⟩
  | .part o, s => Rendering.empty.see (.part o) s
  | .enclosed (.element tag) inside _, s =>
    (renderAll I inside s).see (.start (.element tag)) s
  | .enclosed (.test words negated) inside _, s =>
    (if I.holds words s ^^ negated then renderAll I inside s else .empty).see
      (.start (.test words negated)) s
  | .enclosed (.loop item source index array) inside _, s =>
    let elements := I.value source s
    let rounds := (I.rounds elements).map (I.round item index array elements)
    (Rendering.inRounds (renderAll I inside) rounds s).see
      (.start (.loop item source index array)) s
  | .enclosed (.scope names) inside (.scope values), s =>
    renderAll I inside (bindAll s (names.zip (values.map (I.value · s))))
  | .enclosed (.scope _) _ _, _ => .empty
  | .divided words negated first second _, s =>
    (if I.holds words s ^^ negated then renderAll I first s else renderAll I second s).see
      (.start (.test words negated)) s

/-- Renders blocks one after another. -/
def renderAll (I : Interpretation V) : List Block → Env V → Rendering V
  | [], _ => .empty
  | b :: rest, s => (b.render I s).andThen s (renderAll I rest)

end

/-- Blocks side by side are rendered one after the other, in the environment that the first
leave. -/
theorem renderAll_append (I : Interpretation V) (as bs : List Block) (s : Env V) :
    renderAll I (as ++ bs) s = (renderAll I as s).andThen s (renderAll I bs) := by
  induction as generalizing s with
  | nil => rw [List.nil_append, renderAll, Rendering.empty_andThen]
  | cons a as ih =>
    rw [List.cons_append, renderAll, renderAll, Rendering.andThen_assoc]
    congr 1
    funext s
    exact ih s

/-! ### What rendering binds -/

/-- The names that a line assigns. -/
def Mark.assigned : Mark → List String
  | .part (.bound name _) => [name]
  | _ => []

/-- The names that a line binds, for good or for what is inside. -/
def Mark.names (I : Interpretation V) : Mark → List String
  | .part (.bound name _) => [name]
  | .start (.loop item _ index array) =>
    I.statusName.toList ++ item :: (index.toList ++ array.toList)
  | .start (.scope names) => names
  | _ => []

/-- What a mark assigns is among the names that it binds. -/
theorem Mark.assigned_subset_names (I : Interpretation V) (m : Mark) :
    m.assigned ⊆ m.names I := by
  unfold Mark.assigned
  split
  · exact List.Subset.refl _
  · exact List.nil_subset _

/-- A round of a loop binds the names that its opening mark declares. -/
theorem Interpretation.map_fst_round (I : Interpretation V) (item source : String)
    (index array : Option String) (elements : V) (r : Round V) :
    (I.round item index array elements r).map Prod.fst
      = Mark.names I (.start (.loop item source index array)) := by
  simp only [round, Mark.names, List.map_append, List.map_cons, List.map_map,
    Function.comp_def, List.map_id']

/-- Rendering stays within bounds: it assigns names with the first property only, and whatever it
renders, it renders in an environment with the old values of names with the second property. -/
structure Rendering.Within (assigned kept : String → Prop) (s : Env V) (r : Rendering V) :
    Prop where
  assigned : ∀ a ∈ r.assigned, assigned a.1
  kept : ∀ sight ∈ r.sights, ∀ x, kept x → sight.env x = s x

namespace Rendering

variable {P Q : String → Prop} {s : Env V}

/-- Rendering nothing stays within all bounds. -/
theorem within_empty : (empty : Rendering V).Within P Q s where
  assigned _ h := absurd h List.not_mem_nil
  kept _ h := absurd h List.not_mem_nil

namespace Within

/-- Rendering a mark in the environment at hand stays within bounds. -/
theorem see {r : Rendering V} (h : r.Within P Q s) (m : Mark) : (r.see m s).Within P Q s where
  assigned := h.assigned
  kept sight hsight x hx := by
    rcases List.mem_cons.1 hsight with rfl | hsight
    · rfl
    · exact h.kept sight hsight x hx

/-- What holds in an environment with the same values holds here. -/
theorem of_eq {s' : Env V} {r : Rendering V} (h : r.Within P Q s')
    (heq : ∀ x, Q x → s' x = s x) : r.Within P Q s where
  assigned := h.assigned
  kept sight hsight x hx := by rw [h.kept sight hsight x hx, heq x hx]

/-- Names that may not be assigned keep their value through a rendering within bounds. -/
theorem bindAll_eq (hdisjoint : ∀ x, Q x → ¬P x) {r : Rendering V} (h : r.Within P Q s) {x : String}
    (hx : Q x) : bindAll s r.assigned x = s x := by
  refine bindAll_of_notMem fun hmem => hdisjoint x hx ?_
  obtain ⟨a, ha, rfl⟩ := List.mem_map.1 hmem
  exact h.assigned a ha

/-- A sequence stays within bounds if both parts do, wherever they start. -/
theorem andThen (hdisjoint : ∀ x, Q x → ¬P x) {r : Rendering V} {next : Env V → Rendering V}
    (h : r.Within P Q s) (hnext : ∀ s, (next s).Within P Q s) :
    (r.andThen s next).Within P Q s := by
  have hafter : (next (bindAll s r.assigned)).Within P Q s :=
    (hnext _).of_eq fun x hx => h.bindAll_eq hdisjoint hx
  refine ⟨fun a ha => ?_, fun sight hsight => ?_⟩
  · exact (List.mem_append.1 ha).elim (h.assigned a) (hafter.assigned a)
  · exact (List.mem_append.1 hsight).elim (h.kept sight) (hafter.kept sight)

/-- So do the rounds of a loop, if their own names are not to be kept. -/
theorem inRounds (hdisjoint : ∀ x, Q x → ¬P x) {body : Env V → Rendering V}
    (h : ∀ s, (body s).Within P Q s) :
    ∀ {rounds : List (List (String × V))}, (∀ r ∈ rounds, ∀ x ∈ r.map Prod.fst, ¬Q x) →
      ∀ s, (Rendering.inRounds body rounds s).Within P Q s
  | [], _, s => within_empty
  | r :: rest, hrounds, s => by
    -- The names of a round are none of those that the body must find unchanged.
    have hround : (body (bindAll s r)).Within P Q s := by
      refine (h _).of_eq fun x hx => bindAll_of_notMem fun hmem => ?_
      exact hrounds r List.mem_cons_self x hmem hx
    refine hround.andThen hdisjoint ?_
    exact inRounds hdisjoint h fun r hr => hrounds r (List.mem_cons_of_mem _ hr)

end Within

end Rendering

section

open Block Rendering

variable {P Q : String → Prop}

mutual

/-- A block assigns what its lines assign, and it keeps what none of its lines binds. -/
theorem Block.within_render (hdisjoint : ∀ x, Q x → ¬P x) (I : Interpretation V) : ∀ (b : Block),
    (∀ m ∈ b.marks, ∀ x ∈ m.assigned, P x) → (∀ m ∈ b.marks, ∀ x ∈ m.names I, ¬Q x) →
    ∀ s : Env V, (b.render I s).Within P Q s
  | .part (.bound name (some words)), hP, _, s => by
    rw [Block.render]
    refine ⟨fun a ha => ?_, fun _ h => absurd h List.not_mem_nil⟩
    rw [List.mem_singleton.1 ha]
    exact hP _ List.mem_cons_self _ List.mem_cons_self
  | .part (.bound name none), _, _, s => within_empty.see _
  | .part (.element tag inside), _, _, s => within_empty.see _
  | .part (.text value), _, _, s => within_empty.see _
  | .part (.value words), _, _, s => within_empty.see _
  | .part (.loop item source inside), _, _, s => within_empty.see _
  | .part (.choice test yes no), _, _, s => within_empty.see _
  | .enclosed opening inside closing, hP, hQ, s => by
    rw [Block.marks, List.forall_mem_cons, List.forall_mem_append] at hP hQ
    have hinside := within_renderAll hdisjoint I inside hP.2.1 hQ.2.1
    cases opening with
    | element tag =>
      rw [Block.render]
      exact (hinside s).see _
    | test words negated =>
      rw [Block.render]
      refine Within.see ?_ _
      split
      · exact hinside s
      · exact within_empty
    | loop item source index array =>
      rw [Block.render]
      -- Every round binds the names of the line and no others.
      refine Within.see (Within.inRounds hdisjoint hinside (fun r hr => ?_) s) _
      obtain ⟨round, -, rfl⟩ := List.mem_map.1 hr
      rw [I.map_fst_round item source]
      exact hQ.1
    | scope names =>
      cases closing with
      | scope values =>
        rw [Block.render]
        refine (hinside _).of_eq fun x hx => bindAll_of_notMem fun hmem => hQ.1 x ?_ hx
        obtain ⟨a, ha, rfl⟩ := List.mem_map.1 hmem
        exact (List.of_mem_zip ha).1
      | element | test | loop | indent => exact within_empty
  | .divided words negated first second closing, hP, hQ, s => by
    rw [Block.marks, List.forall_mem_cons, List.forall_mem_append, List.forall_mem_cons,
      List.forall_mem_append] at hP hQ
    rw [Block.render]
    refine Within.see ?_ _
    split
    · exact within_renderAll hdisjoint I first hP.2.1 hQ.2.1 s
    · exact within_renderAll hdisjoint I second hP.2.2.2.1 hQ.2.2.2.1 s

/-- Blocks stay within bounds if their marks do, by induction on the blocks. -/
theorem within_renderAll (hdisjoint : ∀ x, Q x → ¬P x) (I : Interpretation V) :
    ∀ (bs : List Block), (∀ m ∈ marksAll bs, ∀ x ∈ m.assigned, P x) →
    (∀ m ∈ marksAll bs, ∀ x ∈ m.names I, ¬Q x) → ∀ s : Env V, (renderAll I bs s).Within P Q s
  | [], _, _, s => within_empty
  | b :: bs, hP, hQ, s => by
    rw [marksAll, List.forall_mem_append] at hP hQ
    rw [renderAll]
    exact (Block.within_render hdisjoint I b hP.1 hQ.1 s).andThen hdisjoint
      (within_renderAll hdisjoint I bs hP.2 hQ.2)

end

end

/-! ### Bindings of a call -/

namespace Engine

variable (e : Engine) (I : Interpretation V)

/-- What a call passes, each value as it is in the environment of the call. -/
def passed (s : Env V) (bindings : List Binding) : List (String × V) :=
  bindings.map fun b => (b.name, I.value (e.vocabulary.binding b) s)

/-- What a call assigns one by one, each value as it is after the assignments before it. -/
def assignedInTurn : Env V → List Binding → List (String × V)
  | _, [] => []
  | s, b :: rest =>
    let v := I.value (e.vocabulary.binding b) s
    (b.name, v) :: assignedInTurn (Function.update s b.name v) rest

/-- What a call gives to its props. -/
def given (s : Env V) (bindings : List Binding) : List (String × V) :=
  match e with
  | .ejs => e.passed I s bindings
  | .pug | .liquid => e.assignedInTurn I s bindings

/-- The environment after a call that gives and then assigns what is listed. Parameters end with
their function, and assignments stay. -/
def left (s : Env V) (given assigned : List (String × V)) : Env V :=
  match e with
  | .ejs => s
  | .pug | .liquid => bindAll s (given ++ assigned)

variable {e I}

/-- Assigning in turn assigns the names of the bindings. -/
theorem map_fst_assignedInTurn (s : Env V) (bindings : List Binding) :
    (e.assignedInTurn I s bindings).map Prod.fst = bindings.map (·.name) := by
  induction bindings generalizing s with
  | nil => rfl
  | cons b bs ih => rw [assignedInTurn, List.map_cons, ih, List.map_cons]

/-- A call gives the names of its bindings. -/
theorem map_fst_given (s : Env V) (bindings : List Binding) :
    (e.given I s bindings).map Prod.fst = bindings.map (·.name) := by
  cases e with
  | ejs => rw [given, passed, List.map_map, Function.comp_def]
  | pug | liquid => exact map_fst_assignedInTurn s bindings

/-- A new value for a name that no binding reads passes the same values on. -/
theorem passed_update {s : Env V} {name : String} {bindings : List Binding}
    (h : ∀ b ∈ bindings, I.Ignores (e.vocabulary.binding b) name) (v : V) :
    e.passed I (Function.update s name v) bindings = e.passed I s bindings := by
  refine List.map_congr_left fun b hb => ?_
  rw [h b hb]

/-- **In turn is at once** where no value reads a prop that is assigned before it. -/
theorem assignedInTurn_eq_passed {bindings : List Binding}
    (h : bindings.Pairwise fun b b' => I.Ignores (e.vocabulary.binding b') b.name) (s : Env V) :
    e.assignedInTurn I s bindings = e.passed I s bindings := by
  induction bindings generalizing s with
  | nil => rfl
  | cons b bs ih =>
    obtain ⟨hb, hbs⟩ := List.pairwise_cons.1 h
    rw [assignedInTurn, ih hbs, passed_update hb]
    rfl

/-- Where no binding reads a name that an earlier one assigned, assigning in turn gives what was
passed. -/
theorem given_eq_passed {bindings : List Binding}
    (h : bindings.Pairwise fun b b' => I.Ignores (e.vocabulary.binding b') b.name) (s : Env V) :
    e.given I s bindings = e.passed I s bindings := by
  cases e with
  | ejs => rfl
  | pug | liquid => exact assignedInTurn_eq_passed h s

end Engine

/-- Assignments show nothing and assign in turn. -/
theorem renderAll_assignments (e : Engine) (I : Interpretation V) (bindings : List Binding)
    (s : Env V) : renderAll I (assignments e.vocabulary bindings) s
      = ⟨[], e.assignedInTurn I s bindings⟩ := by
  induction bindings generalizing s with
  | nil => rfl
  | cons b bs ih =>
    have hrest := ih (Function.update s b.name (I.value (e.vocabulary.binding b) s))
    rw [assignments] at hrest ⊢
    rw [List.map_cons, List.map_cons, renderAll, Block.render, Rendering.andThen, bindAll, bindAll,
      hrest]
    rfl

/-! ### What is rendered for a call -/

/-- A script binds the props by a function, so no line of it assigns. -/
theorem Ejs.assigned_mark (d : Ejs.Directive) : d.mark.assigned = [] := by
  cases d <;> rfl

/-- EJS assigns nothing. -/
theorem Ejs.assigned_renderAll {level : Nat} {ps : List Piece} {bs : List Block}
    (h : Engine.ejs.Writes level ps bs) (I : Interpretation V) (s : Env V) :
    (renderAll I bs s).assigned = [] := by
  have hmarks : ∀ m ∈ Block.marksAll bs, ∀ x ∈ m.assigned, False := by
    intro m hm x hx
    rw [h] at hm
    obtain ⟨l, -, rfl⟩ := List.mem_map.1 hm
    rw [Ejs.assigned_mark] at hx
    cases hx
  -- Nothing is asked of the environments here.
  have hwithin : (renderAll I bs s).Within (fun _ => False) (fun _ => False) s :=
    within_renderAll (fun _ h _ => h) I bs hmarks (fun _ _ _ _ h => h) s
  exact List.eq_nil_iff_forall_not_mem.2 hwithin.assigned

/-- The arguments of that function are the values that the call passes. -/
theorem zip_map_value (I : Interpretation V) (s : Env V) (bindings : List Binding) :
    (bindings.map (·.name)).zip ((bindings.map (·.script)).map (I.value · s))
      = Engine.ejs.passed I s bindings := by
  rw [List.map_map, List.zip_map']
  rfl

/-- **What is rendered for a call is the body**, in an environment where the props are given what
the call gives them. -/
theorem render_scope {e : Engine} {level : Nat} {bindings : List Binding} {body : List Piece}
    {call : List Block} (h : e.Writes level [.scope bindings body] call) :
    ∃ inner inside, e.Writes inner body inside ∧ ∀ (I : Interpretation V) (s : Env V),
      let called := renderAll I inside (bindAll s (e.given I s bindings))
      (renderAll I call s).sights = called.sights ∧
      bindAll s (renderAll I call s).assigned
        = e.left s (e.given I s bindings) called.assigned := by
  cases e with
  | ejs =>
    rcases Ejs.writes_scope h with ⟨rfl, hbody⟩ | ⟨inside, hinside, rfl⟩
    -- Without props there is no function, and nothing to bind either.
    · refine ⟨level, call, hbody, fun I s => ⟨rfl, ?_⟩⟩
      rw [Ejs.assigned_renderAll hbody]
      rfl
    · refine ⟨level + 1, inside, hinside, fun I s => ?_⟩
      rw [Ejs.assigned_renderAll h, renderAll, Block.render, zip_map_value]
      exact ⟨List.append_nil _, rfl⟩
  | pug =>
    obtain ⟨inside, hinside, rfl⟩ := Pug.writes_scope h
    refine ⟨level, inside, hinside, fun I s => ?_⟩
    have hassigned := renderAll_assignments .pug I bindings s
    rw [Engine.vocabulary] at hassigned
    rw [renderAll_append, hassigned]
    exact ⟨rfl, rfl⟩
  | liquid =>
    obtain ⟨inside, hinside, rfl⟩ := Liquid.writes_scope h
    refine ⟨level, inside, hinside, fun I s => ?_⟩
    have hassigned := renderAll_assignments .liquid I bindings s
    rw [Engine.vocabulary] at hassigned
    rw [renderAll_append, hassigned]
    exact ⟨rfl, rfl⟩

/-! ### Sites -/

/-- **The blocks that the lines of an engine form for a site.** -/
def Engine.Forms (e : Engine) (t : Table) (level : Nat) (site : Site) (bs : List Block) : Prop :=
  ∃ ps, Lays t site ps ∧ e.Writes level ps bs

/-- A site has one layout. -/
theorem Lays.unique {t : Table} {site : Site} {ps qs : List Piece} (hp : Lays t site ps)
    (hq : Lays t site qs) : ps = qs := by
  rw [← piecesInCalls_of_lays hp (Nat.le_refl _), ← piecesInCalls_of_lays hq (Nat.le_refl _)]

/-- And an engine writes it as one list of blocks. -/
theorem Engine.Forms.unique {e : Engine} {t : Table} {level : Nat} {site : Site}
    {as bs : List Block} (ha : e.Forms t level site as) (hb : e.Forms t level site bs) :
    as = bs := by
  obtain ⟨ps, hps, has⟩ := ha
  obtain ⟨qs, hqs, hbs⟩ := hb
  obtain rfl := hps.unique hqs
  exact has.unique hbs

/-- EJS and Pug have words for everything. -/
theorem Engine.exists_forms {e : Engine} {t : Table} {level : Nat} (he : e ≠ .liquid)
    (site : Site) : ∃ bs, e.Forms t level site bs := by
  obtain ⟨ps, hps⟩ := exists_lays t site
  have hwrites : ∃ bs, e.Writes level ps bs := by
    -- The other engines can write every layout.
    cases e with
    | ejs => exact Ejs.exists_writes ps
    | pug => exact Pug.exists_writes ps
    | liquid => exact absurd rfl he
  obtain ⟨bs, hbs⟩ := hwrites
  exact ⟨bs, ps, hps, hbs⟩

/-- An engine forms blocks for a tree exactly where it comes to a template. -/
theorem Engine.exists_forms_site_iff {e : Engine} {t : Table} {level : Nat} {n : Node} :
    (∃ bs, e.Forms t level n.site bs) ↔ ∃ text, (e.generate level n t).result = .ok text := by
  rw [Engine.generate, ← Engine.exists_writes_iff]
  constructor
  · rintro ⟨bs, ps, hps, hbs⟩
    obtain rfl := lays_site_iff.1 hps
    exact ⟨bs, hbs⟩
  · rintro ⟨bs, hbs⟩
    exact ⟨bs, _, lays_site_iff.2 rfl, hbs⟩

/-- A call that is inlined is written as a scope around the body, and the siblings follow. -/
theorem Engine.forms_call {e : Engine} {t : Table} {level : Nat} {stack : List String}
    {slots : List (List Node)} {tag : String} {attributes : List Attribute} {cs ns : List Node}
    {c : Component} {bs : List Block} (hresolve : t.resolve? tag = some c) (hnot : tag ∉ stack)
    (h : e.Forms t level ⟨stack, slots, .element tag attributes cs :: ns⟩ bs) :
    ∃ body call rest, Lays t ⟨tag :: stack, cs :: slots, c.body⟩ body ∧ bs = call ++ rest ∧
      e.Writes level [.scope (c.signature.bind attributes) body] call ∧
      e.Forms t level ⟨stack, slots, ns⟩ rest := by
  obtain ⟨ps, hps, hbs⟩ := h
  -- A tag that names a component that is not open is inlined, and its scope is the first piece.
  cases hps with
  | plain hnone =>
    rw [hresolve] at hnone
    cases hnone
  | recursive _ hmem => exact absurd hmem hnot
  | @inlined _ _ _ _ _ _ c' body qs hresolve' _ hbody hns =>
    obtain rfl := Option.some.inj (hresolve'.symm.trans hresolve)
    rw [← List.singleton_append, Engine.writes_append_iff] at hbs
    obtain ⟨call, rest, rfl, hcall, hrest⟩ := hbs
    exact ⟨body, call, rest, hbody, rfl, hcall, qs, hns, hrest⟩

/-- A slot is written as the children of the call, and the siblings follow. -/
theorem Engine.forms_slot {e : Engine} {t : Table} {level : Nat} {stack : List String}
    {slot : List Node} {outer : List (List Node)} {code : Code} {ns : List Node}
    {bs : List Block} (hslot : isChildrenSlot code = true)
    (h : e.Forms t level ⟨stack, slot :: outer, .interpolation code :: ns⟩ bs) :
    ∃ children rest, bs = children ++ rest ∧ e.Forms t level ⟨stack, outer, slot⟩ children ∧
      e.Forms t level ⟨stack, slot :: outer, ns⟩ rest := by
  obtain ⟨ps, hps, hbs⟩ := h
  cases hps with
  | @slot _ _ _ _ _ cs qs _ hcs hns =>
    rw [Engine.writes_append_iff] at hbs
    obtain ⟨children, rest, rfl, hchildren, hrest⟩ := hbs
    exact ⟨children, rest, rfl, ⟨cs, hcs, hchildren⟩, qs, hns, hrest⟩
  | interpolation hplain =>
    -- The code is that of the slot, and the slot is filled.
    rcases hplain with hplain | hplain
    · rw [hslot] at hplain
      cases hplain
    · cases hplain

/-- **A name that no line binds keeps its value** wherever the lines are rendered, and after
them. -/
theorem kept_of_not_bound {I : Interpretation V} {s : Env V} {given : List (String × V)}
    {body : List Block} {x : String} (hgiven : x ∉ given.map Prod.fst)
    (hbody : ∀ m ∈ Block.marksAll body, x ∉ m.names I) (e : Engine) :
    (∀ sight ∈ (renderAll I body (bindAll s given)).sights, sight.env x = s x) ∧
      e.left s given (renderAll I body (bindAll s given)).assigned x = s x := by
  have hassigned : ∀ m ∈ Block.marksAll body, ∀ y ∈ m.assigned, y ≠ x := by
    rintro m hm y hy rfl
    exact hbody m hm (Mark.assigned_subset_names I m hy)
  have hnames : ∀ m ∈ Block.marksAll body, ∀ y ∈ m.names I, ¬y = x := by
    rintro m hm y hy rfl
    exact hbody m hm hy
  -- What keeps the name apart is that neither an assignment nor a binding of the lines is of it.
  have hwithin : (renderAll I body (bindAll s given)).Within (· ≠ x) (· = x) (bindAll s given) :=
    within_renderAll (fun _ h hne => hne h) I body hassigned hnames _
  have hold : bindAll s given x = s x := bindAll_of_notMem hgiven
  constructor
  · intro sight hsight
    rw [hwithin.kept sight hsight x rfl, hold]
  · -- EJS leaves `s` itself; the others leave what the call has given and assigned, and `x` is none
    -- of it.
    cases e with
    | ejs => rfl
    | pug | liquid =>
      rw [Engine.left, bindAll_append, hwithin.bindAll_eq (fun _ h hne => hne h) rfl, hold]

/-- **How a call binds its props.** For every engine, table and level:

* the lines for a site form blocks in at most one way, and they do so for every site in EJS and Pug,
  and for a tree in Liquid if there is a template for it;
* the lines of a call in an environment `s` render the body where the props are given, and then the
  siblings in what the call leaves. EJS gives every prop the value it has in `s` and leaves `s`. Pug
  and Liquid give the values one after another, and leave all that was assigned. This makes no
  difference to the body if no value reads a prop that is given before it. A name that no line of
  the call binds has its value of `s` wherever the call renders something, and after it;
* a slot renders the children of the call in the environment of the slot. -/
theorem inlined_scoping (e : Engine) (t : Table) (level : Nat) (I : Interpretation V) :
    (∀ site as bs, e.Forms t level site as → e.Forms t level site bs → as = bs) ∧
    (e ≠ .liquid → ∀ site, ∃ bs, e.Forms t level site bs) ∧
    (∀ n, (∃ bs, e.Forms t level n.site bs) ↔
      ∃ text, (e.generate level n t).result = .ok text) ∧
    (∀ stack slots tag attributes cs ns c bs, t.resolve? tag = some c → tag ∉ stack →
      e.Forms t level ⟨stack, slots, .element tag attributes cs :: ns⟩ bs →
      ∃ inner body rest, e.Forms t inner ⟨tag :: stack, cs :: slots, c.body⟩ body ∧
        e.Forms t level ⟨stack, slots, ns⟩ rest ∧
        ∀ s : Env V,
          let bindings := c.signature.bind attributes
          let given := e.given I s bindings
          let called := renderAll I body (bindAll s given)
          let left := e.left s given called.assigned
          let after := renderAll I rest left
          (renderAll I bs s).sights = called.sights ++ after.sights ∧
          bindAll s (renderAll I bs s).assigned = bindAll left after.assigned ∧
          ((bindings.Pairwise fun b b' => I.Ignores (e.vocabulary.binding b') b.name) →
            given = e.passed I s bindings) ∧
          ∀ x, x ∉ bindings.map (·.name) → (∀ m ∈ Block.marksAll body, x ∉ m.names I) →
            (∀ sight ∈ called.sights, sight.env x = s x) ∧ left x = s x) ∧
    (∀ stack slot outer code ns bs, isChildrenSlot code = true →
      e.Forms t level ⟨stack, slot :: outer, .interpolation code :: ns⟩ bs →
      ∃ children rest, e.Forms t level ⟨stack, outer, slot⟩ children ∧
        e.Forms t level ⟨stack, slot :: outer, ns⟩ rest ∧
        ∀ s : Env V, renderAll I bs s = (renderAll I children s).andThen s (renderAll I rest)) := by
  refine ⟨fun _ _ _ ha hb => ha.unique hb, Engine.exists_forms,
    fun _ => Engine.exists_forms_site_iff, ?_, ?_⟩
  · -- The blocks of a call are split from those of its siblings, and rendered as the scope says.
    intro stack slots tag attributes cs ns c bs hresolve hnot h
    obtain ⟨pieces, call, rest, hpieces, rfl, hcall, hrest⟩ := Engine.forms_call hresolve hnot h
    obtain ⟨inner, body, hbody, hrender⟩ := render_scope hcall
    refine ⟨inner, body, rest, ⟨pieces, hpieces, hbody⟩, hrest, fun s => ?_⟩
    intro bindings given called left after
    obtain ⟨hsights, hleft⟩ := hrender I s
    rw [renderAll_append, Rendering.andThen, hsights, hleft, bindAll_append, hleft]
    refine ⟨rfl, rfl, fun hignores => Engine.given_eq_passed hignores s, fun x hx hmarks => ?_⟩
    refine kept_of_not_bound ?_ hmarks e
    rw [Engine.map_fst_given]
    exact hx
  · -- A slot has no scope of its own: its children are written like siblings.
    intro stack slot outer code ns bs hslot h
    obtain ⟨children, rest, rfl, hchildren, hrest⟩ := Engine.forms_slot hslot h
    exact ⟨children, rest, hchildren, hrest, renderAll_append I children rest⟩

end

/-- Quoted words stand for what is quoted, and all other words for names. -/
def Interpretation.ofNames : Interpretation String where
  value words s :=
    match words.toList with
    | '"' :: rest => String.ofList rest.dropLast
    | _ => s words
  holds words s := s words == "true"
  rounds _ := []
  statusName := none

/-- A call whose second prop reads the name of the first one: Pug gives it the new value. -/
theorem inlined_scoping_earlier_prop :
    let pair : Component := ⟨{ name := "Pair", props := [⟨"a", false⟩, ⟨"b", false⟩] },
      [.interpolation ⟨"b"⟩], true, none⟩
    let n : Node := .element "Pair" [⟨"a", .literal "x", false⟩, ⟨"b", .dynamic ⟨"a"⟩, false⟩] []
    let t : Table := { components := Dict.ofList [("Pair", pair)] }
    ∃ bs inner body rest, Engine.pug.Forms t 0 n.site bs ∧
      Engine.pug.Forms t inner ⟨["Pair"], [[]], pair.body⟩ body ∧
      Engine.pug.Forms t 0 ⟨[], [], []⟩ rest ∧
      ∃ left, (renderAll .ofNames bs fun _ => "page").sights
        = (renderAll .ofNames body (bindAll (fun _ => "page") [("a", "x"), ("b", "x")])).sights
          ++ (renderAll .ofNames rest left).sights := by
  intro pair n t
  -- The call is the only node, so what follows it is the rest of an empty site.
  obtain ⟨-, hexists, -, hcall, -⟩ := inlined_scoping Engine.pug t 0 Interpretation.ofNames
  obtain ⟨bs, hbs⟩ := hexists (by decide) n.site
  obtain ⟨inner, body, rest, hbody, hrest, hrender⟩ :=
    hcall [] [] "Pair" _ [] [] pair bs rfl List.not_mem_nil hbs
  obtain ⟨hsights, -⟩ := hrender fun _ => "page"
  exact ⟨bs, inner, body, rest, hbs, hbody, hrest, _, hsights⟩

/-- **Props capture names of the caller.** The second prop of the call, its child and the value
after it are all written as `title`, which is `page` where the call stands. In EJS the child shows
the first prop instead, and in Pug all three do. -/
theorem title_captured_by_call :
    let card : Component :=
      ⟨{ name := "Card", props := [⟨"title", false⟩, ⟨"label", false⟩, ⟨"children", false⟩] },
        [.element "h1" [] [.interpolation ⟨"label"⟩, .interpolation ⟨"children"⟩]], true, none⟩
    let n : Node := .root
      [.element "Card"
          [⟨"title", .literal "x", false⟩, ⟨"label", .dynamic ⟨"title"⟩, false⟩]
          [.interpolation ⟨"title"⟩],
        .interpolation ⟨"title"⟩]
    let t : Table := { components := Dict.ofList [("Card", card)] }
    let seen (bs : List Block) : List (Mark × String × String) :=
      (renderAll .ofNames bs fun _ => "page").sights.map fun v =>
        (v.mark, v.env "title", v.env "label")
    let heading : Mark := .start (.element "h1")
    let label : Mark := .part (.value "label")
    let title : Mark := .part (.value "title")
    ∃ ejs pug, Engine.ejs.Forms t 0 n.site ejs ∧ Engine.pug.Forms t 0 n.site pug ∧
      seen ejs = [(heading, "x", "page"), (label, "x", "page"), (title, "x", "page"),
        (title, "page", "page")] ∧
      seen pug = [(heading, "x", "x"), (label, "x", "x"), (title, "x", "x"),
        (title, "x", "x")] := by
  intro card n t seen heading label title
  have hslot : isChildrenSlot ⟨"children"⟩ = true := by decide +kernel
  have htitle : isChildrenSlot ⟨"title"⟩ = false := by decide +kernel
  have hlabel : isChildrenSlot ⟨"label"⟩ = false := by decide +kernel
  -- The layout is that of the call, with its child in the slot, and of the value after it.
  have hlays : Lays t n.site
      [.scope [⟨"title", some (.literal "x")⟩, ⟨"label", some (.dynamic ⟨"title"⟩)⟩]
        [.element ⟨"h1", [], false, false⟩ [.interpolation ⟨"label"⟩, .interpolation ⟨"title"⟩]],
        .interpolation ⟨"title"⟩] := by
    have hchild : Lays t ⟨["Card"], [], [.interpolation ⟨"title"⟩]⟩ [.interpolation ⟨"title"⟩] :=
      .interpolation (.inl htitle) .nil
    have hbody : Lays t ⟨["Card"], [[.interpolation ⟨"title"⟩]], card.body⟩
        [.element ⟨"h1", [], false, false⟩
          [.interpolation ⟨"label"⟩, .interpolation ⟨"title"⟩]] :=
      .plain rfl (.interpolation (.inl hlabel) (.slot hslot hchild .nil)) .nil
    exact .root (.inlined rfl List.not_mem_nil hbody (.interpolation (.inl htitle) .nil)) .nil
  refine ⟨[.enclosed (.scope ["title", "label"])
      [.enclosed (.element "h1") [.part (.value "label"), .part (.value "title")]
        (.element "h1")] (.scope ["\"x\"", "title"]),
      .part (.value "title")],
    [.part (.bound "title" (some "\"x\"")), .part (.bound "label" (some "title")),
      .enclosed (.element "h1") [.part (.value "label"), .part (.value "title")] .indent,
      .part (.value "title")],
    ⟨_, hlays, rfl⟩, ⟨_, hlays, rfl⟩, rfl, rfl⟩

end Stencil
