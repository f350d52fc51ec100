import Stencil.Proofs.Engine.Nesting

/-!
# Lines as blocks

The lines of a template form blocks: a line that stands for itself, a construct around further
blocks, or a test around two lists of them. Every engine has its own way to show where a block ends,
and all of them come to the same blocks.

* `Block.marksAll` — the marks of blocks. Brackets never leave a choice of what they enclose
  (`Block.eq_of_marksAll`), so marks are those of one list of blocks at most;
* `WellNested.exists_blocks` — lines that are well nested by brackets form blocks;
* `Pug.Indents` — lines form blocks by their levels: whatever follows at the level or above it,
  `unindent` brackets them as these blocks and goes on with the rest;
* `Engine.Writes` — the blocks that the lines of an engine form for some pieces.

An engine writes blocks wherever it comes to a text (`Engine.exists_writes_iff`), it writes pieces
one after another (`Engine.writes_append_iff`), and what it writes for a scope is what it makes of
the bindings around, or in front of, what it writes for the body (`Ejs.writes_scope`,
`Pug.writes_scope`, `Liquid.writes_scope`).
-/

namespace Stencil

/-- A line, with what is inside the construct that it starts. -/
inductive Block where
  | part (o : Outline)
  | enclosed (opening : Opening) (inside : List Block) (closing : Closing)
  | divided (words : String) (negated : Bool) (first second : List Block) (closing : Closing)

/-- The mark goes on with the construct around it, or ends that construct. -/
def Mark.leaves : Mark → Bool
  | .otherwise | .stop _ => true
  | .part _ | .start _ => false

namespace Block

mutual

/-- The marks of a block. -/
def marks : Block → List Mark
  | .part o => [.part o]
  | .enclosed opening inside closing => .start opening :: (marksAll inside ++ [.stop closing])
  | .divided words negated first second closing =>
    .start (.test words negated) ::
      (marksAll first ++ .otherwise :: (marksAll second ++ [.stop closing]))

def marksAll : List Block → List Mark
  | [] => []
  | b :: rest => b.marks ++ marksAll rest

end

/-- The marks of blocks side by side stand side by side. -/
theorem marksAll_append (as bs : List Block) :
    marksAll (as ++ bs) = marksAll as ++ marksAll bs := by
  induction as with
  | nil => rfl
  | cons a as ih => rw [List.cons_append, marksAll, marksAll, ih, List.append_assoc]

/-- One block has its own marks. -/
theorem marksAll_singleton (b : Block) : marksAll [b] = b.marks := by
  rw [marksAll, marksAll, List.append_nil]

/-- A part that encloses nothing is one mark. -/
theorem marksAll_parts (os : List Outline) : marksAll (os.map .part) = os.map .part := by
  induction os with
  | nil => rfl
  | cons o os ih => rw [List.map_cons, marksAll, ih, marks, List.map_cons, List.singleton_append]

/-! ### Brackets leave no choice -/

/-- The marks do not go on inside the innermost construct. -/
def Leave (ms : List Mark) : Prop :=
  ∀ m ∈ ms.head?, m.leaves = true

/-- The end of the marks leaves whatever is open. -/
theorem leave_nil : Leave [] := by
  intro m hm
  cases hm

/-- So does a mark that ends or divides a block. -/
theorem leave_cons {m : Mark} (h : m.leaves = true) (ms : List Mark) : Leave (m :: ms) := by
  intro m' hm'
  cases hm'
  exact h

/-- A block does not begin by leaving another one. -/
theorem not_leave_marks (b : Block) (ms : List Mark) : ¬Leave (b.marks ++ ms) := by
  intro h
  cases b with
  | part o => cases h (.part o) rfl
  | enclosed opening inside closing => cases h (.start opening) rfl
  | divided words negated first second closing => cases h (.start (.test words negated)) rfl

/-- So before a mark that leaves there is no further block. -/
theorem eq_nil_of_leave {bs : List Block} {ms : List Mark} (h : Leave (marksAll bs ++ ms)) :
    bs = [] := by
  cases bs with
  | nil => rfl
  | cons b bs =>
    rw [marksAll, List.append_assoc] at h
    exact absurd h (not_leave_marks b _)

/-! The marks of blocks in front of further marks, one construct at a time. -/

/-- The marks of a part come before those of what follows. -/
theorem marksAll_part_append (o : Outline) (as : List Block) (ms : List Mark) :
    marksAll (.part o :: as) ++ ms = .part o :: (marksAll as ++ ms) := by
  rw [marksAll, marks, List.append_assoc, List.singleton_append]

/-- The marks of an enclosed block, taken apart: its opening, its inside, its closing. -/
theorem marksAll_enclosed_append (opening : Opening) (inside : List Block) (closing : Closing)
    (as : List Block) (ms : List Mark) : marksAll (.enclosed opening inside closing :: as) ++ ms
      = .start opening :: (marksAll inside ++ .stop closing :: (marksAll as ++ ms)) := by
  rw [marksAll, marks]
  simp only [List.cons_append, List.append_assoc, List.nil_append]

/-- The marks of a divided block, taken apart the same way. -/
theorem marksAll_divided_append (words : String) (negated : Bool) (first second : List Block)
    (closing : Closing) (as : List Block) (ms : List Mark) :
    marksAll (.divided words negated first second closing :: as) ++ ms
      = .start (.test words negated) :: (marksAll first ++
          .otherwise :: (marksAll second ++ .stop closing :: (marksAll as ++ ms))) := by
  rw [marksAll, marks]
  simp only [List.cons_append, List.append_assoc, List.nil_append]

/-- **Brackets leave no choice**: marks that begin with the marks of blocks, and then leave the
construct around them, begin with the marks of no other blocks. -/
theorem eq_of_marksAll_append : ∀ (as bs : List Block) (ms ns : List Mark),
    marksAll as ++ ms = marksAll bs ++ ns → Leave ms → Leave ns → as = bs ∧ ms = ns
  | [], bs, ms, ns, h, hms, _ => by
    rw [marksAll, List.nil_append] at h
    have hbs : bs = [] := eq_nil_of_leave (h ▸ hms)
    subst hbs
    exact ⟨rfl, h⟩
  | a :: as, [], ms, ns, h, _, hns => by
    rw [marksAll.eq_1, List.nil_append] at h
    cases eq_nil_of_leave (h ▸ hns)
  | .part o :: as, b :: bs, ms, ns, h, hms, hns => by
    rw [marksAll_part_append] at h
    cases b with
    | part o' =>
      rw [marksAll_part_append] at h
      obtain ⟨ho, hrest⟩ := List.cons_eq_cons.1 h
      cases ho
      obtain ⟨rfl, rfl⟩ := eq_of_marksAll_append as bs ms ns hrest hms hns
      exact ⟨rfl, rfl⟩
    | enclosed =>
      rw [marksAll_enclosed_append] at h
      cases (List.cons_eq_cons.1 h).1
    | divided =>
      rw [marksAll_divided_append] at h
      cases (List.cons_eq_cons.1 h).1
  | .enclosed opening inside closing :: as, b :: bs, ms, ns, h, hms, hns => by
    rw [marksAll_enclosed_append] at h
    cases b with
    | part =>
      rw [marksAll_part_append] at h
      cases (List.cons_eq_cons.1 h).1
    | enclosed opening' inside' closing' =>
      rw [marksAll_enclosed_append] at h
      obtain ⟨hopening, hinside⟩ := List.cons_eq_cons.1 h
      cases hopening
      obtain ⟨rfl, hstop⟩ := eq_of_marksAll_append inside inside' _ _ hinside (leave_cons rfl _)
        (leave_cons rfl _)
      obtain ⟨hclosing, hrest⟩ := List.cons_eq_cons.1 hstop
      cases hclosing
      obtain ⟨rfl, rfl⟩ := eq_of_marksAll_append as bs ms ns hrest hms hns
      exact ⟨rfl, rfl⟩
    | divided words negated first second closing' =>
      -- What is inside would have to be followed both by an end and by a second branch.
      rw [marksAll_divided_append] at h
      obtain ⟨-, hend⟩ := eq_of_marksAll_append inside first _ _ (List.cons_eq_cons.1 h).2
        (leave_cons rfl _) (leave_cons rfl _)
      cases (List.cons_eq_cons.1 hend).1
  | .divided words negated first second closing :: as, b :: bs, ms, ns, h, hms, hns => by
    rw [marksAll_divided_append] at h
    cases b with
    | part =>
      rw [marksAll_part_append] at h
      cases (List.cons_eq_cons.1 h).1
    | enclosed opening' inside' closing' =>
      rw [marksAll_enclosed_append] at h
      obtain ⟨-, hend⟩ := eq_of_marksAll_append first inside' _ _ (List.cons_eq_cons.1 h).2
        (leave_cons rfl _) (leave_cons rfl _)
      cases (List.cons_eq_cons.1 hend).1
    | divided words' negated' first' second' closing' =>
      rw [marksAll_divided_append] at h
      obtain ⟨htest, hfirst⟩ := List.cons_eq_cons.1 h
      cases htest
      obtain ⟨rfl, hotherwise⟩ := eq_of_marksAll_append first first' _ _ hfirst
        (leave_cons rfl _) (leave_cons rfl _)
      obtain ⟨rfl, hstop⟩ := eq_of_marksAll_append second second' _ _
        (List.cons_eq_cons.1 hotherwise).2 (leave_cons rfl _) (leave_cons rfl _)
      obtain ⟨hclosing, hrest⟩ := List.cons_eq_cons.1 hstop
      cases hclosing
      obtain ⟨rfl, rfl⟩ := eq_of_marksAll_append as bs ms ns hrest hms hns
      exact ⟨rfl, rfl⟩

/-- Marks are those of one list of blocks at most. -/
theorem eq_of_marksAll {as bs : List Block} (h : marksAll as = marksAll bs) : as = bs := by
  have happend : marksAll as ++ [] = marksAll bs ++ [] := by rw [h]
  exact (eq_of_marksAll_append as bs [] [] happend leave_nil leave_nil).1

end Block

/-! ### Lines that bracket -/

open Block in
/-- **Lines that are well nested by brackets form blocks.** -/
theorem WellNested.exists_blocks {δ : Type} {mark : δ → Mark} {end? : δ → Option δ} {level : Nat}
    {ls : List (Nat × δ)} (h : WellNested mark end? level ls) :
    ∃ bs, marksAll bs = ls.map fun l => mark l.2 := by
  -- By induction on the nesting: each construct has its blocks from the lines it encloses.
  induction h with
  | nil => exact ⟨[], rfl⟩
  | @part _ _ o _ hd _ ih =>
    obtain ⟨bs, hbs⟩ := ih
    refine ⟨.part o :: bs, ?_⟩
    rw [marksAll, hbs, List.map_cons, hd]
    rfl
  | @block _ _ _ opening closing _ _ hd _ hd' _ _ ihinside ihrest =>
    obtain ⟨inside, hinside⟩ := ihinside
    obtain ⟨bs, hbs⟩ := ihrest
    refine ⟨.enclosed opening inside closing :: bs, ?_⟩
    rw [marksAll, marks, hinside, hbs, List.map_cons, List.map_append, List.map_cons, hd, hd',
      List.cons_append, List.append_assoc, List.singleton_append]
  | @divided _ _ _ _ words negated closing _ _ _ hd he _ hd' _ _ _ ihfirst ihsecond ihrest =>
    obtain ⟨first, hfirst⟩ := ihfirst
    obtain ⟨second, hsecond⟩ := ihsecond
    obtain ⟨bs, hbs⟩ := ihrest
    refine ⟨.divided words negated first second closing :: bs, ?_⟩
    rw [marksAll, marks, hfirst, hsecond, hbs, List.map_cons, List.map_append, List.map_cons,
      List.map_append, List.map_cons, hd, he, hd', List.cons_append, List.append_assoc,
      List.cons_append, List.append_assoc, List.singleton_append]

/-! ### Lines that indent -/

namespace Pug

open Block

/-- **Lines form blocks by their levels**, the outermost at the given level. -/
structure Indents (level : Nat) (ls : List (Nat × Mark)) (bs : List Block) : Prop where
  starts : ∀ {rest : List (Nat × Mark)}, StartsBelow level rest → StartsBelow level (ls ++ rest)
  /-- Whatever follows at the level or above it, the blocks are bracketed in front of it. -/
  ends : ∀ {base : Nat} {opened : List Nat} {rest : List (Nat × Mark)},
    levelIn base opened = level → StartsBelow level rest →
    unindent base opened (ls ++ rest) = (unindent base opened rest).map (marksAll bs ++ ·)

namespace Indents

variable {level : Nat}

/-- Nothing is indented like nothing. -/
theorem nil : Indents level [] [] where
  starts h := h
  ends _ _ := by
    rw [List.nil_append, marksAll]
    exact Option.map_id'.symm

/-- What is indented like blocks, one after the other, is indented like the blocks side by side. -/
theorem append {as bs : List (Nat × Mark)} {cs ds : List Block} (ha : Indents level as cs)
    (hb : Indents level bs ds) : Indents level (as ++ bs) (cs ++ ds) where
  starts h := by
    rw [List.append_assoc]
    exact ha.starts (hb.starts h)
  -- The first blocks end where the second ones start, and those where the rest does.
  ends hlevel h := by
    rw [List.append_assoc, ha.ends hlevel (hb.starts h), hb.ends hlevel h, Option.map_map]
    congr 1
    funext ms
    rw [Function.comp_apply, marksAll_append, List.append_assoc]

/-- A mark at its own level begins below the level of what stands inside. -/
theorem startsBelow_of_bar {m : Mark} (h : m.bar level = level) (ls : List (Nat × Mark)) :
    StartsBelow level ((level, m) :: ls) := by
  intro l hl
  cases hl
  exact Nat.le_of_eq h

/-- A part on a line of its own. -/
theorem part (o : Outline) : Indents level [(level, .part o)] [.part o] where
  starts _ := startsBelow_of_bar rfl _
  ends hlevel _ := by
    rw [List.singleton_append, unindent_of_level hlevel, marksAll_singleton]
    rfl

/-- Parts on lines of their own. -/
theorem parts (os : List Outline) :
    Indents level (os.map fun o => (level, .part o)) (os.map .part) := by
  induction os with
  | nil => exact nil
  | cons o os ih => exact (part o).append ih

/-- A line that starts a block, and the lines below it. -/
theorem enclosed {opening : Opening} {ls : List (Nat × Mark)} {bs : List Block}
    (h : Indents (level + 1) ls bs) :
    Indents level ((level, .start opening) :: ls) [.enclosed opening bs .indent] where
  starts _ := startsBelow_of_bar rfl _
  -- The block goes on while lines stand deeper than its start.
  ends hlevel hrest := by
    rw [List.cons_append, unindent_of_level hlevel, Mark.blocks, h.ends rfl hrest.succ,
      unindent_stop hrest, Option.map_map, Option.map_map, marksAll_singleton, Block.marks]
    congr 1
    funext ms
    simp only [Function.comp_apply, List.cons_append, List.append_assoc, List.nil_append]

/-- A test with two branches. The line between them stands at the level of the test. -/
theorem divided {words : String} {negated : Bool} {ls ls' : List (Nat × Mark)}
    {first second : List Block} (hfirst : Indents (level + 1) ls first)
    (hsecond : Indents (level + 1) ls' second) :
    Indents level ((level, .start (.test words negated)) :: ls ++ (level, .otherwise) :: ls')
      [.divided words negated first second .indent] where
  starts _ := startsBelow_of_bar rfl _
  ends := by
    intro base opened rest hlevel hrest
    -- The line between the branches stands above what is inside them, so it ends the first one.
    have hdivide : StartsBelow (level + 1) ((level, .otherwise) :: (ls' ++ rest)) := by
      intro l hl
      cases hl
      exact Nat.le_refl _
    have hotherwise : levelIn base (level :: opened) = Mark.otherwise.bar level := rfl
    have hblocks : Mark.otherwise.blocks level (level :: opened) = level :: opened := rfl
    rw [List.cons_append, List.cons_append, List.append_assoc, List.cons_append,
      unindent_of_level hlevel, Mark.blocks, hfirst.ends rfl hdivide,
      unindent_of_level hotherwise, hblocks, hsecond.ends rfl hrest.succ, unindent_stop hrest,
      Option.map_map, Option.map_map, Option.map_map, Option.map_map, marksAll_singleton,
      Block.marks]
    congr 1
    funext ms
    simp only [Function.comp_apply, List.cons_append, List.append_assoc, List.nil_append]

end Indents

mutual

/-- A piece is indented like some blocks, whatever stands in it. -/
theorem exists_indents_emit (level : Nat) : ∀ p : Piece,
    ∃ bs, Indents level (marks (emit level p)) bs
  | .element head content => by
    obtain ⟨inside, hinside⟩ := exists_indents_emitAll (level + 1) content
    rw [emit, marks_append, marks_warnings, List.nil_append, marks_line]
    exact ⟨_, .enclosed hinside⟩
  | .text value => ⟨_, .part (.text value)⟩
  | .interpolation code => ⟨_, .part (.value code.text)⟩
  | .condition test none (some alternate) => by
    obtain ⟨inside, hinside⟩ := exists_indents_emitAll (level + 1) alternate
    rw [emit, marks_line]
    exact ⟨_, .enclosed hinside⟩
  | .condition test none none => ⟨_, .enclosed .nil⟩
  | .condition test (some consequent) none => by
    obtain ⟨inside, hinside⟩ := exists_indents_emitAll (level + 1) consequent
    rw [emit, emitConsequent, emitAlternate, List.append_nil, marks_line]
    · exact ⟨_, .enclosed hinside⟩
    · nofun
  | .condition test (some consequent) (some alternate) => by
    obtain ⟨first, hfirst⟩ := exists_indents_emitAll (level + 1) consequent
    obtain ⟨second, hsecond⟩ := exists_indents_emitAll (level + 1) alternate
    rw [emit, emitConsequent, emitAlternate, marks_append, marks_line, marks_line]
    · exact ⟨_, .divided hfirst hsecond⟩
    · nofun
  | .iteration loop body => by
    obtain ⟨inside, hinside⟩ := exists_indents_emitAll (level + 1) body
    rw [emit, marks_append, marks_map_line, startLoop]
    cases loop.array with
    | none => exact ⟨_, .enclosed hinside⟩
    -- The array is named on a line of its own in front of the loop.
    | some array => exact ⟨_, (Indents.part _).append (.enclosed hinside)⟩
  | .scope bindings body => by
    obtain ⟨inside, hinside⟩ := exists_indents_emitAll level body
    rw [emit, marks_append, marks_bindings]
    exact ⟨_, (Indents.parts _).append hinside⟩

theorem exists_indents_emitAll (level : Nat) : ∀ ps : List Piece,
    ∃ bs, Indents level (marks (emitAll level ps)) bs
  | [] => ⟨_, .nil⟩
  | p :: ps => by
    obtain ⟨as, has⟩ := exists_indents_emit level p
    obtain ⟨bs, hbs⟩ := exists_indents_emitAll level ps
    rw [emitAll, marks_append]
    exact ⟨_, has.append hbs⟩

end

end Pug

/-! ### What an engine writes -/

/-- The words that an engine puts code in. -/
def Engine.vocabulary : Engine → Vocabulary
  | .ejs | .pug => .scripts
  | .liquid => .liquid

/-- **The blocks that the lines of an engine form** for some pieces, the outermost at a level.
Liquid writes blocks only where it has words for everything. -/
def Engine.Writes (e : Engine) (level : Nat) (ps : List Piece) (bs : List Block) : Prop :=
  match e with
  | .ejs => Block.marksAll bs = Emission.marks Ejs.Directive.mark (Ejs.emitAll level ps)
  | .pug => unindent level [] (Pug.marks (Pug.emitAll level ps)) = some (Block.marksAll bs)
  | .liquid => Emission.Succeeds (Liquid.emitAll level ps) ∧
      Block.marksAll bs = Emission.marks Liquid.Directive.mark (Liquid.emitAll level ps)

section

variable {e : Engine} {level : Nat}

/-- What an engine writes are the marks of one list of blocks only. -/
theorem Engine.Writes.unique {ps : List Piece} {as bs : List Block} (ha : e.Writes level ps as)
    (hb : e.Writes level ps bs) : as = bs := by
  cases e with
  | ejs => exact Block.eq_of_marksAll (Eq.trans ha (Eq.symm hb))
  | pug => exact Block.eq_of_marksAll (Option.some.inj (Eq.trans (Eq.symm ha) hb))
  | liquid => exact Block.eq_of_marksAll (ha.2.trans hb.2.symm)

/-- Every layout is written as blocks. -/
theorem Ejs.exists_writes (ps : List Piece) : ∃ bs, Engine.ejs.Writes level ps bs :=
  (Ejs.wellNested_emitAll level ps).exists_blocks

/-- Every layout that succeeds is written as blocks. -/
theorem Liquid.exists_writes {ps : List Piece}
    (h : Emission.Succeeds (Liquid.emitAll level ps)) : ∃ bs, Engine.liquid.Writes level ps bs := by
  obtain ⟨bs, hbs⟩ := (Liquid.wellNested_emitAll level ps h).exists_blocks
  exact ⟨bs, h, hbs⟩

/-- Blocks that the lines are indented like are the blocks they are read as. -/
theorem Pug.writes_of_indents {ps : List Piece} {bs : List Block}
    (h : Indents level (marks (emitAll level ps)) bs) : Engine.pug.Writes level ps bs := by
  have hends : unindent level [] (marks (emitAll level ps) ++ [])
      = (unindent level [] []).map (Block.marksAll bs ++ ·) := h.ends rfl nofun
  rw [List.append_nil] at hends
  refine Eq.trans hends ?_
  rw [unindent, List.map_nil, Option.map_some, List.append_nil]

/-- So every layout is written as blocks. -/
theorem Pug.exists_writes (ps : List Piece) : ∃ bs, Engine.pug.Writes level ps bs := by
  obtain ⟨bs, hbs⟩ := exists_indents_emitAll level ps
  exact ⟨bs, writes_of_indents hbs⟩

/-- Conversely the blocks they are read as are those they are indented like. -/
theorem Pug.writes_iff {ps : List Piece} {bs : List Block} :
    Engine.pug.Writes level ps bs ↔ Indents level (marks (emitAll level ps)) bs := by
  refine ⟨fun h => ?_, writes_of_indents⟩
  obtain ⟨as, has⟩ := exists_indents_emitAll level ps
  rw [h.unique (writes_of_indents has)]
  exact has

/-- An engine writes blocks exactly where it comes to a text. -/
theorem Engine.exists_writes_iff {ps : List Piece} :
    (∃ bs, e.Writes level ps bs) ↔ ∃ text, (e.print level ps).result = .ok text := by
  cases e with
  | ejs =>
    refine ⟨fun _ => ?_, fun _ => Ejs.exists_writes ps⟩
    exact ⟨_, Emission.result_outcome_iff.2 ⟨Ejs.succeeds_emitAll level ps, rfl⟩⟩
  | pug =>
    refine ⟨fun _ => ?_, fun _ => Pug.exists_writes ps⟩
    exact ⟨_, Emission.result_outcome_iff.2 ⟨Pug.succeeds_emitAll level ps, rfl⟩⟩
  | liquid =>
    -- For Liquid it takes that all words are there, and this is what coming to a text says.
    constructor
    · rintro ⟨bs, hok, -⟩
      exact ⟨_, Emission.result_outcome_iff.2 ⟨hok, rfl⟩⟩
    · rintro ⟨text, htext⟩
      exact Liquid.exists_writes (Emission.result_outcome_iff.1 htext).1

/-! Pieces are written one after another. -/

/-- Pieces side by side are emitted one after the other. -/
theorem Ejs.emitAll_append (ps qs : List Piece) :
    emitAll level (ps ++ qs) = emitAll level ps ++ emitAll level qs := by
  induction ps with
  | nil => rfl
  | cons p ps ih => rw [List.cons_append, emitAll, emitAll, ih, List.append_assoc]

/-- Pieces side by side are emitted one after the other. -/
theorem Pug.emitAll_append (ps qs : List Piece) :
    emitAll level (ps ++ qs) = emitAll level ps ++ emitAll level qs := by
  induction ps with
  | nil => rfl
  | cons p ps ih => rw [List.cons_append, emitAll, emitAll, ih, List.append_assoc]

/-- Pieces side by side are emitted one after the other. -/
theorem Liquid.emitAll_append (ps qs : List Piece) :
    emitAll level (ps ++ qs) = emitAll level ps ++ emitAll level qs := by
  induction ps with
  | nil => rfl
  | cons p ps ih => rw [List.cons_append, emitAll, emitAll, ih, List.append_assoc]

/-- So the blocks that an engine writes for pieces side by side stand side by side. -/
theorem Engine.Writes.append {ps qs : List Piece} {as bs : List Block}
    (ha : e.Writes level ps as) (hb : e.Writes level qs bs) :
    e.Writes level (ps ++ qs) (as ++ bs) := by
  cases e with
  | ejs =>
    rw [Engine.Writes] at ha hb ⊢
    rw [Block.marksAll_append, Ejs.emitAll_append, Emission.marks_append, ha, hb]
  -- Pug's blocks are bracketed in front of whatever follows, which gives them for both parts in a
  -- row.
  | pug =>
    rw [Pug.writes_iff] at ha hb ⊢
    rw [Pug.emitAll_append, Pug.marks_append]
    exact ha.append hb
  | liquid =>
    refine ⟨?_, ?_⟩
    · rw [Liquid.emitAll_append]
      exact Emission.succeeds_append.2 ⟨ha.1, hb.1⟩
    · rw [Block.marksAll_append, Liquid.emitAll_append, Emission.marks_append, ha.2, hb.2]

/-- **Pieces are written one after another**, and each part on its own forms blocks. -/
theorem Engine.writes_append_iff {ps qs : List Piece} {bs : List Block} :
    e.Writes level (ps ++ qs) bs ↔
      ∃ as cs, bs = as ++ cs ∧ e.Writes level ps as ∧ e.Writes level qs cs := by
  constructor
  · intro h
    -- Blocks are unique, so it is enough that each part has some.
    have hparts : (∃ as, e.Writes level ps as) ∧ ∃ cs, e.Writes level qs cs := by
      cases e with
      | ejs => exact ⟨Ejs.exists_writes ps, Ejs.exists_writes qs⟩
      | pug => exact ⟨Pug.exists_writes ps, Pug.exists_writes qs⟩
      | liquid =>
        have hok := h.1
        rw [Liquid.emitAll_append] at hok
        obtain ⟨hps, hqs⟩ := Emission.succeeds_append.1 hok
        exact ⟨Liquid.exists_writes hps, Liquid.exists_writes hqs⟩
    obtain ⟨⟨as, has⟩, cs, hcs⟩ := hparts
    exact ⟨as, cs, h.unique (has.append hcs), has, hcs⟩
  · rintro ⟨as, cs, rfl, has, hcs⟩
    exact has.append hcs

/-! ### What an engine makes of a scope -/

/-- The bindings as assignments, in the words of an engine. -/
def assignments (v : Vocabulary) (bindings : List Binding) : List Block :=
  (bindings.map fun b => .bound b.name (some (v.binding b))).map .part

/-- EJS writes a function around the body, and calls it with the values of the bindings. Without
bindings it writes the body alone. -/
theorem Ejs.writes_scope {bindings : List Binding} {body : List Piece} {bs : List Block}
    (h : Engine.ejs.Writes level [.scope bindings body] bs) :
    (bindings = [] ∧ Engine.ejs.Writes level body bs) ∨
    ∃ inside, Engine.ejs.Writes (level + 1) body inside ∧
      bs = [.enclosed (.scope (bindings.map (·.name))) inside
        (.scope (bindings.map (·.script)))] := by
  rw [Engine.Writes, emitAll, emitAll, List.append_nil, emit] at h
  by_cases hempty : bindings.isEmpty = true
  · rw [if_pos hempty] at h
    exact .inl ⟨List.isEmpty_iff.1 hempty, h⟩
  · rw [if_neg hempty] at h
    -- The body has its blocks at the level below; the marks around them leave no other choice.
    have hexists : ∃ inside, Engine.ejs.Writes (level + 1) body inside := Ejs.exists_writes body
    obtain ⟨inside, hinside⟩ := hexists
    refine .inr ⟨inside, hinside, Block.eq_of_marksAll ?_⟩
    rw [Engine.Writes] at hinside
    rw [h, Block.marksAll_singleton, Block.marks, hinside, Emission.marks_append,
      Emission.marks_line, Emission.marks_line, Emission.marks_nil]
    rfl

/-- Pug writes assignments in front of the body. -/
theorem Pug.writes_scope {bindings : List Binding} {body : List Piece} {bs : List Block}
    (h : Engine.pug.Writes level [.scope bindings body] bs) :
    ∃ inside, Engine.pug.Writes level body inside ∧
      bs = assignments .scripts bindings ++ inside := by
  obtain ⟨inside, hinside⟩ := exists_indents_emitAll level body
  refine ⟨inside, writes_of_indents hinside, h.unique (writes_of_indents ?_)⟩
  rw [emitAll, emitAll, List.append_nil, emit, marks_append, marks_bindings]
  exact (Indents.parts _).append hinside

/-- Liquid writes assignments in front of the body, in its own words. -/
theorem Liquid.writes_scope {bindings : List Binding} {body : List Piece} {bs : List Block}
    (h : Engine.liquid.Writes level [.scope bindings body] bs) :
    ∃ inside, Engine.liquid.Writes level body inside ∧
      bs = assignments .liquid bindings ++ inside := by
  obtain ⟨hok, hmarks⟩ := h
  rw [emitAll, emitAll, List.append_nil, emit] at hok hmarks
  obtain ⟨hbindings, hbody⟩ := Emission.succeeds_append.1 hok
  -- A scope has no end in Liquid: its assignments are parts before the body.
  obtain ⟨inside, hinside⟩ := exists_writes hbody
  refine ⟨inside, hinside, Block.eq_of_marksAll ?_⟩
  rw [hmarks, Block.marksAll_append, assignments, Block.marksAll_parts, hinside.2,
    Emission.marks_append, marks_bindings hbindings]

end

end Stencil
