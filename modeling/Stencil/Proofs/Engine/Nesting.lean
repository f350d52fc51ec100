import Mathlib.Data.List.Chain
import Stencil.Proofs.Engine.Agreement
import Stencil.Proofs.Outcome

/-!
# Templates are well nested

Every template that is generated is well nested, whatever the tree and the table. What this means
depends on the engine.

* EJS and Liquid bracket their constructs. `WellNested` is the grammar of their lines: an opening
  line is closed by its own closing line, at its own level, and what stands between is well nested
  one level deeper. A test can be divided once. Which line closes which is `Directive.end?`.
* Pug has no closing lines. `Pug.Indented` says what its levels do: a line stands at most one level
  deeper than the line before, and then only below a line that can hold a block; an `else` goes on
  with an `if` at its own level, with nothing but deeper lines between the two.

Both are closed under writing one after another (`WellNested.append`, `Pug.Indented.append`) and
under putting lines inside a construct (`WellNested.enclosed`, `Pug.Indented.block`,
`Pug.Indented.choice`), so the pieces of a layout keep them one by one. Inlined bodies and filled
slots need no argument of their own: they are pieces among pieces.

The main theorem is `generate_wellNested`.
-/

namespace Stencil

/-! ### Lines that bracket -/

/-- **Lines that are well nested by brackets**, the outermost at the given level, where `end?` gives
the line that closes an opening line. -/
inductive WellNested {δ : Type} (mark : δ → Mark) (end? : δ → Option δ) :
    Nat → List (Nat × δ) → Prop
  | nil {level : Nat} : WellNested mark end? level []
  /-- A line that stands for itself. -/
  | part {level : Nat} {d : δ} {o : Outline} {rest : List (Nat × δ)} : mark d = .part o →
    WellNested mark end? level rest → WellNested mark end? level ((level, d) :: rest)
  /-- An opening line, what is inside, and the line that closes it. -/
  | block {level : Nat} {d d' : δ} {opening : Opening} {closing : Closing}
    {inside rest : List (Nat × δ)} : mark d = .start opening → end? d = some d' →
    mark d' = .stop closing → WellNested mark end? (level + 1) inside →
    WellNested mark end? level rest →
    WellNested mark end? level ((level, d) :: (inside ++ (level, d') :: rest))
  /-- A test with two branches: one line divides them, at the level of the test. -/
  | divided {level : Nat} {d e d' : δ} {words : String} {negated : Bool} {closing : Closing}
    {first second rest : List (Nat × δ)} : mark d = .start (.test words negated) →
    mark e = .otherwise → end? d = some d' → mark d' = .stop closing →
    WellNested mark end? (level + 1) first → WellNested mark end? (level + 1) second →
    WellNested mark end? level rest →
    WellNested mark end? level
      ((level, d) :: (first ++ (level, e) :: (second ++ (level, d') :: rest)))

namespace WellNested

variable {δ : Type} {mark : δ → Mark} {end? : δ → Option δ} {level : Nat}

/-- Well nested lines side by side are well nested. -/
theorem append {as bs : List (Nat × δ)} (ha : WellNested mark end? level as)
    (hb : WellNested mark end? level bs) : WellNested mark end? level (as ++ bs) := by
  -- On the lines in front; a block keeps its inside, and the rest takes the other lines.
  induction ha with
  | nil => exact hb
  | part hd _ ih => exact .part hd (ih hb)
  | block hd hend hd' hinside _ _ ih =>
    rw [List.cons_append, List.append_assoc, List.cons_append]
    exact .block hd hend hd' hinside (ih hb)
  | divided hd he hend hd' hfirst hsecond _ _ _ ih =>
    rw [List.cons_append, List.append_assoc, List.cons_append, List.append_assoc, List.cons_append]
    exact .divided hd he hend hd' hfirst hsecond (ih hb)

/-- A line that neither opens nor closes is well nested. -/
theorem single {d : δ} {o : Outline} (hd : mark d = .part o) :
    WellNested mark end? level [(level, d)] :=
  .part hd .nil

/-- Well-nested lines between an opening line and its closing line. -/
theorem enclosed {d d' : δ} {opening : Opening} {closing : Closing} {inside : List (Nat × δ)}
    (hd : mark d = .start opening) (hend : end? d = some d') (hd' : mark d' = .stop closing)
    (hinside : WellNested mark end? (level + 1) inside) :
    WellNested mark end? level ((level, d) :: (inside ++ [(level, d')])) :=
  .block hd hend hd' hinside .nil

end WellNested

/-- The line that closes an opening line of EJS. -/
def Ejs.Directive.end? : Ejs.Directive → Option Ejs.Directive
  | .startTag tag _ => some (.endTag tag)
  | .startIf _ => some .endIf
  | .startEach _ => some .endEach
  | .startScope bindings => some (.endScope bindings)
  | _ => none

/-- The line that closes an opening line of Liquid. The end of a test repeats its first word. -/
def Liquid.Directive.end? : Liquid.Directive → Option Liquid.Directive
  | .startTag tag _ => some (.endTag tag)
  | .startIf test => some (.endIf test.negated)
  | .startFor _ _ => some .endFor
  | _ => none

/-! ### EJS -/

namespace Ejs

open Emission

mutual

/-- The lines of a piece are well nested at its level. -/
theorem wellNested_emit (level : Nat) : ∀ p : Piece,
    WellNested Directive.mark Directive.end? level (lines (emit level p))
  | .element head content => by
    have hcontent := wellNested_emitAll (level + 1) content
    rw [emit, lines_append, lines_warnings, List.nil_append]
    split
    · exact .single rfl
    · split
      · exact .single rfl
      · rw [lines_append, lines_line]
        exact .enclosed rfl rfl rfl hcontent
  | .text _ => .single rfl
  | .interpolation _ => .single rfl
  | .condition test consequent alternate => by
    have hconsequent := wellNested_emitConsequent (level + 1) consequent
    rw [emit]
    cases alternate with
    | none =>
      rw [emitAlternate, List.append_nil, lines_append, lines_line]
      exact .enclosed rfl rfl rfl hconsequent
    | some no =>
      have hno := wellNested_emitAll (level + 1) no
      rw [emitAlternate, lines_append, lines_append, lines_line, lines_line, List.append_assoc]
      exact .divided rfl rfl rfl rfl hconsequent hno .nil
  | .iteration loop body => by
    rw [emit, lines_append, lines_line]
    exact .enclosed rfl rfl rfl (wellNested_emitAll (level + 1) body)
  | .scope bindings body => by
    rw [emit]
    -- A component without props opens no function, so its body stays at the level of the call.
    split
    · exact wellNested_emitAll level body
    · rw [lines_append, lines_line]
      exact .enclosed rfl rfl rfl (wellNested_emitAll (level + 1) body)

theorem wellNested_emitAll (level : Nat) : ∀ ps : List Piece,
    WellNested Directive.mark Directive.end? level (lines (emitAll level ps))
  | [] => .nil
  | p :: ps => by
    rw [emitAll, lines_append]
    exact (wellNested_emit level p).append (wellNested_emitAll level ps)

/-- So are those of a branch that may be absent. -/
theorem wellNested_emitConsequent (level : Nat) : ∀ b : Option (List Piece),
    WellNested Directive.mark Directive.end? level (lines (emitConsequent level b))
  | none => .nil
  | some ps => wellNested_emitAll level ps

end

end Ejs

/-! ### Liquid -/

namespace Liquid

open Emission

/-- An element that is written, around content that is well nested. -/
theorem wellNested_element {head : Head} {content : List Piece} {level : Nat}
    (h : Succeeds (emit level (.element head content)))
    (hcontent : Succeeds (emitAll (level + 1) content) →
      WellNested Directive.mark Directive.end? (level + 1) (lines (emitAll (level + 1) content))) :
    WellNested Directive.mark Directive.end? level
      (lines (emit level (.element head content))) := by
  rw [emit] at h ⊢
  obtain ⟨-, h⟩ := succeeds_append.1 h
  rw [lines_append, lines_warnings, List.nil_append]
  -- Attributes without words are a failure in place of the tag, and `h` excludes it.
  cases hslots : slots head.attributes with
  | error f =>
    rw [hslots] at h
    cases h _ List.mem_cons_self
  | ok attributes =>
    simp only [hslots] at h ⊢
    by_cases hvoid : isVoid head.tag = true
    · rw [if_pos hvoid]
      exact .single rfl
    · by_cases hempty : head.isEmpty = true
      · rw [if_neg hvoid, if_pos hempty]
        exact .single rfl
      · rw [if_neg hvoid, if_neg hempty] at h ⊢
        -- The tag itself is a line, so the failure that `h` excludes could only be in the content.
        have hok := (succeeds_append.1 (succeeds_cons.1 h).2).1
        rw [lines_append, lines_line]
        exact .enclosed rfl rfl rfl (hcontent hok)

/-- Lines for values that are written stand for themselves. -/
theorem wellNested_bindings {level : Nat} {bindings : List Binding}
    (h : Succeeds (bindings.map (emitBinding level))) :
    WellNested Directive.mark Directive.end? level
      (lines (bindings.map (emitBinding level))) := by
  induction bindings with
  | nil => exact .nil
  | cons b bs ih =>
    obtain ⟨hb, hbs⟩ := succeeds_cons.1 h
    -- A binding that is refused would not have succeeded.
    cases hwords : bindingWords b with
    | error f =>
      rw [emitBinding, hwords] at hb
      cases hb
    | ok words =>
      have hline : emitBinding level b = .line level (.assign b.name words) := by
        rw [emitBinding, hwords]
        rfl
      rw [List.map_cons, hline, lines_line]
      exact .part rfl (ih hbs)

/-- A test around lines that are well nested one level deeper, and divided once at most. -/
theorem wellNested_emitTest {level : Nat} {flip : Bool} {test : Code}
    {content : List (Emission Directive)} (h : Succeeds (emitTest level flip test content))
    (hcontent : Succeeds content →
      WellNested Directive.mark Directive.end? (level + 1) (lines content) ∨
      ∃ first second, lines content = first ++ (level, .otherwise) :: second ∧
        WellNested Directive.mark Directive.end? (level + 1) first ∧
        WellNested Directive.mark Directive.end? (level + 1) second) :
    WellNested Directive.mark Directive.end? level (lines (emitTest level flip test content)) := by
  obtain ⟨negated, words, -, hok, hlines⟩ := succeeds_emitTest h
  rw [hlines, lines_append, lines_line]
  -- The content has a dividing line if the test has both branches.
  rcases hcontent hok with hinside | ⟨first, second, heq, hfirst, hsecond⟩
  · exact .enclosed rfl rfl rfl hinside
  · rw [heq, List.cons_append, List.append_assoc]
    exact .divided rfl rfl rfl rfl hfirst hsecond .nil

mutual

/-- The lines of a printed piece are well nested at its level; one that is refused may leave a
construct open. -/
theorem wellNested_emit (level : Nat) : ∀ p : Piece, Succeeds (emit level p) →
    WellNested Directive.mark Directive.end? level (lines (emit level p))
  | .element head content, h =>
    wellNested_element h (wellNested_emitAll (level + 1) content)
  | .text _, _ => .single rfl
  | .interpolation code, h => by
    rw [emit] at h ⊢
    cases hcode : code.liquid with
    | error f =>
      rw [hcode] at h
      cases h _ List.mem_cons_self
    | ok words => exact .single rfl
  | .condition test none (some alternate), h => by
    rw [emit] at h ⊢
    exact wellNested_emitTest h fun hok => .inl (wellNested_emitAll (level + 1) alternate hok)
  | .condition test none none, h =>
    wellNested_emitTest h fun _ => .inl .nil
  | .condition test (some consequent) none, h =>
    wellNested_emitTest h fun hok => by
      have hconsequent := wellNested_emitAll (level + 1) consequent (succeeds_append.1 hok).1
      rw [emitConsequent, emitAlternate, List.append_nil]
      exact .inl hconsequent
  | .condition test (some consequent) (some alternate), h =>
    wellNested_emitTest h fun hok => by
      obtain ⟨hyes, hno⟩ := succeeds_append.1 hok
      have hconsequent := wellNested_emitAll (level + 1) consequent hyes
      have halternate := wellNested_emitAll (level + 1) alternate (succeeds_cons.1 hno).2
      rw [emitConsequent, emitAlternate, lines_append, lines_line]
      exact .inr ⟨_, _, rfl, hconsequent, halternate⟩
  | .iteration loop body, h => by
    obtain ⟨iterable, hiterable, hok⟩ := succeeds_iteration h
    have hbody := wellNested_emitAll (level + 1) body hok
    -- The position in the loop is assigned inside it, in front of the body.
    have hinside : WellNested Directive.mark Directive.end? (level + 1)
        (lines ((loopIndex loop).map (.line (level + 1))) ++ lines (emitAll (level + 1) body)) := by
      rw [lines_map_line, loopIndex]
      cases loop.index with
      | none => exact hbody
      | some index => exact .part rfl hbody
    have hloop (source : String) : WellNested Directive.mark Directive.end? level
        ((level, .startFor loop.item source) ::
          (lines ((loopIndex loop).map (.line (level + 1))) ++ lines (emitAll (level + 1) body)
            ++ [(level, .endFor)])) :=
      .enclosed rfl rfl rfl hinside
    rw [emit, hiterable]
    simp only [lines_append, List.append_assoc, lines_map_line level]
    rw [← List.append_assoc (lines _), startLoop]
    cases loop.array with
    | none => exact hloop iterable
    | some array => exact .part rfl (hloop array)
  | .scope bindings body, h => by
    rw [emit] at h ⊢
    obtain ⟨hbindings, hbody⟩ := succeeds_append.1 h
    rw [lines_append]
    exact (wellNested_bindings hbindings).append (wellNested_emitAll level body hbody)

theorem wellNested_emitAll (level : Nat) : ∀ ps : List Piece, Succeeds (emitAll level ps) →
    WellNested Directive.mark Directive.end? level (lines (emitAll level ps))
  | [], _ => .nil
  | p :: ps, h => by
    rw [emitAll] at h ⊢
    obtain ⟨hp, hps⟩ := succeeds_append.1 h
    rw [lines_append]
    exact (wellNested_emit level p hp).append (wellNested_emitAll level ps hps)

end

end Liquid

/-! ### Pug -/

namespace Pug

open Emission

/-- Deeper lines can follow the line. -/
def Directive.holdsBlock : Directive → Bool
  | .tag _ _ | .startIf _ | .startUnless _ | .otherwise | .each _ _ _ => true
  | .text _ | .value _ | .assign _ _ => false

def Directive.isElse : Directive → Bool
  | .otherwise => true
  | _ => false

/-- The last line at the level, or above it, is an `if` at the level. -/
def EndsInIf (level : Nat) (ls : List (Nat × Directive)) : Prop :=
  ∃ outer test inside, ls = outer ++ (level, .startIf test) :: inside ∧ ∀ l ∈ inside, level < l.1

/-- Every `else` goes on with an `if` at its level. -/
def Continues (ls : List (Nat × Directive)) : Prop :=
  ∀ before level after, ls = before ++ (level, .otherwise) :: after → EndsInIf level before

/-- The second line can stand below the first one. -/
def Below (a b : Nat × Directive) : Prop :=
  b.1 ≤ a.1 ∨ b.1 = a.1 + 1 ∧ a.2.holdsBlock = true

/-- **Lines that are well nested by their levels**, the outermost at the given level. -/
structure Indented (level : Nat) (ls : List (Nat × Directive)) : Prop where
  /-- The first line is one of the outermost. -/
  first : ∀ l ∈ ls.head?, l.1 = level
  within : ∀ l ∈ ls, level ≤ l.1
  /-- A line is at most one level deeper than the line before, and only inside its block. -/
  steps : ls.IsChain Below
  continues : Continues ls

/-- Lines that end inside an `if` still do so behind other lines. -/
theorem EndsInIf.prepend {level : Nat} {ls : List (Nat × Directive)} (h : EndsInIf level ls)
    (more : List (Nat × Directive)) : EndsInIf level (more ++ ls) := by
  obtain ⟨outer, test, inside, rfl, hinside⟩ := h
  exact ⟨more ++ outer, test, inside, (List.append_assoc _ _ _).symm, hinside⟩

/-- An `else` in lines after other lines goes on with an `if` if it does so there, or else right at
the beginning. -/
theorem Continues.append_of {as bs : List (Nat × Directive)} (ha : Continues as)
    (hb : ∀ before level after, bs = before ++ (level, .otherwise) :: after →
      EndsInIf level (as ++ before)) : Continues (as ++ bs) := by
  intro before level after h
  -- The `else` stands in `bs`, or in `as`, or is the first line of `bs`, where the split is
  -- ambiguous.
  rcases List.append_eq_append_iff.1 h with ⟨mid, rfl, hbs⟩ | ⟨mid, has, hmid⟩
  · exact hb mid level after hbs
  · cases mid with
    | nil =>
      rw [List.append_nil] at has
      have hnil := hb [] level after hmid.symm
      rwa [List.append_nil, has] at hnil
    | cons l mid =>
      obtain ⟨rfl, -⟩ := List.cons_eq_cons.1 hmid
      exact ha before level mid has

/-- If every `else` goes on with an `if` of its own lines, this holds of the lines side by side. -/
theorem Continues.append {as bs : List (Nat × Directive)} (ha : Continues as)
    (hb : Continues bs) : Continues (as ++ bs) :=
  ha.append_of fun before level after h => (hb before level after h).prepend as

/-- A line that is no `else` has nothing to go on with. -/
theorem continues_single {level : Nat} {d : Directive} (hd : d.isElse = false) :
    Continues [(level, d)] := by
  intro before k after h
  cases before with
  | nil =>
    obtain ⟨heq, -⟩ := List.cons_eq_cons.1 h
    obtain ⟨-, rfl⟩ := Prod.mk.inj heq
    cases hd
  | cons l before => cases before <;> cases h

namespace Indented

variable {level : Nat}

/-- No lines are well nested. -/
theorem nil : Indented level [] where
  first _ h := by cases h
  within _ h := absurd h List.not_mem_nil
  steps := .nil
  continues before k after h := by cases before <;> cases h

/-- So is a line at the level that is no `else`. -/
theorem single {d : Directive} (hd : d.isElse = false) : Indented level [(level, d)] where
  first l h := by cases h; rfl
  within l h := by rw [List.mem_singleton.1 h]
  steps := .singleton _
  continues := continues_single hd

/-- **Lines one after another.** The later ones start at the level again, and no line before them
is above it. -/
theorem append {as bs : List (Nat × Directive)} (ha : Indented level as) (hb : Indented level bs) :
    Indented level (as ++ bs) where
  first l h := by
    cases as with
    | nil => exact hb.first l h
    | cons a as => exact ha.first l h
  within l h := (List.mem_append.1 h).elim (ha.within l) (hb.within l)
  -- Between the two parts the level cannot rise: the second one starts at the outermost level.
  steps := by
    refine List.isChain_append.2 ⟨ha.steps, hb.steps, fun a hlast b hhead => .inl ?_⟩
    rw [hb.first b hhead]
    exact ha.within a (List.mem_of_getLast? hlast)
  continues := ha.continues.append hb.continues

/-- **A line and the block below it.** -/
theorem block {d : Directive} (hd : d.isElse = false) (hholds : d.holdsBlock = true)
    {inside : List (Nat × Directive)} (h : Indented (level + 1) inside) :
    Indented level ((level, d) :: inside) where
  first l hl := by cases hl; rfl
  within l hl := by
    rcases List.mem_cons.1 hl with rfl | hl
    · exact Nat.le_refl _
    · exact Nat.le_of_succ_le (h.within l hl)
  -- The first line inside is the one that may be a level deeper, since it stands in a block.
  steps := by
    refine List.isChain_cons.2 ⟨fun b hb => .inr ⟨?_, hholds⟩, h.steps⟩
    exact h.first b hb
  continues := (continues_single hd).append h.continues

/-- **A test with both its branches**, each of them one level deeper. -/
theorem choice {test : Code} {yes no : List (Nat × Directive)} (hyes : Indented (level + 1) yes)
    (hno : Indented (level + 1) no) :
    Indented level ((level, .startIf test) :: yes ++ (level, .otherwise) :: no) := by
  have htest : Indented level ((level, .startIf test) :: yes) := block rfl rfl hyes
  refine ⟨fun l hl => ?_, fun l hl => ?_, ?_, ?_⟩
  · cases hl
    rfl
  · rcases List.mem_append.1 hl with hl | hl
    · exact htest.within l hl
    · rcases List.mem_cons.1 hl with rfl | hl
      · exact Nat.le_refl _
      · exact Nat.le_of_succ_le (hno.within l hl)
  · refine List.isChain_append.2 ⟨htest.steps, List.isChain_cons.2 ⟨?_, hno.steps⟩, ?_⟩
    · intro b hb
      exact .inr ⟨hno.first b hb, rfl⟩
    · intro a hlast b hhead
      cases hhead
      exact .inl (htest.within a (List.mem_of_getLast? hlast))
  · refine htest.continues.append_of fun before k after h => ?_
    -- The `else` is either the one between the branches, or one inside the second branch.
    cases before with
    | nil =>
      cases h
      rw [List.append_nil]
      exact ⟨[], test, yes, rfl, fun l hl => hyes.within l hl⟩
    | cons l before =>
      obtain ⟨rfl, hno'⟩ := List.cons_eq_cons.1 h
      have hends := (hno.continues before k after hno').prepend [(level, .otherwise)]
      exact hends.prepend ((level, .startIf test) :: yes)

end Indented

/-- Assignments are lines at one level, one after the other. -/
theorem indented_bindings (level : Nat) (bindings : List Binding) :
    Indented level (lines (bindings.map fun b => .line level (assignment b))) := by
  induction bindings with
  | nil => exact .nil
  | cons b bs ih =>
    rw [List.map_cons, lines_line]
    exact (Indented.single rfl).append ih

mutual

/-- The lines of a piece are well nested by their levels. -/
theorem indented_emit (level : Nat) : ∀ p : Piece, Indented level (lines (emit level p))
  | .element head content => by
    rw [emit, lines_append, lines_warnings, List.nil_append, lines_line]
    exact .block rfl rfl (indented_emitAll (level + 1) content)
  | .text _ => .single rfl
  | .interpolation _ => .single rfl
  | .condition test none (some alternate) => by
    rw [emit, lines_line]
    exact .block rfl rfl (indented_emitAll (level + 1) alternate)
  | .condition test none none => .single rfl
  | .condition test (some consequent) none => by
    have hconsequent := indented_emitAll (level + 1) consequent
    rw [emit, emitConsequent, emitAlternate, List.append_nil, lines_line]
    · exact .block rfl rfl hconsequent
    · nofun
  | .condition test (some consequent) (some alternate) => by
    have hconsequent := indented_emitAll (level + 1) consequent
    have halternate := indented_emitAll (level + 1) alternate
    rw [emit, emitConsequent, emitAlternate, lines_append, lines_line, lines_line]
    · exact .choice hconsequent halternate
    · nofun
  | .iteration loop body => by
    -- Whether or not the array has a name of its own, the body is the block of the line of the
    -- loop.
    have heach (source : String) : Indented level
        ((level, .each loop.item loop.index source) :: lines (emitAll (level + 1) body)) :=
      .block rfl rfl (indented_emitAll (level + 1) body)
    rw [emit, lines_append, lines_map_line, startLoop]
    cases loop.array with
    | none => exact heach _
    | some array => exact (Indented.single rfl).append (heach array)
  | .scope bindings body => by
    rw [emit, lines_append]
    exact (indented_bindings level bindings).append (indented_emitAll level body)

theorem indented_emitAll (level : Nat) : ∀ ps : List Piece,
    Indented level (lines (emitAll level ps))
  | [] => .nil
  | p :: ps => by
    rw [emitAll, lines_append]
    exact (indented_emit level p).append (indented_emitAll level ps)

end

end Pug

/-! ### Generated templates -/

/-- **Generated templates are well nested.** Whatever the tree, the table and the level, a template
that an engine comes to is the text of lines that are well nested: by brackets for EJS and Liquid,
and by levels for Pug. -/
theorem generate_wellNested (n : Node) (t : Table) (level : Nat) (text : String) :
    let ejs := Emission.lines (Ejs.emitAll level (n.layout t))
    let pug := Emission.lines (Pug.emitAll level (n.layout t))
    let liquid := Emission.lines (Liquid.emitAll level (n.layout t))
    ((Engine.ejs.generate level n t).result = .ok text →
      text = Emission.spelled Ejs.Directive.spell ejs ∧
      WellNested Ejs.Directive.mark Ejs.Directive.end? level ejs) ∧
    ((Engine.pug.generate level n t).result = .ok text →
      text = Emission.spelled Pug.Directive.spell pug ∧ Pug.Indented level pug) ∧
    ((Engine.liquid.generate level n t).result = .ok text →
      text = Emission.spelled Liquid.Directive.spell liquid ∧
      WellNested Liquid.Directive.mark Liquid.Directive.end? level liquid) := by
  intro ejs pug liquid
  refine ⟨fun h => ?_, fun h => ?_, fun h => ?_⟩
  · obtain ⟨-, htext⟩ := Emission.result_outcome_iff.1 h
    exact ⟨htext, Ejs.wellNested_emitAll level _⟩
  · obtain ⟨-, htext⟩ := Emission.result_outcome_iff.1 h
    exact ⟨htext, Pug.indented_emitAll level _⟩
  · -- Only Liquid can fail between a start and its end, so success is used here.
    obtain ⟨hok, htext⟩ := Emission.result_outcome_iff.1 h
    exact ⟨htext, Liquid.wellNested_emitAll level _ hok⟩

/-- A call with a slot inside a loop that names its position and its array, and tests with one
branch and with two. -/
theorem generate_wellNested_slot_in_loop :
    let card : Component := ⟨{ name := "Card", props := [⟨"title", true⟩] },
      [.element "h1" [] [.interpolation ⟨"title"⟩],
        .condition ⟨"!open"⟩ none (some (.element "hr" [] [])),
        .iteration ⟨⟨"items"⟩, "item", some "i", some "all"⟩ [.interpolation ⟨"children"⟩]], true,
      none⟩
    let n : Node := .element "Card" [⟨"title", .literal "T", false⟩]
      [.condition ⟨"a"⟩ (some (.text "yes")) (some (.text "no"))]
    let t : Table := { components := Dict.ofList [("Card", card)] }
    ∃ ejs pug liquid,
      (Engine.ejs.generate 1 n t).result = .ok (Emission.spelled Ejs.Directive.spell ejs) ∧
      WellNested Ejs.Directive.mark Ejs.Directive.end? 1 ejs ∧
      (Engine.pug.generate 1 n t).result = .ok (Emission.spelled Pug.Directive.spell pug) ∧
      Pug.Indented 1 pug ∧
      (Engine.liquid.generate 1 n t).result = .ok (Emission.spelled Liquid.Directive.spell liquid) ∧
      WellNested Liquid.Directive.mark Liquid.Directive.end? 1 liquid := by
  intro card n t
  obtain ⟨ejs, hejs⟩ := exists_ok_of_isSome (x := (Engine.ejs.generate 1 n t).result)
    (by decide +kernel)
  obtain ⟨pug, hpug⟩ := exists_ok_of_isSome (x := (Engine.pug.generate 1 n t).result)
    (by decide +kernel)
  obtain ⟨liquid, hliquid⟩ := exists_ok_of_isSome (x := (Engine.liquid.generate 1 n t).result)
    (by decide +kernel)
  obtain ⟨rfl, hejsNested⟩ := (generate_wellNested n t 1 ejs).1 hejs
  obtain ⟨rfl, hpugNested⟩ := (generate_wellNested n t 1 pug).2.1 hpug
  obtain ⟨rfl, hliquidNested⟩ := (generate_wellNested n t 1 liquid).2.2 hliquid
  exact ⟨_, _, _, hejs, hejsNested, hpug, hpugNested, hliquid, hliquidNested⟩

end Stencil
