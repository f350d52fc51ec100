import Stencil.Proofs.Engine.Agreement
import Stencil.Proofs.Layout.Bodies

/-!
# Which elements stay as they are

An element that names a component is inlined unless a call with its tag is going on. It is then
taken for a recursive use: it stays as it is, with a warning. This module says which elements these
are where no component is recursive.

* `headsAll` — the elements that are left in a list of pieces, and `mem_headsAll_iff`, which finds
  them at the sites that a layout leads to;
* `recursions` — the warnings about such elements, and `sublist_warnings_print`, by which no engine
  gives other warnings;
* `Table.IsAcyclic` — no component involves itself, by whatever chain of bodies;
* `Scene.handed` — the calls that are going on around siblings which are not written in their
  bodies: the siblings were handed to these calls as children, to stand in their slots.

In an acyclic table no element names a call whose body it is written in (`not_mem_tags_bodies`).
What an element can name is a call that it was handed to, as in a card among the children of a card.
The main theorem is `kept_iff_handed`: the elements that are kept, and warned about, are exactly
these.
-/

namespace Stencil

open Relation (ReflTransGen TransGen)

/-! ### Elements in a layout -/

mutual

/-- The elements in a piece, each before those in its content. -/
def Piece.heads : Piece → List Head
  | .element head content => head :: headsAll content
  | .text _ => []
  | .interpolation _ => []
  | .condition _ consequent alternate => headsOfBranch consequent ++ headsOfBranch alternate
  | .iteration _ body => headsAll body
  | .scope _ body => headsAll body

/-- The elements in pieces. -/
def headsAll : List Piece → List Head
  | [] => []
  | p :: rest => p.heads ++ headsAll rest

def headsOfBranch : Option (List Piece) → List Head
  | none => []
  | some ps => headsAll ps

end

/-- The elements of pieces side by side stand side by side. -/
theorem headsAll_append (ps qs : List Piece) :
    headsAll (ps ++ qs) = headsAll ps ++ headsAll qs := by
  induction ps with
  | nil => rfl
  | cons p ps ih => rw [List.cons_append, headsAll, ih, headsAll, List.append_assoc]

/-- A branch that is missing has no elements, and no siblings to be laid out. -/
theorem headsOfBranch_map {t : Table} {stack : List String} {slots : List (List Node)}
    {branch : Option Node} {ps : List Piece} (h : Lays t ⟨stack, slots, branch.toList⟩ ps) :
    headsOfBranch (branch.map fun _ => ps) = headsAll ps := by
  cases branch with
  | none =>
    cases h
    rfl
  | some b => rfl

section

variable {t : Table}

/-- The element at the front of a site stays as it is, and becomes this head. -/
inductive Keeps (t : Table) : Site → Head → Prop
  | plain {stack slots tag attributes cs ns} : t.resolve? tag = none →
    Keeps t ⟨stack, slots, .element tag attributes cs :: ns⟩ ⟨tag, attributes, cs.isEmpty, false⟩
  | recursive {stack slots tag attributes cs ns c} : t.resolve? tag = some c → tag ∈ stack →
    Keeps t ⟨stack, slots, .element tag attributes cs :: ns⟩ ⟨tag, attributes, cs.isEmpty, true⟩

/-- A kept element is taken for a recursive use if its tag names a component. -/
theorem Keeps.isRecursive_iff {s : Site} {h : Head} (hkeeps : Keeps t s h) :
    h.isRecursive = true ↔ (t.resolve? h.tag).isSome = true := by
  cases hkeeps with
  | plain hresolve =>
    rw [hresolve]
    exact Iff.rfl
  | recursive hresolve =>
    rw [hresolve]
    exact Iff.rfl

/-- The layout of a site leads to a site whose first element becomes this head. -/
def Site.LeadsTo (t : Table) (s : Site) (h : Head) : Prop :=
  ∃ s', ReflTransGen (Calls t) s s' ∧ Keeps t s' h

/-- A site leads wherever the sites that it calls lead. -/
theorem Calls.leadsTo {s s' : Site} {h : Head} (hcall : Calls t s s') (hs' : s'.LeadsTo t h) :
    s.LeadsTo t h := by
  obtain ⟨s'', hreaches, hkeeps⟩ := hs'
  exact ⟨s'', .head hcall hreaches, hkeeps⟩

/-- Every element in a layout was kept at some site. -/
theorem leadsTo_of_mem {s : Site} {ps : List Piece} (h : Lays t s ps) :
    ∀ head ∈ headsAll ps, s.LeadsTo t head := by
  -- Along the layout: a head comes from the first sibling, or from those behind it, and the calls
  -- of the derivation lead there.
  induction h with
  | nil => exact nofun
  | root _ _ ihcs ihns | fragment _ _ ihcs ihns | mixin _ _ ihcs ihns =>
    rw [headsAll_append]
    exact List.forall_mem_append.2
      ⟨fun head hhead => Calls.leadsTo (by constructor) (ihcs head hhead),
        fun head hhead => Calls.leadsTo .rest (ihns head hhead)⟩
  -- The element itself is kept right here.
  | plain hresolve _ _ ihcs ihns =>
    refine List.forall_mem_append.2 ⟨List.forall_mem_cons.2 ⟨⟨_, .refl, .plain hresolve⟩, ?_⟩,
      fun head hhead => Calls.leadsTo .rest (ihns head hhead)⟩
    exact fun head hhead => Calls.leadsTo (.plain (.inl hresolve)) (ihcs head hhead)
  | recursive hresolve hmem _ _ ihcs ihns =>
    refine List.forall_mem_append.2
      ⟨List.forall_mem_cons.2 ⟨⟨_, .refl, .recursive hresolve hmem⟩, ?_⟩,
        fun head hhead => Calls.leadsTo .rest (ihns head hhead)⟩
    exact fun head hhead => Calls.leadsTo (.plain (.inr hmem)) (ihcs head hhead)
  | inlined hresolve hnot _ _ ihbody ihns =>
    exact List.forall_mem_append.2
      ⟨fun head hhead => Calls.leadsTo (.inlined hresolve hnot) (ihbody head hhead),
        fun head hhead => Calls.leadsTo .rest (ihns head hhead)⟩
  | emptyText _ ihns => exact fun head hhead => Calls.leadsTo .rest (ihns head hhead)
  | text _ _ ihns => exact fun head hhead => Calls.leadsTo .rest (ihns head hhead)
  | slot hslot _ _ ihslot ihns =>
    rw [headsAll_append]
    exact List.forall_mem_append.2
      ⟨fun head hhead => Calls.leadsTo (.slot hslot) (ihslot head hhead),
        fun head hhead => Calls.leadsTo .rest (ihns head hhead)⟩
  | interpolation _ _ ihns => exact fun head hhead => Calls.leadsTo .rest (ihns head hhead)
  | @condition _ _ _ yes no _ _ _ _ hyes hno _ ihyes ihno ihns =>
    rw [headsAll, Piece.heads, headsOfBranch_map hyes, headsOfBranch_map hno]
    refine List.forall_mem_append.2 ⟨List.forall_mem_append.2 ⟨?_, ?_⟩,
      fun head hhead => Calls.leadsTo .rest (ihns head hhead)⟩
    · -- A branch that is missing has no heads.
      cases yes with
      | none =>
        cases hyes
        exact nofun
      | some b => exact fun head hhead => Calls.leadsTo .consequent (ihyes head hhead)
    · cases no with
      | none =>
        cases hno
        exact nofun
      | some b => exact fun head hhead => Calls.leadsTo .alternate (ihno head hhead)
  | iteration _ _ ihbody ihns =>
    exact List.forall_mem_append.2
      ⟨fun head hhead => Calls.leadsTo .iteration (ihbody head hhead),
        fun head hhead => Calls.leadsTo .rest (ihns head hhead)⟩

/-- The elements behind the first sibling are elements of the layout. -/
theorem headsAll_rest {stack : List String} {slots : List (List Node)} {n : Node} {ns : List Node}
    {ps : List Piece} (h : Lays t ⟨stack, slots, n :: ns⟩ ps) :
    ∃ qs, Lays t ⟨stack, slots, ns⟩ qs ∧ headsAll qs ⊆ headsAll ps := by
  -- The first node is laid out before the others, whatever it is.
  cases h with
  | root _ hns | fragment _ hns | mixin _ hns | slot _ _ hns =>
    refine ⟨_, hns, ?_⟩
    rw [headsAll_append]
    exact List.subset_append_right _ _
  | emptyText hns => exact ⟨_, hns, List.Subset.refl _⟩
  | plain _ _ hns | recursive _ _ _ hns | inlined _ _ _ hns | text _ hns | interpolation _ hns
  | condition _ _ hns | iteration _ hns => exact ⟨_, hns, List.subset_append_right _ _⟩

/-- **The elements of a site that a layout goes on to are elements of the layout.** -/
theorem Calls.headsAll_subset {s s' : Site} (hcall : Calls t s s') {ps : List Piece}
    (h : Lays t s ps) : ∃ qs, Lays t s' qs ∧ headsAll qs ⊆ headsAll ps := by
  cases hcall with
  | rest => exact headsAll_rest h
  | root | fragment | mixin =>
    cases h
    next hcs _ =>
      refine ⟨_, hcs, ?_⟩
      rw [headsAll_append]
      exact List.subset_append_left _ _
  | iteration =>
    cases h with
    | iteration hbody => exact ⟨_, hbody, List.subset_append_left _ _⟩
  | consequent =>
    cases h with
    | condition hyes hno =>
      refine ⟨_, hyes, ?_⟩
      rw [headsAll, Piece.heads, List.append_assoc]
      exact List.subset_append_left _ _
  | alternate =>
    cases h with
    | condition hyes hno =>
      refine ⟨_, hno, ?_⟩
      rw [headsAll, Piece.heads]
      exact List.Subset.trans (List.subset_append_right _ _) (List.subset_append_left _ _)
  | plain hplain =>
    cases h with
    | plain _ hcs | recursive _ _ hcs =>
      exact ⟨_, hcs, List.Subset.trans (List.subset_cons_self _ _) (List.subset_append_left _ _)⟩
    | inlined hresolve hnot =>
      -- The element would be kept and inlined at once.
      rcases hplain with hnone | hmem
      · rw [hnone] at hresolve
        cases hresolve
      · exact absurd hmem hnot
  | inlined hresolve hnot =>
    cases h with
    | plain hnone =>
      rw [hnone] at hresolve
      cases hresolve
    | recursive _ hmem => exact absurd hmem hnot
    | inlined hresolve' _ hbody =>
      cases hresolve.symm.trans hresolve'
      exact ⟨_, hbody, List.subset_append_left _ _⟩
  | slot hslot =>
    cases h with
    | slot _ hfill =>
      refine ⟨_, hfill, ?_⟩
      rw [headsAll_append]
      exact List.subset_append_left _ _
    | interpolation hnot =>
      rcases hnot with hnot | hnil
      · rw [hslot] at hnot
        cases hnot
      · cases hnil

/-- A kept element stands in the layout of its site. -/
theorem Keeps.mem_headsAll {s : Site} {head : Head} (hkeeps : Keeps t s head) {ps : List Piece}
    (h : Lays t s ps) : head ∈ headsAll ps := by
  -- The layout treats the element by the same case in which it is kept.
  cases hkeeps with
  | plain hresolve =>
    cases h with
    | plain => exact List.mem_cons_self
    | recursive hresolve' | inlined hresolve' => cases hresolve.symm.trans hresolve'
  | recursive hresolve hmem =>
    cases h with
    | plain hresolve' => cases hresolve.symm.trans hresolve'
    | recursive => exact List.mem_cons_self
    | inlined _ hnot => exact absurd hmem hnot

/-- **The elements of a layout are those that are kept on the way.** -/
theorem mem_headsAll_iff {s : Site} {ps : List Piece} (h : Lays t s ps) {head : Head} :
    head ∈ headsAll ps ↔ s.LeadsTo t head := by
  refine ⟨leadsTo_of_mem h head, ?_⟩
  rintro ⟨s', hreaches, hkeeps⟩
  -- From the site where the element is kept back to the start, each layout has that of the next.
  induction hreaches using ReflTransGen.head_induction_on generalizing ps with
  | refl => exact hkeeps.mem_headsAll h
  | head hcall _ ih =>
    obtain ⟨qs, hqs, hsubset⟩ := hcall.headsAll_subset h
    exact hsubset (ih hqs)

end

/-! ### Warnings -/

/-- The warnings about those of the elements that are taken for recursive uses. -/
def recursions (hs : List Head) : List Warning :=
  (hs.filter (·.isRecursive)).map fun h => .recursiveUse h.tag

/-- The warnings of elements side by side stand side by side. -/
theorem recursions_append (as bs : List Head) :
    recursions (as ++ bs) = recursions as ++ recursions bs := by
  unfold recursions
  rw [List.filter_append, List.map_append]

/-- The warning of the first element, if there is one, comes first. -/
theorem recursions_cons (h : Head) (hs : List Head) :
    recursions (h :: hs) = recursions [h] ++ recursions hs :=
  recursions_append [h] hs

/-- There is one warning for each element that is taken for a recursive use. -/
theorem mem_recursions_iff {hs : List Head} {w : Warning} :
    w ∈ recursions hs ↔ ∃ h ∈ hs, h.isRecursive = true ∧ w = .recursiveUse h.tag := by
  unfold recursions
  rw [List.mem_map]
  constructor
  · rintro ⟨h, hh, rfl⟩
    obtain ⟨hmem, hrecursive⟩ := List.mem_filter.1 hh
    exact ⟨h, hmem, hrecursive, rfl⟩
  · rintro ⟨h, hmem, hrecursive, rfl⟩
    exact ⟨h, List.mem_filter.2 ⟨hmem, hrecursive⟩, rfl⟩

/-- The warnings among emissions, failures aside. -/
def Emission.warnings {δ : Type} (es : List (Emission δ)) : List Warning :=
  es.filterMap warning?

section

variable {δ : Type}

/-- The warnings of emissions side by side stand side by side. -/
theorem Emission.warnings_append (as bs : List (Emission δ)) :
    warnings (as ++ bs) = warnings as ++ warnings bs :=
  List.filterMap_append

/-- Lines are no warnings. -/
theorem Emission.warnings_map_line {α : Type} (level : Nat) (content : α → δ) (as : List α) :
    warnings (as.map fun a => .line level (content a)) = [] := by
  unfold warnings
  rw [List.filterMap_map]
  exact List.filterMap_eq_nil_iff.2 fun _ _ => rfl

/-- An element warns about itself, if it is taken for a recursive use. -/
theorem Head.warnings_eq (h : Head) :
    Emission.warnings (h.warnings : List (Emission δ)) = recursions [h] := by
  unfold Head.warnings recursions
  cases hrecursive : h.isRecursive with
  | false =>
    rw [List.filter_cons_of_neg (by rw [hrecursive]; exact Bool.false_ne_true)]
    rfl
  | true =>
    rw [List.filter_cons_of_pos hrecursive]
    rfl

end

open Emission (warnings warnings_append warnings_map_line)

mutual

/-- EJS warns about the elements it prints; those in a void element it leaves out. -/
theorem Ejs.sublist_emit (level : Nat) : ∀ p : Piece,
    (warnings (Ejs.emit level p)).Sublist (recursions p.heads)
  | .element head content => by
    rw [Piece.heads, recursions_cons, Ejs.emit, warnings_append, Head.warnings_eq]
    refine List.Sublist.append (List.Sublist.refl _) ?_
    -- Warnings are given before it is decided whether the content is written.
    split
    · exact List.nil_sublist _
    · split
      · exact List.nil_sublist _
      · change (warnings (Ejs.emitAll (level + 1) content ++ _)).Sublist _
        rw [warnings_append]
        exact (List.append_nil _).symm ▸ Ejs.sublist_emitAll (level + 1) content
  | .text _ => List.nil_sublist _
  | .interpolation _ => List.nil_sublist _
  | .condition test consequent alternate => by
    rw [Ejs.emit, warnings_append, Piece.heads, recursions_append]
    change (warnings (Ejs.emitConsequent _ _ ++ _) ++ []).Sublist _
    rw [List.append_nil, warnings_append]
    exact (Ejs.sublist_emitConsequent (level + 1) consequent).append
      (Ejs.sublist_emitAlternate level alternate)
  | .iteration loop body => by
    rw [Ejs.emit, warnings_append, Piece.heads]
    exact (List.append_nil _).symm ▸ Ejs.sublist_emitAll (level + 1) body
  | .scope bindings body => by
    rw [Ejs.emit, Piece.heads]
    -- With or without a function around it, the body is written.
    split
    · exact Ejs.sublist_emitAll level body
    · rw [warnings_append]
      exact (List.append_nil _).symm ▸ Ejs.sublist_emitAll (level + 1) body

/-- Every warning of pieces side by side is about one of their elements, in order; a void element
drops its children and their warnings. -/
theorem Ejs.sublist_emitAll (level : Nat) : ∀ ps : List Piece,
    (warnings (Ejs.emitAll level ps)).Sublist (recursions (headsAll ps))
  | [] => List.nil_sublist _
  | p :: rest => by
    rw [Ejs.emitAll, warnings_append, headsAll, recursions_append]
    exact (Ejs.sublist_emit level p).append (Ejs.sublist_emitAll level rest)

theorem Ejs.sublist_emitConsequent (level : Nat) : ∀ b : Option (List Piece),
    (warnings (Ejs.emitConsequent level b)).Sublist (recursions (headsOfBranch b))
  | none => List.nil_sublist _
  | some ps => Ejs.sublist_emitAll level ps

theorem Ejs.sublist_emitAlternate (level : Nat) : ∀ b : Option (List Piece),
    (warnings (Ejs.emitAlternate level b)).Sublist (recursions (headsOfBranch b))
  | none => List.nil_sublist _
  | some ps => Ejs.sublist_emitAll (level + 1) ps

end

mutual

/-- Pug prints every element, so it warns about all of them. -/
theorem Pug.warnings_emit (level : Nat) : ∀ p : Piece,
    warnings (Pug.emit level p) = recursions p.heads
  | .element head content => by
    rw [Piece.heads, recursions_cons, Pug.emit, warnings_append, Head.warnings_eq,
      ← Pug.warnings_emitAll (level + 1) content]
    rfl
  | .text _ => rfl
  | .interpolation _ => rfl
  | .condition test none none => rfl
  | .condition test none (some alternate) => Pug.warnings_emitAll (level + 1) alternate
  | .condition test (some consequent) alternate => by
    rw [Pug.emit, Piece.heads, headsOfBranch, recursions_append,
      ← Pug.warnings_emitAll (level + 1) consequent, ← Pug.warnings_emitAlternate level alternate,
      ← warnings_append]
    · rfl
    · exact nofun
  | .iteration loop body => by
    -- The lines that start a loop carry no warning, and neither do assignments.
    have hstart : warnings ((Pug.startLoop loop).map (.line level)) = [] :=
      warnings_map_line level id _
    rw [Pug.emit, warnings_append, Piece.heads, hstart, List.nil_append]
    exact Pug.warnings_emitAll (level + 1) body
  | .scope bindings body => by
    rw [Pug.emit, warnings_append, Piece.heads, Pug.warnings_emitAll level body,
      warnings_map_line level Pug.assignment, List.nil_append]

/-- Pieces side by side warn about all their elements, since Pug drops none. -/
theorem Pug.warnings_emitAll (level : Nat) : ∀ ps : List Piece,
    warnings (Pug.emitAll level ps) = recursions (headsAll ps)
  | [] => rfl
  | p :: rest => by
    rw [Pug.emitAll, warnings_append, headsAll, recursions_append, Pug.warnings_emit level p,
      Pug.warnings_emitAll level rest]

theorem Pug.warnings_emitAlternate (level : Nat) : ∀ b : Option (List Piece),
    warnings (Pug.emitAlternate level b) = recursions (headsOfBranch b)
  | none => rfl
  | some ps => Pug.warnings_emitAll (level + 1) ps

end

/-- A line that may fail is no warning. -/
theorem Liquid.warnings_lineOrFailure (level : Nat) (content : Except Failure Liquid.Directive) :
    warnings [Liquid.lineOrFailure level content] = [] := by
  cases content <;> rfl

/-- Assignments do not warn. -/
theorem Liquid.warnings_map_emitBinding (level : Nat) (bindings : List Binding) :
    warnings (bindings.map (Liquid.emitBinding level)) = [] := by
  induction bindings with
  | nil => rfl
  | cons b rest ih =>
    rw [List.map_cons, ← List.singleton_append, warnings_append, ih, List.append_nil]
    exact Liquid.warnings_lineOrFailure level _

/-- A test that cannot be written takes the warnings of its branches away. -/
theorem Liquid.sublist_emitTest (level : Nat) (flip : Bool) (test : Code)
    (content : List (Emission Liquid.Directive)) :
    (warnings (Liquid.emitTest level flip test content)).Sublist (warnings content) := by
  unfold Liquid.emitTest
  split
  · exact List.nil_sublist _
  · change (warnings (content ++ _)).Sublist _
    rw [warnings_append]
    exact (List.append_nil _).symm ▸ List.Sublist.refl _

mutual

/-- Liquid warns about the elements it prints, up to what it cannot write. -/
theorem Liquid.sublist_emit (level : Nat) : ∀ p : Piece,
    (warnings (Liquid.emit level p)).Sublist (recursions p.heads)
  | .element head content => by
    rw [Piece.heads, recursions_cons, Liquid.emit, warnings_append, Head.warnings_eq]
    refine List.Sublist.append (List.Sublist.refl _) ?_
    -- Content that cannot be written loses its warnings, so this is no equation.
    split
    · exact List.nil_sublist _
    · split
      · exact List.nil_sublist _
      · split
        · exact List.nil_sublist _
        · change (warnings (Liquid.emitAll (level + 1) content ++ _)).Sublist _
          rw [warnings_append]
          exact (List.append_nil _).symm ▸ Liquid.sublist_emitAll (level + 1) content
  | .text _ => List.nil_sublist _
  | .interpolation _ => by
    rw [Liquid.emit, Liquid.warnings_lineOrFailure]
    exact List.nil_sublist _
  | .condition test none none => by
    rw [Liquid.emit]
    · exact Liquid.sublist_emitTest level false test _
    · exact nofun
  | .condition test none (some alternate) => by
    rw [Liquid.emit]
    exact (Liquid.sublist_emitTest level true test _).trans
      (Liquid.sublist_emitAll (level + 1) alternate)
  | .condition test (some consequent) alternate => by
    rw [Liquid.emit, Piece.heads, recursions_append]
    · -- The order of the branches is that of the heads.
      refine (Liquid.sublist_emitTest level false test _).trans ?_
      rw [warnings_append]
      exact (Liquid.sublist_emitAll (level + 1) consequent).append
        (Liquid.sublist_emitAlternate level alternate)
    · exact nofun
  | .iteration loop body => by
    rw [Liquid.emit, Piece.heads]
    split
    · exact List.nil_sublist _
    · next iterable hiterable =>
      have hstart : warnings ((Liquid.startLoop loop iterable).map (.line level)) = [] :=
        warnings_map_line level id _
      have hindex : warnings ((Liquid.loopIndex loop).map (.line (level + 1))) = [] :=
        warnings_map_line (level + 1) id _
      rw [warnings_append, warnings_append, warnings_append, hstart, hindex]
      exact (List.append_nil _).symm ▸ Liquid.sublist_emitAll (level + 1) body
  | .scope bindings body => by
    rw [Liquid.emit, warnings_append, Liquid.warnings_map_emitBinding, List.nil_append]
    exact Liquid.sublist_emitAll level body

/-- Every warning of pieces side by side is about one of their elements, in order. -/
theorem Liquid.sublist_emitAll (level : Nat) : ∀ ps : List Piece,
    (warnings (Liquid.emitAll level ps)).Sublist (recursions (headsAll ps))
  | [] => List.nil_sublist _
  | p :: rest => by
    rw [Liquid.emitAll, warnings_append, headsAll, recursions_append]
    exact (Liquid.sublist_emit level p).append (Liquid.sublist_emitAll level rest)

theorem Liquid.sublist_emitAlternate (level : Nat) : ∀ b : Option (List Piece),
    (warnings (Liquid.emitAlternate level b)).Sublist (recursions (headsOfBranch b))
  | none => List.nil_sublist _
  | some ps => Liquid.sublist_emitAll (level + 1) ps

end

/-- What is reported are warnings from before the first failure. -/
theorem sublist_warnings_outcome {δ : Type} (spell : δ → String) (es : List (Emission δ)) :
    (Emission.outcome spell es).warnings.Sublist (warnings es) :=
  (List.takeWhile_sublist _).filterMap _

/-- **No engine warns about anything but the elements that are taken for recursive uses.** -/
theorem sublist_warnings_print (e : Engine) (level : Nat) (ps : List Piece) :
    (e.print level ps).warnings.Sublist (recursions (headsAll ps)) := by
  cases e with
  | ejs => exact (sublist_warnings_outcome _ _).trans (Ejs.sublist_emitAll level ps)
  | pug =>
    rw [← Pug.warnings_emitAll level ps]
    exact sublist_warnings_outcome _ _
  | liquid => exact (sublist_warnings_outcome _ _).trans (Liquid.sublist_emitAll level ps)

/-- Without a failure nothing is cut off. -/
theorem Emission.untilFailure_of_succeeds {δ : Type} {es : List (Emission δ)} (h : Succeeds es) :
    untilFailure es = es := by
  induction es with
  | nil => rfl
  | cons e es ih =>
    obtain ⟨he, hes⟩ := succeeds_cons.1 h
    -- Without a failure nothing is cut off.
    cases e with
    | line level content => exact congrArg _ (ih hes)
    | warning w => exact congrArg _ (ih hes)
    | failure f => cases he

/-- Pug never fails, so it warns about all of them. -/
theorem Pug.warnings_print (level : Nat) (ps : List Piece) :
    (Engine.pug.print level ps).warnings = recursions (headsAll ps) := by
  rw [← Pug.warnings_emitAll level ps]
  exact congrArg _ (Emission.untilFailure_of_succeeds (Pug.succeeds_emitAll level ps))

/-! ### Components that involve themselves -/

/-- Some element in the body of the first component stands for the second one. -/
def Table.Involves (t : Table) (a b : Component) : Prop :=
  ∃ tag ∈ Node.tagsOfList a.body, t.resolve? tag = some b

/-- No component of the table involves itself, directly or through others. -/
def Table.IsAcyclic (t : Table) : Prop :=
  ∀ c ∈ t.components.values, ¬ TransGen t.Involves c c

section

variable {t : Table} {n : Node}

/-- Whatever stands in the innermost of nested bodies is involved in all of them. -/
theorem Nested.involves {bodies : List Entrance} (h : Nested t n bodies) {tag : String}
    {c : Component} (htag : tag ∈ tagsWithin n bodies) (hc : t.resolve? tag = some c) :
    ∀ e ∈ bodies, TransGen t.Involves e.component c := by
  induction h generalizing tag c with
  | tree => exact nofun
  | body houter hmem hresolve ih =>
    have hlast := TransGen.single (r := t.Involves) ⟨tag, htag, hc⟩
    refine List.forall_mem_cons.2 ⟨hlast, fun e he => ?_⟩
    exact (ih hmem hresolve e he).trans hlast

/-- **In an acyclic table no element names a call whose body it is written in.** -/
theorem not_mem_tags_bodies (hacyclic : t.IsAcyclic) {s : Scene} (hs : s.Sound t n) {tag : String}
    {attributes : List Attribute} {cs ns : List Node}
    (hnodes : s.site.nodes = .element tag attributes cs :: ns) :
    tag ∉ s.bodies.map Entrance.tag := by
  intro hmem
  obtain ⟨e, he, rfl⟩ := List.mem_map.1 hmem
  obtain ⟨hresolve, -⟩ := hs.siblings.nested.mem e he
  have htag : e.tag ∈ tagsWithin n s.bodies := by
    refine hs.siblings.tags ?_
    rw [hnodes]
    exact List.mem_append_left _ List.mem_cons_self
  -- A body with that tag would involve its own component.
  exact hacyclic e.component (Table.mem_values_of_resolve? hresolve)
    (hs.siblings.nested.involves htag hresolve e he)

/-! ### Elements that are handed to a call -/

/-- The calls that are going on, but whose bodies the siblings are not written in: the siblings are
part of the children that these calls put into their slots. -/
def Scene.handed (s : Scene) : List String :=
  s.site.stack.filter (· ∉ s.bodies.map Entrance.tag)

/-- An element with this tag is at the front. -/
def Scene.StartsWith (s : Scene) (tag : String) : Prop :=
  ∃ attributes cs ns, s.site.nodes = .element tag attributes cs :: ns

/-- The layout of the tree comes to an element with this tag among what is handed to a call with the
same tag. -/
def HandedToItself (t : Table) (n : Node) (tag : String) : Prop :=
  ∃ s, ReflTransGen (Moves t) n.scene s ∧ s.StartsWith tag ∧ tag ∈ s.handed

/-- In a table without cycles the tag of an element is on the stack just if the element was handed
to a call of that tag. -/
theorem mem_stack_iff_handed (hacyclic : t.IsAcyclic) {s : Scene} (hs : s.Sound t n) {tag : String}
    (hstarts : s.StartsWith tag) : tag ∈ s.site.stack ↔ tag ∈ s.handed := by
  obtain ⟨attributes, cs, ns, hnodes⟩ := hstarts
  unfold Scene.handed
  rw [List.mem_filter, decide_eq_true_iff,
    and_iff_left (not_mem_tags_bodies hacyclic hs hnodes)]

/-- The elements of a layout that name a component are those that are handed to a call of their own
tag. -/
theorem mem_headsAll_layout_iff (hacyclic : t.IsAcyclic) (n : Node) (tag : String) :
    (∃ head ∈ headsAll (n.layout t), head.tag = tag ∧ (t.resolve? tag).isSome = true)
      ↔ HandedToItself t n tag := by
  have hlays : Lays t n.site (n.layout t) := lays_site_iff.2 rfl
  constructor
  · -- A kept element that resolves names a call that is going on, and stands at some scene.
    rintro ⟨head, hhead, rfl, hresolved⟩
    obtain ⟨site, hreaches, hkeeps⟩ := (mem_headsAll_iff hlays).1 hhead
    obtain ⟨s, hs, rfl⟩ := exists_scene hreaches
    obtain ⟨site, bodies, origins⟩ := s
    cases hkeeps with
    | plain hnone =>
      rw [hnone] at hresolved
      cases hresolved
    | recursive _ hmem =>
      refine ⟨_, hs, ⟨_, _, _, rfl⟩, ?_⟩
      exact (mem_stack_iff_handed hacyclic (soundScene_of_reaches hs) ⟨_, _, _, rfl⟩).1 hmem
  · -- A tag on the stack resolves, so the element is kept as a recursive use.
    rintro ⟨s, hs, hstarts, hhanded⟩
    have hsound := soundScene_of_reaches hs
    have hmem := (mem_stack_iff_handed hacyclic hsound hstarts).2 hhanded
    have hresolved := hsound.resolved tag hmem
    obtain ⟨c, hc⟩ := Option.isSome_iff_exists.1 hresolved
    obtain ⟨⟨stack, slots, nodes⟩, bodies, origins⟩ := s
    obtain ⟨attributes, cs, ns, rfl⟩ := hstarts
    exact ⟨_, (mem_headsAll_iff hlays).2 ⟨_, reaches_site hs, .recursive hc hmem⟩, rfl, hresolved⟩

/-- An element that is laid out while no call with its tag is going on is inlined. -/
theorem exists_lays_inlined {s : Site} {tag : String} {attributes : List Attribute}
    {cs ns : List Node} {c : Component} (hnodes : s.nodes = .element tag attributes cs :: ns)
    (hresolve : t.resolve? tag = some c) (hnot : tag ∉ s.stack) :
    ∃ body rest, Lays t ⟨tag :: s.stack, cs :: s.slots, c.body⟩ body ∧
      Lays t s (.scope (c.signature.bind attributes) body :: rest) := by
  obtain ⟨stack, slots, nodes⟩ := s
  cases hnodes
  -- Every site has a layout: that of the body, and that of the other nodes.
  obtain ⟨body, hbody⟩ := exists_lays t ⟨tag :: stack, cs :: slots, c.body⟩
  obtain ⟨rest, hrest⟩ := exists_lays t ⟨stack, slots, ns⟩
  exact ⟨body, rest, hbody, .inlined hresolve hnot hbody hrest⟩

/-- **Where no component is recursive, an element that names a component stays as it is only if it
was handed to a call of its own tag.** Every other such element that the layout of a tree comes to
is inlined. The elements that are kept and the warnings about recursion, which Pug gives about all
that are kept and no engine about anything else, are those that were handed to such a call. -/
theorem kept_iff_handed (hacyclic : t.IsAcyclic) (n : Node) :
    (∀ s, ReflTransGen (Moves t) n.scene s → ∀ tag attributes cs ns c,
      s.site.nodes = .element tag attributes cs :: ns → t.resolve? tag = some c → tag ∉ s.handed →
        ∃ body rest, Lays t ⟨tag :: s.site.stack, cs :: s.site.slots, c.body⟩ body ∧
          Lays t s.site (.scope (c.signature.bind attributes) body :: rest)) ∧
    (∀ tag, (∃ head ∈ headsAll (n.layout t), head.tag = tag ∧ (t.resolve? tag).isSome = true)
      ↔ HandedToItself t n tag) ∧
    (∀ tag level, .recursiveUse tag ∈ (Engine.pug.generate level n t).warnings
      ↔ HandedToItself t n tag) ∧
    ∀ (e : Engine) (level : Nat), ∀ w ∈ (e.generate level n t).warnings,
      ∃ tag, w = .recursiveUse tag ∧ HandedToItself t n tag := by
  have hlays : Lays t n.site (n.layout t) := lays_site_iff.2 rfl
  -- A head is recursive where it names a component, as everything else would have been inlined.
  have hrecursive : ∀ head ∈ headsAll (n.layout t),
      (head.isRecursive = true ↔ (t.resolve? head.tag).isSome = true) := by
    intro head hhead
    obtain ⟨site, -, hkeeps⟩ := (mem_headsAll_iff hlays).1 hhead
    exact hkeeps.isRecursive_iff
  have hwarned : ∀ w ∈ recursions (headsAll (n.layout t)),
      ∃ tag, w = .recursiveUse tag ∧ HandedToItself t n tag := by
    intro w hw
    obtain ⟨head, hhead, hrec, rfl⟩ := mem_recursions_iff.1 hw
    exact ⟨head.tag, rfl, (mem_headsAll_layout_iff hacyclic n head.tag).1
      ⟨head, hhead, rfl, (hrecursive head hhead).1 hrec⟩⟩
  refine ⟨?_, mem_headsAll_layout_iff hacyclic n, fun tag level => ?_, fun e level w hw => ?_⟩
  · intro s hs tag attributes cs ns c hnodes hresolve hhanded
    -- The calls whose bodies the siblings are written in cannot be named, as the table is acyclic.
    refine exists_lays_inlined hnodes hresolve fun hmem => hhanded ?_
    exact (mem_stack_iff_handed hacyclic (soundScene_of_reaches hs) ⟨_, _, _, hnodes⟩).1 hmem
  · -- Pug prints all that is kept, so its warnings are exactly the recursions.
    have hpug : (Engine.pug.generate level n t).warnings = recursions (headsAll (n.layout t)) :=
      Pug.warnings_print level _
    rw [hpug]
    constructor
    · intro hw
      obtain ⟨tag', heq, hhanded⟩ := hwarned _ hw
      cases heq
      exact hhanded
    · intro hhanded
      obtain ⟨head, hhead, rfl, hresolved⟩ := (mem_headsAll_layout_iff hacyclic n tag).2 hhanded
      exact mem_recursions_iff.2 ⟨head, hhead, (hrecursive head hhead).2 hresolved, rfl⟩
  · exact hwarned w ((sublist_warnings_print e level _).subset hw)

/-- A table is acyclic if components only involve components of a smaller rank. -/
theorem isAcyclic_of_rank (rank : Component → Nat)
    (h : ∀ a ∈ t.components.values, ∀ tag ∈ Node.tagsOfList a.body, ∀ b ∈ t.resolve? tag,
      rank b < rank a) : t.IsAcyclic := by
  -- All that is involved is in the table, so the rank falls along the whole chain.
  have hrank : ∀ {a b}, TransGen t.Involves a b → a ∈ t.components.values → rank b < rank a := by
    intro a b hab
    induction hab using TransGen.head_induction_on with
    | single hab =>
      obtain ⟨tag, htag, hb⟩ := hab
      exact fun ha => h _ ha tag htag _ hb
    | head hac _ ih =>
      obtain ⟨tag, htag, hc⟩ := hac
      intro ha
      exact Nat.lt_trans (ih (Table.mem_values_of_resolve? hc)) (h _ ha tag htag _ hc)
  exact fun c hc hcycle => Nat.lt_irrefl _ (hrank hcycle hc)

/-- A card among the children of a panel, which hands them to a card of its own. The icon of the
panel is handed to that card, too, but is no card. -/
theorem kept_iff_handed_panel :
    let component (name : String) (body : List Node) : Component :=
      ⟨⟨name, [⟨"children", false⟩], Dict.empty⟩, body, false, none⟩
    let slot : Node := .interpolation ⟨"children"⟩
    let card := component "Card" [.element "div" [] [slot]]
    let icon := component "Icon" [.element "i" [] []]
    let panel := component "Panel" [.element "Card" [] [.element "Icon" [] [], slot]]
    let t : Table :=
      { components := Dict.ofList [("Card", card), ("Icon", icon), ("Panel", panel)] }
    let n : Node := .element "Panel" [] [.element "Card" [] [.text "x"]]
    t.IsAcyclic ∧ HandedToItself t n "Card" ∧ ¬ HandedToItself t n "Icon" ∧
      ∀ e : Engine, ∀ w ∈ (e.generate 0 n t).warnings, w = .recursiveUse "Card" := by
  intro component slot card icon panel t n
  -- A component contains fewer elements than each one that calls it.
  have hacyclic : t.IsAcyclic := by
    refine isAcyclic_of_rank (fun c => (Node.tagsOfList c.body).length) ?_
    decide +kernel
  have hheads : (headsAll (n.layout t)).map Head.tag = ["div", "i", "Card"] := by decide +kernel
  have hi : (t.resolve? "i").isSome = false := by decide +kernel
  have hdiv : (t.resolve? "div").isSome = false := by decide +kernel
  obtain ⟨-, hkept, -, hwarned⟩ := kept_iff_handed hacyclic n
  -- Of the three heads only `Card` names a component, so it is the only tag handed to itself.
  have hcard : ∀ tag, HandedToItself t n tag → tag = "Card" := by
    intro tag hhanded
    obtain ⟨head, hhead, rfl, hresolved⟩ := (hkept tag).2 hhanded
    have hmem := List.mem_map_of_mem (f := Head.tag) hhead
    rw [hheads] at hmem
    simp only [List.mem_cons, List.not_mem_nil, or_false] at hmem
    rcases hmem with htag | htag | htag
    · rw [htag, hdiv] at hresolved
      cases hresolved
    · rw [htag, hi] at hresolved
      cases hresolved
    · exact htag
  have hmem : "Card" ∈ (headsAll (n.layout t)).map Head.tag := by
    rw [hheads]
    decide
  obtain ⟨head, hhead, htag⟩ := List.mem_map.1 hmem
  refine ⟨hacyclic, (hkept "Card").1 ⟨head, hhead, htag, by decide +kernel⟩, fun hicon => ?_,
    fun e w hw => ?_⟩
  · exact absurd (hcard "Icon" hicon) (by decide)
  · obtain ⟨tag, rfl, hhanded⟩ := hwarned e 0 w hw
    exact congrArg _ (hcard tag hhanded)

/-- **A card inside a card** is taken for a recursive use, although the card contains no component
at all. -/
theorem card_in_card_kept :
    let card : Component :=
      ⟨⟨"Card", [⟨"children", false⟩], Dict.empty⟩,
        [.element "div" [] [.interpolation ⟨"children"⟩]], false, none⟩
    let t : Table := { components := Dict.ofList [("Card", card)] }
    let n : Node := .element "Card" [] [.element "Card" [] [.text "x"]]
    t.IsAcyclic ∧ (t.resolve? "Card").isSome = true ∧
      ⟨"Card", [], false, true⟩ ∈ headsAll (n.layout t) ∧
      (Engine.ejs.generate 0 n t).warnings = [.recursiveUse "Card"] ∧
      (Engine.ejs.generate 0 n t).result.toOption
        = some "<div>\n  <Card>\n    x\n  </Card>\n</div>\n" := by
  intro card t n
  refine ⟨isAcyclic_of_rank (fun c => (Node.tagsOfList c.body).length) ?_, ?_, ?_, ?_, ?_⟩
  · decide +kernel
  · decide +kernel
  · decide +kernel
  · decide +kernel
  · decide +kernel

end

end Stencil
