import Mathlib.Logic.Relation
import Stencil.Engine

/-!
# Inlining comes to an end

Laying out a tree does not follow the tree: an element jumps into the body of the component it
names, and a slot of that body jumps back to the children of the call. This module describes the
layout without any bound on its depth:

* `Site` — siblings to be laid out, inside the calls that are going on;
* `Calls` — the sites that the layout of a site goes on to;
* `Lays` — the pieces that a site comes to.

The measure of a site is lexicographic (`Site.measure`). A call puts its tag on the stack, so it
leaves fewer tags that can still be inlined; a slot takes the children of the innermost call away;
and everything else goes to smaller siblings. Hence `Calls` is well-founded (`wellFounded_calls`),
every site comes to pieces (`exists_lays`), and a layout of bounded depth finds these pieces as soon
as its bound is the number of tags that are left (`piecesInCalls_of_lays`).

On the way from a tree, the stack never holds a tag twice (`stackFits_of_reaches`). The main theorem
is `generate_terminates`.
-/

namespace Stencil

/-- Siblings to be laid out, and where they stand. -/
structure Site where
  /-- The tags of the calls that are going on, the innermost first. -/
  stack : List String
  /-- The children of the calls that a slot can take, the innermost first. -/
  slots : List (List Node)
  nodes : List Node

/-- The site of a whole tree. -/
def Node.site (n : Node) : Site :=
  ⟨[], [], [n]⟩

section

variable (t : Table)

/-- The layout of the first site goes on to the second one. -/
inductive Calls : Site → Site → Prop
  | rest {stack slots n ns} : Calls ⟨stack, slots, n :: ns⟩ ⟨stack, slots, ns⟩
  | root {stack slots cs ns} : Calls ⟨stack, slots, .root cs :: ns⟩ ⟨stack, slots, cs⟩
  | fragment {stack slots cs ns} : Calls ⟨stack, slots, .fragment cs :: ns⟩ ⟨stack, slots, cs⟩
  | mixin {stack slots signature cs ns} :
    Calls ⟨stack, slots, .mixin signature cs :: ns⟩ ⟨stack, slots, cs⟩
  | iteration {stack slots loop body ns} :
    Calls ⟨stack, slots, .iteration loop body :: ns⟩ ⟨stack, slots, body⟩
  | consequent {stack slots test b no ns} :
    Calls ⟨stack, slots, .condition test (some b) no :: ns⟩ ⟨stack, slots, [b]⟩
  | alternate {stack slots test yes b ns} :
    Calls ⟨stack, slots, .condition test yes (some b) :: ns⟩ ⟨stack, slots, [b]⟩
  /-- An element that is not inlined: its tag names nothing, or a call that is going on. -/
  | plain {stack slots tag attributes cs ns} : t.resolve? tag = none ∨ tag ∈ stack →
    Calls ⟨stack, slots, .element tag attributes cs :: ns⟩ ⟨stack, slots, cs⟩
  /-- An inlined element: its children wait for a slot in the body of the component. -/
  | inlined {stack slots tag attributes cs ns c} : t.resolve? tag = some c → tag ∉ stack →
    Calls ⟨stack, slots, .element tag attributes cs :: ns⟩ ⟨tag :: stack, cs :: slots, c.body⟩
  /-- A slot: the children of the innermost call stand outside of that call. -/
  | slot {stack slot outer code ns} : isChildrenSlot code = true →
    Calls ⟨stack, slot :: outer, .interpolation code :: ns⟩ ⟨stack, outer, slot⟩

/-- The pieces that a site comes to. -/
inductive Lays : Site → List Piece → Prop
  | nil {stack slots} : Lays ⟨stack, slots, []⟩ []
  | root {stack slots cs ns ps qs} : Lays ⟨stack, slots, cs⟩ ps → Lays ⟨stack, slots, ns⟩ qs →
    Lays ⟨stack, slots, .root cs :: ns⟩ (ps ++ qs)
  | fragment {stack slots cs ns ps qs} : Lays ⟨stack, slots, cs⟩ ps → Lays ⟨stack, slots, ns⟩ qs →
    Lays ⟨stack, slots, .fragment cs :: ns⟩ (ps ++ qs)
  | mixin {stack slots signature cs ns ps qs} : Lays ⟨stack, slots, cs⟩ ps →
    Lays ⟨stack, slots, ns⟩ qs → Lays ⟨stack, slots, .mixin signature cs :: ns⟩ (ps ++ qs)
  | plain {stack slots tag attributes cs ns ps qs} : t.resolve? tag = none →
    Lays ⟨stack, slots, cs⟩ ps → Lays ⟨stack, slots, ns⟩ qs →
    Lays ⟨stack, slots, .element tag attributes cs :: ns⟩
      (.element ⟨tag, attributes, cs.isEmpty, false⟩ ps :: qs)
  | recursive {stack slots tag attributes cs ns c ps qs} : t.resolve? tag = some c → tag ∈ stack →
    Lays ⟨stack, slots, cs⟩ ps → Lays ⟨stack, slots, ns⟩ qs →
    Lays ⟨stack, slots, .element tag attributes cs :: ns⟩
      (.element ⟨tag, attributes, cs.isEmpty, true⟩ ps :: qs)
  | inlined {stack slots tag attributes cs ns c ps qs} : t.resolve? tag = some c → tag ∉ stack →
    Lays ⟨tag :: stack, cs :: slots, c.body⟩ ps → Lays ⟨stack, slots, ns⟩ qs →
    Lays ⟨stack, slots, .element tag attributes cs :: ns⟩
      (.scope (c.signature.bind attributes) ps :: qs)
  | emptyText {stack slots ns qs} : Lays ⟨stack, slots, ns⟩ qs →
    Lays ⟨stack, slots, .text "" :: ns⟩ qs
  | text {stack slots value ns qs} : value ≠ "" → Lays ⟨stack, slots, ns⟩ qs →
    Lays ⟨stack, slots, .text value :: ns⟩ (.text value :: qs)
  | slot {stack slot outer code ns ps qs} : isChildrenSlot code = true →
    Lays ⟨stack, outer, slot⟩ ps → Lays ⟨stack, slot :: outer, ns⟩ qs →
    Lays ⟨stack, slot :: outer, .interpolation code :: ns⟩ (ps ++ qs)
  | interpolation {stack slots code ns qs} : isChildrenSlot code = false ∨ slots = [] →
    Lays ⟨stack, slots, ns⟩ qs →
    Lays ⟨stack, slots, .interpolation code :: ns⟩ (.interpolation code :: qs)
  /-- A branch that is missing is missing in the pieces, too. -/
  | condition {stack slots test yes no ns ps qs rs} : Lays ⟨stack, slots, yes.toList⟩ ps →
    Lays ⟨stack, slots, no.toList⟩ qs → Lays ⟨stack, slots, ns⟩ rs →
    Lays ⟨stack, slots, .condition test yes no :: ns⟩
      (.condition test (yes.map fun _ => ps) (no.map fun _ => qs) :: rs)
  | iteration {stack slots loop body ns ps qs} : Lays ⟨stack, slots, body⟩ ps →
    Lays ⟨stack, slots, ns⟩ qs →
    Lays ⟨stack, slots, .iteration loop body :: ns⟩ (.iteration loop ps :: qs)

end

/-! ### The measure of a site -/

/-- Erasing duplicates leaves none. -/
theorem nodup_eraseDups : ∀ tags : List String, tags.eraseDups.Nodup
  | [] => List.nodup_nil
  | tag :: rest => by
    rw [List.eraseDups_cons, List.nodup_cons, List.mem_eraseDups]
    refine ⟨fun h => ?_, nodup_eraseDups (rest.filter fun b => !b == tag)⟩
    simp at h
  termination_by tags => tags.length
  decreasing_by exact Nat.lt_succ_of_le (List.length_filter_le _ _)

namespace Site

/-- The tags that the layout of a site can meet. -/
def tags (t : Table) (s : Site) : List String :=
  Node.tagsOfList s.nodes ++ s.slots.flatMap Node.tagsOfList ++ t.tags

/-- The number of tags that can still be inlined. -/
def fresh (t : Table) (s : Site) : Nat :=
  ((s.tags t).eraseDups.filter (· ∉ s.stack)).length

/-- The tags that can still be inlined, the slots that can still be taken, and the siblings. -/
noncomputable def measure (t : Table) (s : Site) : Nat × Nat × Nat :=
  (s.fresh t, s.slots.length, sizeOf s.nodes)

variable {t : Table} {s s' : Site}

/-- The fresh tags of a site are those that its calls may still enter. -/
theorem mem_filter_fresh {tag : String} :
    tag ∈ (s.tags t).eraseDups.filter (· ∉ s.stack) ↔ tag ∈ s.tags t ∧ tag ∉ s.stack := by
  rw [List.mem_filter, List.mem_eraseDups, decide_eq_true_iff]

/-- They are listed without duplicates. -/
theorem nodup_filter_fresh : ((s.tags t).eraseDups.filter (· ∉ s.stack)).Nodup :=
  List.Pairwise.filter _ (nodup_eraseDups _)

/-- Fewer tags and a larger stack leave no more fresh ones. -/
theorem fresh_le (htags : s'.tags t ⊆ s.tags t) (hstack : s.stack ⊆ s'.stack) :
    s'.fresh t ≤ s.fresh t := by
  refine List.Nodup.length_le_of_subset nodup_filter_fresh fun tag htag => ?_
  obtain ⟨hmem, hnot⟩ := mem_filter_fresh.1 htag
  exact mem_filter_fresh.2 ⟨htags hmem, fun h => hnot (hstack h)⟩

/-- A tag of the site that comes onto the stack leaves one less. -/
theorem fresh_lt {tag : String} (htags : s'.tags t ⊆ s.tags t) (hmem : tag ∈ s.tags t)
    (hnot : tag ∉ s.stack) (hstack : s'.stack = tag :: s.stack) : s'.fresh t < s.fresh t := by
  -- The tag itself can be inlined before, and no longer afterwards.
  have hnodup : (tag :: (s'.tags t).eraseDups.filter (· ∉ s'.stack)).Nodup := by
    refine List.nodup_cons.2 ⟨fun h => (mem_filter_fresh.1 h).2 ?_, nodup_filter_fresh⟩
    rw [hstack]
    exact List.mem_cons_self
  have hsubset : tag :: (s'.tags t).eraseDups.filter (· ∉ s'.stack)
      ⊆ (s.tags t).eraseDups.filter (· ∉ s.stack) := by
    intro other hother
    rcases List.mem_cons.1 hother with rfl | hother
    · exact mem_filter_fresh.2 ⟨hmem, hnot⟩
    · obtain ⟨hin, hout⟩ := mem_filter_fresh.1 hother
      refine mem_filter_fresh.2 ⟨htags hin, fun h => hout ?_⟩
      rw [hstack]
      exact List.mem_cons_of_mem _ h
  exact List.Nodup.length_le_of_subset hnodup hsubset

end Site

/-! ### What a call does to tags and stack -/

section

variable {t : Table}

/-- A tag resolves to a component of the table. -/
theorem Table.mem_values_of_resolve? {tag : String} {c : Component} (h : t.resolve? tag = some c) :
    c ∈ t.components.values := by
  rw [resolve?, Option.or_eq_some_iff] at h
  rcases h with h | ⟨-, h⟩
  · obtain ⟨d, -, h⟩ := Option.bind_eq_some_iff.1 h
    obtain ⟨path, -, h⟩ := Option.bind_eq_some_iff.1 h
    exact List.mem_of_find?_eq_some h
  · exact Dict.mem_values_iff.2 ⟨tag, h⟩

/-- The tags of its body are tags of the table. -/
theorem Table.tags_body_subset {tag : String} {c : Component} (h : t.resolve? tag = some c) :
    Node.tagsOfList c.body ⊆ t.tags :=
  fun _ hx => List.mem_flatMap.2 ⟨c, mem_values_of_resolve? h, hx⟩

/-- The tags of a site stand in its nodes, in its slots, or in the table. -/
theorem mem_site_tags {s : Site} {tag : String} :
    tag ∈ s.tags t ↔ tag ∈ Node.tagsOfList s.nodes
      ∨ (∃ slot ∈ s.slots, tag ∈ Node.tagsOfList slot) ∨ tag ∈ t.tags := by
  rw [Site.tags, List.mem_append, List.mem_append, List.mem_flatMap, or_assoc]

/-- **A call meets no new tags**: the body of a component is in the table, and the children of a
call stand beside it. -/
theorem Calls.tags_subset {s s' : Site} (h : Calls t s s') : s'.tags t ⊆ s.tags t := by
  intro tag htag
  rw [mem_site_tags] at htag ⊢
  cases h with
  -- Within the same calls the siblings are a part of those before.
  | rest =>
    simp only [Node.tagsOfList, List.mem_append] at htag ⊢
    grind
  | root | fragment | mixin | iteration =>
    simp only [Node.tagsOfList, Node.tags, List.mem_append] at htag ⊢
    grind
  | consequent | alternate =>
    simp only [Node.tagsOfList, Node.tags, Node.tagsOfOption, List.mem_append] at htag ⊢
    grind
  | plain =>
    simp only [Node.tagsOfList, Node.tags, List.mem_append, List.mem_cons] at htag ⊢
    grind
  | inlined hresolve =>
    -- The body brings tags of the table, and the children were among the siblings.
    rcases htag with htag | ⟨slot, hslot, htag⟩ | htag
    · exact .inr (.inr (Table.tags_body_subset hresolve htag))
    · rcases List.mem_cons.1 hslot with rfl | hslot
      · simp only [Node.tagsOfList, Node.tags, List.mem_append, List.mem_cons]
        exact .inl (.inl (.inr htag))
      · exact .inr (.inl ⟨slot, hslot, htag⟩)
    · exact .inr (.inr htag)
  | slot =>
    -- The children that are laid out now waited for their slot before.
    rcases htag with htag | ⟨slot, hslot, htag⟩ | htag
    · exact .inr (.inl ⟨_, List.mem_cons_self, htag⟩)
    · exact .inr (.inl ⟨slot, List.mem_cons_of_mem _ hslot, htag⟩)
    · exact .inr (.inr htag)

/-- **The stack changes by inlining only**, and what goes onto it is a tag of the site that was not
there. -/
theorem Calls.stack_cases {s s' : Site} (h : Calls t s s') :
    s'.stack = s.stack ∨ ∃ tag, s'.stack = tag :: s.stack ∧ tag ∉ s.stack ∧ tag ∈ s.tags t := by
  cases h with
  | inlined hresolve hnot =>
    refine .inr ⟨_, rfl, hnot, mem_site_tags.2 (.inl ?_)⟩
    simp only [Node.tagsOfList, Node.tags]
    exact List.mem_append_left _ List.mem_cons_self
  | _ => exact .inl rfl

/-- A call leaves no more fresh tags than there were. -/
theorem Calls.fresh_le {s s' : Site} (h : Calls t s s') : s'.fresh t ≤ s.fresh t := by
  refine Site.fresh_le h.tags_subset ?_
  rcases h.stack_cases with hstack | ⟨tag, hstack, -⟩
  · exact hstack ▸ List.Subset.refl _
  · exact hstack ▸ List.subset_cons_self _ _

/-- One that enters a component leaves fewer. -/
theorem Calls.fresh_lt {s s' : Site} (h : Calls t s s') (hstack : s'.stack ≠ s.stack) :
    s'.fresh t < s.fresh t := by
  rcases h.stack_cases with heq | ⟨tag, heq, hnot, hmem⟩
  · exact absurd heq hstack
  · exact Site.fresh_lt h.tags_subset hmem hnot heq

/-- Where the stack stays as it is, a slot is used up or the siblings get smaller. -/
theorem Calls.slots_or_nodes_lt {s s' : Site} (h : Calls t s s') (hstack : s'.stack = s.stack) :
    s'.slots.length < s.slots.length
      ∨ s'.slots.length = s.slots.length ∧ sizeOf s'.nodes < sizeOf s.nodes := by
  cases h with
  | inlined => exact absurd hstack (List.cons_ne_self _ _)
  | slot => exact .inl (Nat.lt_succ_self _)
  | _ => exact .inr ⟨rfl, by simp +arith⟩

/-- **A call makes the measure smaller.** -/
theorem Calls.measure_lt {s s' : Site} (h : Calls t s s') :
    Prod.Lex (· < ·) (Prod.Lex (· < ·) (· < ·)) (s'.measure t) (s.measure t) := by
  -- Entering a component uses up a fresh tag. All other calls go deeper into the slots or the
  -- nodes.
  by_cases hstack : s'.stack = s.stack
  · rcases Nat.lt_or_eq_of_le h.fresh_le with hlt | heq
    · exact .left _ _ hlt
    · rw [Site.measure, Site.measure, heq]
      refine .right _ ?_
      rcases h.slots_or_nodes_lt hstack with hlt | ⟨heq, hlt⟩
      · exact .left _ _ hlt
      · rw [heq]
        exact .right _ hlt
  · exact .left _ _ (h.fresh_lt hstack)

variable (t) in
/-- **Inlining comes to an end**: no site has an endless sequence of calls. -/
theorem wellFounded_calls : WellFounded fun s' s => Calls t s s' := by
  have hlex : WellFounded (Prod.Lex (· < ·) (Prod.Lex (· < ·) (· < ·)) :
      Nat × Nat × Nat → Nat × Nat × Nat → Prop) :=
    (Prod.lex Nat.lt_wfRel (Prod.lex Nat.lt_wfRel Nat.lt_wfRel)).wf
  exact Subrelation.wf (fun h => Calls.measure_lt h) (InvImage.wf (Site.measure t) hlex)

/-! ### Every site comes to pieces -/

variable (t) in
/-- **Every site comes to pieces**, since every site it goes on to does. -/
theorem exists_lays (s : Site) : ∃ ps, Lays t s ps := by
  -- Along the calls of the site; the first sibling decides which rule of `Lays` applies.
  induction s using (wellFounded_calls t).induction with
  | _ s ih =>
  obtain ⟨stack, slots, nodes⟩ := s
  match nodes with
  | [] => exact ⟨_, .nil⟩
  | n :: ns =>
    obtain ⟨qs, hqs⟩ := ih _ .rest
    cases n with
    | root cs =>
      obtain ⟨ps, hps⟩ := ih _ .root
      exact ⟨_, .root hps hqs⟩
    | fragment cs =>
      obtain ⟨ps, hps⟩ := ih _ .fragment
      exact ⟨_, .fragment hps hqs⟩
    | mixin signature cs =>
      obtain ⟨ps, hps⟩ := ih _ .mixin
      exact ⟨_, .mixin hps hqs⟩
    | iteration loop body =>
      obtain ⟨ps, hps⟩ := ih _ .iteration
      exact ⟨_, .iteration hps hqs⟩
    | element tag attributes cs =>
      cases hresolve : t.resolve? tag with
      | none =>
        obtain ⟨ps, hps⟩ := ih _ (.plain (.inl hresolve))
        exact ⟨_, .plain hresolve hps hqs⟩
      | some c =>
        by_cases hmem : tag ∈ stack
        · obtain ⟨ps, hps⟩ := ih _ (.plain (.inr hmem))
          exact ⟨_, .recursive hresolve hmem hps hqs⟩
        · obtain ⟨ps, hps⟩ := ih _ (.inlined hresolve hmem)
          exact ⟨_, .inlined hresolve hmem hps hqs⟩
    | text value =>
      by_cases hempty : value = ""
      · subst hempty
        exact ⟨_, .emptyText hqs⟩
      · exact ⟨_, .text hempty hqs⟩
    | interpolation code =>
      cases hslot : isChildrenSlot code with
      | false => exact ⟨_, .interpolation (.inl hslot) hqs⟩
      | true =>
        match slots with
        | [] => exact ⟨_, .interpolation (.inr rfl) hqs⟩
        | slot :: outer =>
          obtain ⟨ps, hps⟩ := ih _ (.slot hslot)
          exact ⟨_, .slot hslot hps hqs⟩
    | condition test yes no =>
      have hyes : ∃ ps, Lays t ⟨stack, slots, yes.toList⟩ ps := by
        cases yes with
        | none => exact ⟨_, .nil⟩
        | some b => exact ih _ .consequent
      have hno : ∃ ps, Lays t ⟨stack, slots, no.toList⟩ ps := by
        cases no with
        | none => exact ⟨_, .nil⟩
        | some b => exact ih _ .alternate
      obtain ⟨ps, hps⟩ := hyes
      obtain ⟨rs, hrs⟩ := hno
      exact ⟨_, .condition hps hrs hqs⟩

/-! ### A layout of enough depth -/

variable (t) in
/-- What surrounds the nodes of a site, with `depth` more calls inside each other at most. -/
def Site.surroundings (depth : Nat) (stack : List String) (slots : List (List Node)) :
    Surroundings where
  table := t
  stack := stack
  inline tag cs c :=
    match depth with
    | 0 => []
    | depth + 1 => piecesInCalls t depth (tag :: stack) (cs :: slots) c.body
  slot :=
    match slots with
    | [] => none
    | slot :: outer => some fun _ => piecesInCalls t depth stack outer slot

/-- The pieces of nodes within calls are those of the surroundings that the calls make. -/
theorem piecesInCalls_eq (depth : Nat) (stack : List String) (slots : List (List Node))
    (nodes : List Node) : piecesInCalls t depth stack slots nodes
      = piecesOfList (Site.surroundings t depth stack slots) nodes := by
  cases depth <;> cases slots <;> rfl

/-- A branch has the pieces of its node. -/
theorem piecesOfBranch_eq {s : Surroundings} {branch : Option Node} {ps : List Piece}
    (h : ∀ n, branch = some n → piecesOfList s [n] = ps) :
    piecesOfBranch s branch = branch.map fun _ => ps := by
  cases branch with
  | none => rfl
  | some n =>
    have hn := h n rfl
    rw [piecesOfList, piecesOfList, List.append_nil] at hn
    rw [piecesOfBranch, hn, Option.map_some]

/-- **Enough depth is enough**: with as many calls as there are tags left, the bounded layout finds
the pieces that the site comes to. -/
theorem piecesInCalls_of_lays {s : Site} {ps : List Piece} (h : Lays t s ps) {depth : Nat}
    (hdepth : s.fresh t ≤ depth) : piecesInCalls t depth s.stack s.slots s.nodes = ps := by
  rw [piecesInCalls_eq]
  -- All premises but the inlined body keep the bound; that one has a tag less left.
  induction h generalizing depth with
  | nil => rw [piecesOfList]
  | root _ _ ihcs ihns | fragment _ _ ihcs ihns | mixin _ _ ihcs ihns =>
    have hcs := ihcs (Nat.le_trans (Calls.fresh_le (by constructor)) hdepth)
    have hns := ihns (Nat.le_trans (Calls.fresh_le .rest) hdepth)
    rw [piecesOfList, Node.pieces, hcs, hns]
  | plain hresolve _ _ ihcs ihns =>
    have hcs := ihcs (Nat.le_trans (Calls.fresh_le (.plain (.inl hresolve))) hdepth)
    have hns := ihns (Nat.le_trans (Calls.fresh_le .rest) hdepth)
    rw [piecesOfList, Node.pieces, hcs, hns]
    simp only [Site.surroundings, hresolve, List.singleton_append]
  | recursive hresolve hmem _ _ ihcs ihns =>
    have hcs := ihcs (Nat.le_trans (Calls.fresh_le (.plain (.inr hmem))) hdepth)
    have hns := ihns (Nat.le_trans (Calls.fresh_le .rest) hdepth)
    rw [piecesOfList, Node.pieces, hcs, hns]
    simp only [Site.surroundings, hresolve, List.contains_iff_mem, hmem, if_true,
      List.singleton_append]
  | inlined hresolve hnot _ _ ihbody ihns =>
    have hlt := Nat.lt_of_lt_of_le
      (Calls.fresh_lt (.inlined hresolve hnot) (List.cons_ne_self _ _)) hdepth
    obtain ⟨depth, rfl⟩ := Nat.exists_eq_succ_of_ne_zero (Nat.ne_zero_of_lt hlt)
    have hbody := ihbody (Nat.le_of_lt_succ hlt)
    have hns := ihns (Nat.le_trans (Calls.fresh_le .rest) hdepth)
    rw [← piecesInCalls_eq] at hbody
    rw [piecesOfList, Node.pieces, hns]
    simp only [Site.surroundings, hresolve, List.contains_iff_mem, hnot, if_false,
      List.singleton_append, Nat.succ_eq_add_one, hbody]
  | emptyText _ ihns =>
    have hns := ihns (Nat.le_trans (Calls.fresh_le .rest) hdepth)
    rw [piecesOfList, Node.pieces, hns]
    rfl
  | text hne _ ihns =>
    have hns := ihns (Nat.le_trans (Calls.fresh_le .rest) hdepth)
    rw [piecesOfList, Node.pieces, hns, if_neg (by rwa [String.isEmpty_iff]), List.singleton_append]
  | slot hslot _ _ ihslot ihns =>
    have hps := ihslot (Nat.le_trans (Calls.fresh_le (.slot hslot)) hdepth)
    have hns := ihns (Nat.le_trans (Calls.fresh_le .rest) hdepth)
    rw [← piecesInCalls_eq] at hps
    rw [piecesOfList, Node.pieces, hns]
    simp only [Site.surroundings, hslot, hps]
  | interpolation hslot _ ihns =>
    have hns := ihns (Nat.le_trans (Calls.fresh_le .rest) hdepth)
    rw [piecesOfList, Node.pieces, hns]
    rcases hslot with hslot | rfl
    · simp only [hslot, List.singleton_append]
    · cases isChildrenSlot _ <;> rfl
  | condition _ _ _ ihyes ihno ihns =>
    have hns := ihns (Nat.le_trans (Calls.fresh_le .rest) hdepth)
    rw [piecesOfList, Node.pieces, hns, List.singleton_append]
    congr 2
    · refine piecesOfBranch_eq fun n hn => ?_
      subst hn
      exact ihyes (Nat.le_trans (Calls.fresh_le .consequent) hdepth)
    · refine piecesOfBranch_eq fun n hn => ?_
      subst hn
      exact ihno (Nat.le_trans (Calls.fresh_le .alternate) hdepth)
  | iteration _ _ ihbody ihns =>
    have hbody := ihbody (Nat.le_trans (Calls.fresh_le .iteration) hdepth)
    have hns := ihns (Nat.le_trans (Calls.fresh_le .rest) hdepth)
    rw [piecesOfList, Node.pieces, hbody, hns, List.singleton_append]

/-- The site of a tree meets the tags of the tree and of the table. -/
theorem tags_site (n : Node) : n.site.tags t = n.tags ++ t.tags := by
  simp only [Site.tags, Node.site, Node.tagsOfList, List.append_nil, List.flatMap_nil]

/-- The site of a tree has as many tags left as there are in the tree and the table. -/
theorem fresh_site (n : Node) : n.site.fresh t = inliningDepth n t := by
  have hall : (n.tags ++ t.tags).eraseDups.filter (· ∉ n.site.stack)
      = (n.tags ++ t.tags).eraseDups :=
    List.filter_eq_self.2 fun _ _ => decide_eq_true List.not_mem_nil
  rw [Site.fresh, tags_site, hall, inliningDepth]

/-- **The layout of a tree is what its site comes to**, and the site comes to nothing else. -/
theorem lays_site_iff {n : Node} {ps : List Piece} : Lays t n.site ps ↔ ps = n.layout t := by
  have found {qs : List Piece} (h : Lays t n.site qs) : qs = n.layout t :=
    (piecesInCalls_of_lays h (Nat.le_of_eq (fresh_site n))).symm
  constructor
  · exact found
  · rintro rfl
    obtain ⟨qs, hqs⟩ := exists_lays t n.site
    exact found hqs ▸ hqs

/-! ### The stack -/

/-- **The invariant of the stack**: its tags are pairwise distinct, and they and the tags that can
still come up are among the given ones. -/
structure Site.StackFits (t : Table) (tags : List String) (s : Site) : Prop where
  nodup : s.stack.Nodup
  stack_subset : s.stack ⊆ tags
  tags_subset : s.tags t ⊆ tags

/-- A call keeps the stack free of duplicates and among the tags. -/
theorem stackFits_of_calls {tags : List String} {s s' : Site} (h : s.StackFits t tags)
    (hcall : Calls t s s') : s'.StackFits t tags := by
  have htags : s'.tags t ⊆ tags := List.Subset.trans hcall.tags_subset h.tags_subset
  -- A call keeps the stack, or puts a tag on it that is not there yet.
  rcases hcall.stack_cases with hstack | ⟨tag, hstack, hnot, hmem⟩
  · exact ⟨hstack ▸ h.nodup, hstack ▸ h.stack_subset, htags⟩
  · refine ⟨?_, ?_, htags⟩
    · rw [hstack]
      exact List.nodup_cons.2 ⟨hnot, h.nodup⟩
    · rw [hstack]
      exact List.cons_subset.2 ⟨h.tags_subset hmem, h.stack_subset⟩

theorem stackFits_of_reaches {n : Node} {s : Site} (h : Relation.ReflTransGen (Calls t) n.site s) :
    s.StackFits t (n.tags ++ t.tags) := by
  induction h with
  | refl =>
    refine ⟨List.nodup_nil, List.nil_subset _, ?_⟩
    simp only [Site.tags, Node.site, Node.tagsOfList, List.append_nil, List.flatMap_nil]
    exact List.Subset.refl _
  | tail _ hcall ih => exact stackFits_of_calls ih hcall

/-- So the stack is no longer than there are tags. -/
theorem Site.StackFits.length_le {tags : List String} {s : Site} (h : s.StackFits t tags) :
    s.stack.length ≤ tags.eraseDups.length :=
  List.Nodup.length_le_of_subset h.nodup fun _ hx => List.mem_eraseDups.2 (h.stack_subset hx)

/-- **Generation terminates on every tree and table.** No sequence of calls is endless, wherever it
starts. On the way from the tree, the stack never holds a tag twice, and it is never deeper than
there are tags in the tree and the table. The tree comes to exactly one list of pieces, and this is
what each engine prints. -/
theorem generate_terminates (n : Node) (t : Table) :
    (WellFounded fun s' s => Calls t s s') ∧
    (∀ s, Relation.ReflTransGen (Calls t) n.site s →
      s.stack.Nodup ∧ s.stack ⊆ n.tags ++ t.tags ∧
        s.stack.length ≤ (n.tags ++ t.tags).eraseDups.length) ∧
    ∃ ps, (∀ qs, Lays t n.site qs ↔ qs = ps) ∧
      ∀ (e : Engine) (level : Nat), e.generate level n t = e.print level ps := by
  refine ⟨wellFounded_calls t, fun s hs => ?_, n.layout t, fun qs => lays_site_iff,
    fun e level => rfl⟩
  have hfits := stackFits_of_reaches hs
  exact ⟨hfits.nodup, hfits.stack_subset, hfits.length_le⟩

end

end Stencil
