import Stencil.Optimize.Required
import Stencil.Proofs.Layout.Inlining

/-!
# Layouts by two tables

A layout asks the table for the components that its tags stand for, and reads the body and the props
of what it gets. Two tables that agree on this for all the tags that can come up give the same
layout (`layout_of_agrees`). The invariant is `Site.Agrees`: a call meets no new tags, so agreement
at a site is agreement at all the sites it goes on to.
-/

namespace Stencil

/-! ### Optimized tables -/

/-- Optimizing changes bodies, and what a tag stands for is settled by names and files. -/
theorem Table.resolve?_optimize (t : Table) (tag : String) :
    t.optimize.resolve? tag = (t.resolve? tag).map Component.optimize := by
  -- An import asks the components for a name and a file, and optimizing keeps both.
  have hfind (d : Dependency) (path : Path) :
      t.optimize.components.values.find? (isImported d path)
        = (t.components.values.find? (isImported d path)).map Component.optimize := by
    rw [values_optimize, List.find?_map]
    rfl
  have himported : t.optimize.imported? tag = (t.imported? tag).map Component.optimize := by
    unfold imported?
    rw [Option.map_bind]
    refine congrArg (Option.bind _) (funext fun d => ?_)
    rw [Function.comp_apply, Option.map_bind]
    exact congrArg (Option.bind _) (funext fun path => hfind d path)
  have hcomponent : t.optimize.component? tag = (t.component? tag).map Component.optimize :=
    Dict.get?_mapValues _ _ _
  unfold resolve?
  rw [himported, hcomponent]
  cases t.imported? tag with
  | none => rfl
  | some c => rfl

/-! ### Agreement -/

section

variable {t t' : Table} {ρ : Component → Component}

/-- What the tags of a site stand for in the second table is what they stand for in the first one,
up to `ρ`. -/
def Site.Agrees (t t' : Table) (ρ : Component → Component) (s : Site) : Prop :=
  ∀ tag ∈ s.tags t, t'.resolve? tag = (t.resolve? tag).map ρ

/-- Sites agree along the calls between them. -/
theorem Site.Agrees.calls {s s' : Site} (h : s.Agrees t t' ρ) (hcall : Calls t s s') :
    s'.Agrees t t' ρ :=
  fun tag htag => h tag (hcall.tags_subset htag)

/-- At an element both tables resolve the tag alike. -/
theorem Site.Agrees.resolve? {stack : List String} {slots : List (List Node)} {tag : String}
    {attributes : List Attribute} {cs ns : List Node}
    (h : (⟨stack, slots, .element tag attributes cs :: ns⟩ : Site).Agrees t t' ρ) :
    t'.resolve? tag = (t.resolve? tag).map ρ := by
  refine h tag (mem_site_tags.2 (.inl ?_))
  simp only [Node.tagsOfList, Node.tags]
  exact List.mem_append_left _ List.mem_cons_self

/-- A branch that is missing has no tags of its own. -/
theorem Site.Agrees.branches {stack : List String} {slots : List (List Node)} {test : Code}
    {yes no : Option Node} {ns : List Node}
    (h : (⟨stack, slots, .condition test yes no :: ns⟩ : Site).Agrees t t' ρ) :
    (⟨stack, slots, yes.toList⟩ : Site).Agrees t t' ρ ∧
      (⟨stack, slots, no.toList⟩ : Site).Agrees t t' ρ := by
  -- Whatever is found in a branch is found in the condition, so only a missing branch needs an
  -- argument.
  have hnone : (⟨stack, slots, []⟩ : Site).Agrees t t' ρ := by
    intro tag htag
    refine h tag (mem_site_tags.2 ?_)
    rcases mem_site_tags.1 htag with hnil | hothers
    · cases hnil
    · exact .inr hothers
  constructor
  · cases yes with
    | none => exact hnone
    | some b => exact h.calls .consequent
  · cases no with
    | none => exact hnone
    | some b => exact h.calls .alternate

variable (hbody : ∀ c, (ρ c).body = c.body)
  (hbind : ∀ c attributes, (ρ c).signature.bind attributes = c.signature.bind attributes)

include hbody hbind

/-- **A site comes to the same pieces by tables that agree.** -/
theorem lays_of_agrees {s : Site} {ps : List Piece} (h : Lays t s ps) (hagrees : s.Agrees t t' ρ) :
    Lays t' s ps := by
  induction h with
  | nil => exact .nil
  | root _ _ ihcs ihns => exact .root (ihcs (hagrees.calls .root)) (ihns (hagrees.calls .rest))
  | fragment _ _ ihcs ihns =>
    exact .fragment (ihcs (hagrees.calls .fragment)) (ihns (hagrees.calls .rest))
  | mixin _ _ ihcs ihns => exact .mixin (ihcs (hagrees.calls .mixin)) (ihns (hagrees.calls .rest))
  | plain hresolve _ _ ihcs ihns =>
    have hresolve' := hagrees.resolve?
    rw [hresolve, Option.map_none] at hresolve'
    exact .plain hresolve' (ihcs (hagrees.calls (.plain (.inl hresolve))))
      (ihns (hagrees.calls .rest))
  | recursive hresolve hmem _ _ ihcs ihns =>
    have hresolve' := hagrees.resolve?
    rw [hresolve, Option.map_some] at hresolve'
    exact .recursive hresolve' hmem (ihcs (hagrees.calls (.plain (.inr hmem))))
      (ihns (hagrees.calls .rest))
  | inlined hresolve hnot _ _ ihbody ihns =>
    -- The body that is inlined is the same one, and so are the props bound around it.
    have hresolve' := hagrees.resolve?
    rw [hresolve, Option.map_some] at hresolve'
    have hinlined := ihbody (hagrees.calls (.inlined hresolve hnot))
    rw [← hbody] at hinlined
    rw [← hbind]
    exact .inlined hresolve' hnot hinlined (ihns (hagrees.calls .rest))
  | emptyText _ ihns => exact .emptyText (ihns (hagrees.calls .rest))
  | text hne _ ihns => exact .text hne (ihns (hagrees.calls .rest))
  | slot hslot _ _ ihslot ihns =>
    exact .slot hslot (ihslot (hagrees.calls (.slot hslot))) (ihns (hagrees.calls .rest))
  | interpolation hslot _ ihns => exact .interpolation hslot (ihns (hagrees.calls .rest))
  | condition _ _ _ ihyes ihno ihns =>
    obtain ⟨hyes, hno⟩ := hagrees.branches
    exact .condition (ihyes hyes) (ihno hno) (ihns (hagrees.calls .rest))
  | iteration _ _ ihbody ihns =>
    exact .iteration (ihbody (hagrees.calls .iteration)) (ihns (hagrees.calls .rest))

/-- **A tree has the same layout by tables that agree.** -/
theorem layout_of_agrees {n : Node} (hagrees : n.site.Agrees t t' ρ) :
    n.layout t' = n.layout t := by
  have hlays : Lays t n.site (n.layout t) := lays_site_iff.2 rfl
  exact (lays_site_iff.1 (lays_of_agrees hbody hbind hlays hagrees)).symm

end

/-- The signature of the component that a tree holds does not show in the layout. -/
theorem layout_root_mixin (s s' : Signature) (body : List Node) (t : Table) :
    (Node.root [.mixin s body]).layout t = (Node.root [.mixin s' body]).layout t := by
  have hlays {ps : List Piece} (h : Lays t (Node.root [.mixin s body]).site ps) :
      Lays t (Node.root [.mixin s' body]).site ps := by
    cases h with
    | root hcs hns =>
      cases hcs with
      | mixin hbody hrest => exact .root (.mixin hbody hrest) hns
  exact lays_site_iff.1 (hlays (lays_site_iff.2 rfl))

end Stencil
