import Mathlib.Data.List.Forall2
import Stencil.Optimize.Required

/-!
# Required props behind loops

An attribute is marked by the name its code is rooted in, if that is a required prop of the mixin
around it. But a loop between the two can bind that name, and then the attribute is rooted in what
the loop binds. Folding takes the names that a loop binds out of its scope; marking never looks at
loops.

* `Enclosure` — the mixin around a place, and the loops in between;
* `Node.placed` — the attributes of a tree, each with what encloses it;
* `Node.mapAttributes` — a tree with its attributes rewritten by what encloses them, and
  `mapAttributes_eq_iff`, by which two rewritings are told apart at the attributes;
* `Enclosure.markInScope` — the attribute marked as the scope at its place has it.

The names that a loop binds are a parameter: a reading of the bindings may take all the names that
occur in a pattern, or leave some out. The main theorem is `markRequired_follows_scopes_iff`:
marking follows the scopes in exactly the trees where no attribute is captured, that is, rooted in a
required prop that a loop rebinds.
-/

namespace Stencil

/-! ### Attributes and what encloses them -/

/-- Where an attribute stands, as far as the names in it depend on it. -/
structure Enclosure where
  /-- The signature of the nearest mixin around the place. -/
  mixin : Option Signature := none
  /-- The loops between that mixin and the place, the outermost first. -/
  loops : List Loop := []
deriving DecidableEq

namespace Enclosure

/-- Outside of every mixin and every loop. -/
def outermost : Enclosure := {}

/-- Inside a loop that stands there. -/
def inLoop (e : Enclosure) (l : Loop) : Enclosure :=
  { e with loops := e.loops ++ [l] }

/-- Inside a mixin, wherever the mixin stands. -/
def inMixin (signature : Signature) : Enclosure where
  mixin := some signature

/-- The names of the required props of the nearest mixin. -/
def requiredNames? (e : Enclosure) : Option (List String) :=
  e.mixin.map Signature.requiredNames

end Enclosure

mutual

/-- The attributes in a tree, in document order, each with what encloses it. -/
def Node.placed (e : Enclosure) : Node → List (Enclosure × Attribute)
  | .root cs | .fragment cs => placedAll e cs
  | .element _ attributes cs => attributes.map (e, ·) ++ placedAll e cs
  | .text _ | .interpolation _ => []
  | .condition _ consequent alternate => placedBranch e consequent ++ placedBranch e alternate
  | .iteration loop body => placedAll (e.inLoop loop) body
  | .mixin signature cs => placedAll (.inMixin signature) cs

/-- The attributes in siblings. -/
def placedAll (e : Enclosure) : List Node → List (Enclosure × Attribute)
  | [] => []
  | n :: rest => n.placed e ++ placedAll e rest

def placedBranch (e : Enclosure) : Option Node → List (Enclosure × Attribute)
  | none => []
  | some n => n.placed e

end

section

variable (f : Enclosure → Attribute → Attribute)

mutual

/-- The tree with each attribute rewritten by what encloses it. -/
def Node.mapAttributes (e : Enclosure) : Node → Node
  | .root cs => .root (mapAttributesAll e cs)
  | .fragment cs => .fragment (mapAttributesAll e cs)
  | .element tag attributes cs => .element tag (attributes.map (f e)) (mapAttributesAll e cs)
  | .text value => .text value
  | .interpolation code => .interpolation code
  | .condition test consequent alternate =>
    .condition test (mapAttributesBranch e consequent) (mapAttributesBranch e alternate)
  | .iteration loop body => .iteration loop (mapAttributesAll (e.inLoop loop) body)
  | .mixin signature cs => .mixin signature (mapAttributesAll (.inMixin signature) cs)

def mapAttributesAll (e : Enclosure) : List Node → List Node
  | [] => []
  | n :: rest => n.mapAttributes e :: mapAttributesAll e rest

def mapAttributesBranch (e : Enclosure) : Option Node → Option Node
  | none => none
  | some n => some (n.mapAttributes e)

end

mutual

/-- Rewriting the attributes of a tree rewrites them in their places. -/
theorem Node.placed_mapAttributes (e : Enclosure) : ∀ n : Node,
    (n.mapAttributes f e).placed e = (n.placed e).map fun p => (p.1, f p.1 p.2)
  | .root cs => placedAll_mapAttributes e cs
  | .fragment cs => placedAll_mapAttributes e cs
  -- The attributes of the element come first, each at the place of the element.
  | .element tag attributes cs => by
    rw [Node.mapAttributes, Node.placed, Node.placed, List.map_append,
      placedAll_mapAttributes e cs, List.map_map, List.map_map]
    rfl
  | .text _ => rfl
  | .interpolation _ => rfl
  | .condition test consequent alternate => by
    rw [Node.mapAttributes, Node.placed, Node.placed, List.map_append,
      placedBranch_mapAttributes e consequent, placedBranch_mapAttributes e alternate]
  | .iteration loop body => placedAll_mapAttributes (e.inLoop loop) body
  | .mixin signature cs => placedAll_mapAttributes (.inMixin signature) cs

/-- The attributes of mapped children are the mapped ones, at the same places. -/
theorem placedAll_mapAttributes (e : Enclosure) : ∀ cs : List Node,
    placedAll e (mapAttributesAll f e cs) = (placedAll e cs).map fun p => (p.1, f p.1 p.2)
  | [] => rfl
  | n :: rest => by
    rw [mapAttributesAll, placedAll, placedAll, List.map_append, n.placed_mapAttributes e,
      placedAll_mapAttributes e rest]

theorem placedBranch_mapAttributes (e : Enclosure) : ∀ b : Option Node,
    placedBranch e (mapAttributesBranch f e b) = (placedBranch e b).map fun p => (p.1, f p.1 p.2)
  | none => rfl
  | some n => n.placed_mapAttributes e

end

end

section

variable {f g : Enclosure → Attribute → Attribute}

mutual

/-- **Two rewritings make one tree if they agree on the attributes of the tree**, and only then. -/
theorem Node.mapAttributes_eq_iff (e : Enclosure) : ∀ n : Node,
    n.mapAttributes f e = n.mapAttributes g e ↔ ∀ p ∈ n.placed e, f p.1 p.2 = g p.1 p.2
  | .root cs => by
    rw [Node.mapAttributes, Node.mapAttributes, Node.root.injEq]
    exact mapAttributesAll_eq_iff e cs
  | .fragment cs => by
    rw [Node.mapAttributes, Node.mapAttributes, Node.fragment.injEq]
    exact mapAttributesAll_eq_iff e cs
  -- The attributes of an element are rewritten one by one, and its children apart from them.
  | .element tag attributes cs => by
    rw [Node.mapAttributes, Node.mapAttributes, Node.element.injEq,
      mapAttributesAll_eq_iff e cs, Node.placed, List.forall_mem_append, List.forall_mem_map,
      List.map_inj_left]
    exact and_iff_right rfl
  | .text _ => iff_of_true rfl nofun
  | .interpolation _ => iff_of_true rfl nofun
  | .condition test consequent alternate => by
    rw [Node.mapAttributes, Node.mapAttributes, Node.condition.injEq,
      mapAttributesBranch_eq_iff e consequent, mapAttributesBranch_eq_iff e alternate,
      Node.placed, List.forall_mem_append]
    exact and_iff_right rfl
  | .iteration loop body => by
    rw [Node.mapAttributes, Node.mapAttributes, Node.iteration.injEq,
      mapAttributesAll_eq_iff (e.inLoop loop) body]
    exact and_iff_right rfl
  | .mixin signature cs => by
    rw [Node.mapAttributes, Node.mapAttributes, Node.mixin.injEq,
      mapAttributesAll_eq_iff (.inMixin signature) cs]
    exact and_iff_right rfl

/-- Two maps agree on children just if they agree on each attribute there. -/
theorem mapAttributesAll_eq_iff (e : Enclosure) : ∀ cs : List Node,
    mapAttributesAll f e cs = mapAttributesAll g e cs
      ↔ ∀ p ∈ placedAll e cs, f p.1 p.2 = g p.1 p.2
  | [] => iff_of_true rfl nofun
  | n :: rest => by
    rw [mapAttributesAll, mapAttributesAll, List.cons.injEq, n.mapAttributes_eq_iff e,
      mapAttributesAll_eq_iff e rest, placedAll, List.forall_mem_append]

theorem mapAttributesBranch_eq_iff (e : Enclosure) : ∀ b : Option Node,
    mapAttributesBranch f e b = mapAttributesBranch g e b
      ↔ ∀ p ∈ placedBranch e b, f p.1 p.2 = g p.1 p.2
  | none => iff_of_true rfl nofun
  | some n => by
    rw [mapAttributesBranch, mapAttributesBranch, Option.some.injEq]
    exact n.mapAttributes_eq_iff e

end

end

/-! ### Marking -/

/-- What marking does to an attribute: it asks for the props of the mixin, and not for the loops. -/
def Enclosure.mark (e : Enclosure) (a : Attribute) : Attribute :=
  a.markRequired e.requiredNames?

mutual

/-- Marking a tree is marking each attribute where it stands. -/
theorem Node.markRequiredIn_eq (e : Enclosure) : ∀ n : Node,
    n.markRequiredIn e.requiredNames? = n.mapAttributes Enclosure.mark e
  | .root cs => congrArg Node.root (markRequiredAll_eq e cs)
  | .fragment cs => congrArg Node.fragment (markRequiredAll_eq e cs)
  | .element tag _ cs => congrArg (Node.element tag _) (markRequiredAll_eq e cs)
  | .text _ => rfl
  | .interpolation _ => rfl
  | .condition test consequent alternate =>
    congrArg₂ (Node.condition test) (markRequiredBranch_eq e consequent)
      (markRequiredBranch_eq e alternate)
  -- A loop leaves the required names alone: the pass has no place for what a loop binds.
  | .iteration loop body => congrArg (Node.iteration loop) (markRequiredAll_eq (e.inLoop loop) body)
  | .mixin signature cs =>
    congrArg (Node.mixin signature) (markRequiredAll_eq (.inMixin signature) cs)

theorem markRequiredAll_eq (e : Enclosure) : ∀ cs : List Node,
    markRequiredAll e.requiredNames? cs = mapAttributesAll Enclosure.mark e cs
  | [] => rfl
  | n :: rest => congrArg₂ List.cons (n.markRequiredIn_eq e) (markRequiredAll_eq e rest)

theorem markRequiredBranch_eq (e : Enclosure) : ∀ b : Option Node,
    markRequiredBranch e.requiredNames? b = mapAttributesBranch Enclosure.mark e b
  | none => rfl
  | some n => congrArg some (n.markRequiredIn_eq e)

end

/-- The name that the code of an attribute is rooted in, if the value is still code. -/
def Attribute.root? (a : Attribute) : Option String :=
  match a.value with
  | .dynamic code => rootName? code.text
  | _ => none

/-- What marking leaves of an attribute at its place. -/
structure Marked (before after : Enclosure × Attribute) : Prop where
  place : after.1 = before.1
  /-- An attribute that is rooted in a name is marked by the props of the mixin around it. -/
  rooted : ∀ s ∈ before.1.mixin, ∀ name ∈ before.2.root?,
    after.2 = { before.2 with required := s.requiredNames.contains name }
  other : before.1.mixin = none ∨ before.2.root? = none → after.2 = before.2

namespace Enclosure

section

-- The names that a loop binds.
variable (binds : Loop → List String)

/-- The names that the loops around the place bind. -/
def boundNames (e : Enclosure) : List String :=
  e.loops.flatMap binds

/-- The attribute as the scope at its place has it: marked if it is rooted in a required prop of the
mixin around it, which no loop in between rebinds. -/
def markInScope (e : Enclosure) (a : Attribute) : Attribute :=
  match e.mixin, a.root? with
  | some s, some name =>
    { a with required := s.requiredNames.contains name && !(e.boundNames binds).contains name }
  | _, _ => a

/-- Some loop rebinds the required prop that the attribute would be rooted in. -/
def Captures (e : Enclosure) (a : Attribute) : Prop :=
  ∃ s ∈ e.mixin, ∃ name ∈ a.root?, name ∈ s.requiredNames ∧ name ∈ e.boundNames binds

end

/-- An attribute that is rooted in a name is marked if the mixin requires the name. -/
theorem mark_of_root {e : Enclosure} {a : Attribute} {s : Signature} {name : String}
    (hmixin : e.mixin = some s) (hroot : a.root? = some name) :
    e.mark a = { a with required := s.requiredNames.contains name } := by
  unfold mark requiredNames? Attribute.markRequired
  rw [hmixin]
  unfold Attribute.root? at hroot
  -- Only code has a root.
  cases hvalue : a.value with
  | dynamic code =>
    simp only [hvalue] at hroot
    simp only [hroot, Option.map_some]
  | _ =>
    simp only [hvalue] at hroot
    cases hroot

/-- Outside of a mixin, or without a root, an attribute stays as it is. -/
theorem mark_of_none {e : Enclosure} {a : Attribute} (h : e.mixin = none ∨ a.root? = none) :
    e.mark a = a := by
  unfold mark requiredNames? Attribute.markRequired
  cases hvalue : a.value with
  | dynamic code =>
    cases hmixin : e.mixin with
    | none => rfl
    | some s =>
      -- There is a mixin, so what is missing is a name that the code is rooted in.
      have hroot : rootName? code.text = none := by
        have hnone := h.resolve_left (by rw [hmixin]; nofun)
        simpa only [Attribute.root?, hvalue] using hnone
      simp only [hroot, Option.map_some]
  | _ => rfl

/-- What is marked differs in the mark only. -/
theorem marked_mark (e : Enclosure) (a : Attribute) : Marked (e, a) (e, e.mark a) where
  place := rfl
  rooted _ hs _ hname := mark_of_root hs hname
  other h := mark_of_none h

/-- **Marking an attribute follows the scope unless the attribute is captured.** -/
theorem mark_eq_markInScope_iff (binds : Loop → List String) (e : Enclosure) (a : Attribute) :
    e.mark a = e.markInScope binds a ↔ ¬ e.Captures binds a := by
  unfold markInScope Captures
  cases hmixin : e.mixin with
  | none => exact iff_of_true (mark_of_none (.inl hmixin)) nofun
  | some s =>
    cases hroot : a.root? with
    | none =>
      refine iff_of_true (mark_of_none (.inr hroot)) ?_
      rintro ⟨_, _, _, hname, _⟩
      cases hname
    | some name =>
      -- The marks differ only if the prop is required and some loop binds its name.
      have hmarks : s.requiredNames.contains name =
            (s.requiredNames.contains name && !(e.boundNames binds).contains name)
          ↔ ¬ (name ∈ s.requiredNames ∧ name ∈ e.boundNames binds) := by
        rw [← List.contains_iff_mem, ← List.contains_iff_mem]
        cases s.requiredNames.contains name <;> cases (e.boundNames binds).contains name <;> decide
      rw [mark_of_root hmixin hroot]
      simp only [Attribute.mk.injEq, true_and, Option.mem_def, Option.some.injEq, exists_eq_left',
        hmarks]

end Enclosure

/-- **Marking follows the scopes where no attribute is captured.** Marking rewrites the attributes
of a tree and nothing else. One that is rooted in a name is marked by the required props of the
nearest mixin, whatever the loops in between bind. So, whichever names a loop is taken to bind, the
marks are as the scopes have them in exactly the trees where no loop rebinds a required prop that an
attribute is rooted in. -/
theorem markRequired_follows_scopes_iff (binds : Loop → List String) (n : Node) :
    n.markRequired = n.mapAttributes Enclosure.mark .outermost ∧
      List.Forall₂ Marked (n.placed .outermost) (n.markRequired.placed .outermost) ∧
      (n.markRequired = n.mapAttributes (Enclosure.markInScope binds) .outermost
        ↔ ∀ p ∈ n.placed .outermost, ¬ p.1.Captures binds p.2) := by
  have hmark : n.markRequired = n.mapAttributes Enclosure.mark .outermost :=
    n.markRequiredIn_eq .outermost
  -- Both passes change attribute by attribute, so they agree on the tree if they agree on each.
  refine ⟨hmark, ?_, ?_⟩
  · rw [hmark, Node.placed_mapAttributes]
    exact List.forall₂_map_right_iff.2 (List.forall₂_same.2 fun p _ => p.1.marked_mark p.2)
  · rw [hmark, Node.mapAttributes_eq_iff]
    exact forall₂_congr fun p _ => p.1.mark_eq_markInScope_iff binds p.2

/-- **The item of a loop** that has the name of a required prop is marked like the prop. -/
theorem loop_item_marked :
    let list : Signature := { name := "List", props := [⟨"items", false⟩, ⟨"item", true⟩] }
    let loop : Loop := { iterable := ⟨"items"⟩, item := "item" }
    let title : Attribute := .dynamic "title" "item"
    let n : Node := .mixin list [.element "ul" [] [.iteration loop [.element "li" [title] []]]]
    n.markRequired.placed .outermost = [(⟨some list, [loop]⟩, { title with required := true })] ∧
      Enclosure.Captures Loop.bindings ⟨some list, [loop]⟩ title ∧
      n.mapAttributes (Enclosure.markInScope Loop.bindings) .outermost = n := by
  intro list loop title n
  refine ⟨by decide +kernel, ⟨list, rfl, "item", by decide +kernel, by decide +kernel⟩, ?_⟩
  -- By scopes the attribute stays as it is, since its name is the loop's.
  have hscope : Enclosure.markInScope Loop.bindings ⟨some list, [loop]⟩ title = title := by
    decide +kernel
  exact congrArg
    (fun a => Node.mixin list [.element "ul" [] [.iteration loop [.element "li" [a] []]]]) hscope

end Stencil
