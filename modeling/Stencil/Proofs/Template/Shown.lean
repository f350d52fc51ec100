import Stencil.Optimize.Tree

/-!
# What a tree shows

A tree shows elements, texts, iterations and interpolations, in order and nested as they stand in
it. Roots, fragments and mixins only group, and a condition shows the branch it takes. What exactly
is shown depends on a `View`:

* `View.choice` — whether a test is true, in the scope at its place;
* `View.reading` — which interpolations are read as the text they stand for;
* `View.details` — what is seen of the attributes of an element.

`Node.shown`, `shownAll` and `shownBranch` say what a node, siblings and a branch of a condition
show. Whether siblings stand in a list or in a place for one node makes no difference
(`shownBranch_slotOf`).
-/

namespace Stencil

/-- What is seen of a tree. -/
structure View where
  choice : Scope → Code → Bool
  reading : Code → Option String
  details : List Attribute → List Attribute

/-- A part of what a tree shows. -/
inductive Shown where
  | element (tag : String) (details : List Attribute) (inside : List Shown)
  | text (value : String)
  | iteration (loop : Loop) (inside : List Shown)
  | interpolation (code : Code)

/-- What an interpolation shows: the text it stands for, if it is read as one. -/
def View.interpolated (view : View) (code : Code) : Shown :=
  match view.reading code with
  | some s => .text s
  | none => .interpolation code

/-- Code that a view reads as a text is shown as the text. -/
theorem View.interpolated_of_reading {view : View} {code : Code} {s : String}
    (h : view.reading code = some s) : view.interpolated code = .text s := by
  unfold View.interpolated
  rw [h]

mutual

/-- What a node shows. -/
def Node.shown (view : View) (scope : Scope) : Node → List Shown
  | .root cs => shownAll view scope cs
  | .fragment cs => shownAll view scope cs
  | .element tag attributes cs => [.element tag (view.details attributes) (shownAll view scope cs)]
  | .text value => [.text value]
  | .interpolation code => [view.interpolated code]
  | .condition test consequent alternate =>
    if view.choice scope test then shownBranch view scope consequent
    else shownBranch view scope alternate
  | .iteration loop body => [.iteration loop (shownAll view (loop.scopeInside scope) body)]
  | .mixin signature cs => shownAll view signature.constants cs

/-- What siblings show. -/
def shownAll (view : View) (scope : Scope) : List Node → List Shown
  | [] => []
  | n :: rest => n.shown view scope ++ shownAll view scope rest

/-- What a branch of a condition shows. -/
def shownBranch (view : View) (scope : Scope) : Option Node → List Shown
  | none => []
  | some n => n.shown view scope

end

/-- Nodes side by side show what each part does. -/
theorem shownAll_append (view : View) (scope : Scope) (as bs : List Node) :
    shownAll view scope (as ++ bs) = shownAll view scope as ++ shownAll view scope bs := by
  induction as with
  | nil => rfl
  | cons n as ih => rw [List.cons_append, shownAll, ih, shownAll, List.append_assoc]

/-- A single node shows its own. -/
theorem shownAll_singleton (view : View) (scope : Scope) (n : Node) :
    shownAll view scope [n] = n.shown view scope :=
  List.append_nil _

/-- Siblings in a place for one node show what they show in a list. -/
theorem shownBranch_slotOf (view : View) (scope : Scope) (ns : List Node) :
    shownBranch view scope (Node.slotOf ns) = shownAll view scope ns := by
  match ns with
  | [] => rfl
  | [n] => exact (shownAll_singleton view scope n).symm
  | _ :: _ :: _ => rfl

end Stencil
