import Stencil.Optimize.Tree

/-!
# Required attributes

An attribute rooted in a required prop of the component around it always has a value, so it needs no
test in the template. `Node.markRequired` marks such attributes, and `optimize` runs all the passes
over a tree and a table.
-/

namespace Stencil

/-- Marks an attribute by the name its code is rooted in. Outside of components, and where the code
is not rooted in a name, it stays as it is. -/
def Attribute.markRequired (required : Option (List String)) (a : Attribute) : Attribute :=
  match a.value, required with
  | .dynamic code, some names =>
    match rootName? code.text with
    | some name => { a with required := names.contains name }
    | none => a
  | _, _ => a

/-- The names of the required props of a component. -/
def Signature.requiredNames (s : Signature) : List String :=
  (s.props.filter (·.required)).map PropDef.name

mutual

/-- Marks the attributes in a tree, where `required` holds the required props of the component
around it. -/
def Node.markRequiredIn (required : Option (List String)) : Node → Node
  | .root cs => .root (markRequiredAll required cs)
  | .fragment cs => .fragment (markRequiredAll required cs)
  | .element tag attributes cs =>
    .element tag (attributes.map (·.markRequired required)) (markRequiredAll required cs)
  | .text value => .text value
  | .interpolation code => .interpolation code
  | .condition test consequent alternate =>
    .condition test (markRequiredBranch required consequent) (markRequiredBranch required alternate)
  | .iteration loop body => .iteration loop (markRequiredAll required body)
  -- A mixin brings its own required names, whatever stands around it.
  | .mixin signature cs => .mixin signature (markRequiredAll (some signature.requiredNames) cs)

def markRequiredAll (required : Option (List String)) : List Node → List Node
  | [] => []
  | n :: rest => n.markRequiredIn required :: markRequiredAll required rest

def markRequiredBranch (required : Option (List String)) : Option Node → Option Node
  | none => none
  | some n => some (n.markRequiredIn required)

end

/-- Marks the attributes in a tree that are rooted in a required prop. -/
def Node.markRequired (n : Node) : Node :=
  n.markRequiredIn none

/-- Runs all the passes over a tree. -/
def Node.optimize (n : Node) : Node :=
  (n.simplify Dict.empty).markRequired

/-- Runs all the passes over the body of a component. -/
def Component.optimize (c : Component) : Component :=
  { c with
    body := markRequiredAll (some c.signature.requiredNames)
      (simplifyChildren c.signature.constants c.body) }

/-- Runs all the passes over every component of a table. -/
def Table.optimize (t : Table) : Table :=
  { t with components := t.components.mapValues fun _ c => c.optimize }

/-- The components of an optimized table are the optimized ones. -/
theorem Table.values_optimize (t : Table) :
    t.optimize.components.values = t.components.values.map Component.optimize := by
  unfold Table.optimize Dict.values
  rw [Dict.entries_mapValues, List.map_map, List.map_map]
  rfl

end Stencil
