import Stencil.Optimize.Expression
import Stencil.Template.Table

/-!
# Simplifying trees

What the optimizer does to a tree: attributes with a constant value are settled or dropped, constant
texts become text nodes, and a condition whose test is known gives way to the branch it takes. Each
part is judged in the scope at its place: the constants of the nearest mixin, without the names that
the iterations in between bind.

A branch that takes the place of its condition is looked at again, and a fragment that takes the
place of its condition among siblings is opened there.
-/

namespace Stencil

/-! ### Attributes -/

/-- What one look at the code of an attribute comes to. -/
inductive Settling where
  /-- The end: the value, or nothing if the attribute is dropped. -/
  | done (value : Option AttributeValue)
  /-- The code is folded, and the folded code is to be looked at. -/
  | again (folded : Code)

/-- One look at the code of an attribute. A constant settles or drops it, a template literal with a
constant substitution is folded, and any other code stays. -/
def settleOnce (scope : Scope) (code : Code) : Settling :=
  let trimmed := Text.trim code.text
  -- These two words settle without being evaluated.
  if trimmed = "true" then .done (some (.flag true))
  else if trimmed = "undefined" then .done none
  else
    match evaluate? trimmed scope with
    | some (.string s) => .done (some (.literal s))
    | some (.number x) => .done (some (.literal (Value.text (.number x))))
    | some (.bool true) => .done (some (.flag true))
    | some (.bool false) | some .null | some .undefined => .done none
    | none =>
      -- What is not known as a whole may be folded in part, and is looked at again then.
      match foldTemplate? trimmed scope with
      | some folded => .again ⟨folded⟩
      | none => .done (some (.dynamic code))

/-- The value of an attribute with this code, looked at until nothing is left to fold. The text of a
folded substitution can open a new one, so this need not end. -/
def Code.settle? (scope : Scope) (code : Code) : Option AttributeValue :=
  match settleOnce scope code with
  | .done value => value
  | .again folded => folded |>.settle? scope
partial_fixpoint

/-- `Code.settle?` with its first looks counted, so that it computes wherever they are enough. -/
def settleFrom? (scope : Scope) : Nat → Code → Option AttributeValue
  | 0, code => code.settle? scope
  | looks + 1, code =>
    match settleOnce scope code with
    | .done value => value
    | .again folded => settleFrom? scope looks folded

/-- The number of looks that are counted: far more than folding takes, unless the folded text keeps
opening new substitutions. -/
def countedLooks (code : Code) (scope : Scope) : Nat :=
  scope.values.foldl (fun n value => n + value.length) (code.text.length + 1)

/-- The attribute with its value settled where it is constant; nothing if it is dropped. -/
def Attribute.simplify? (scope : Scope) (a : Attribute) : Option Attribute :=
  match a.value with
  | .dynamic code =>
    (settleFrom? scope (countedLooks code scope) code).map fun v => { a with value := v }
  | _ => some a

/-! ### Scopes -/

/-- A character of an ASCII name, or of the beginning of one. -/
def isNameChar (first : Bool) (c : Char) : Bool :=
  c.isAlpha || c == '_' || c == '$' || (!first && c.isDigit)

/-- The ASCII names that occur in a text, where `current` holds the reversed name being read. -/
def namesFrom (current : List Char) : List Char → List String
  | [] => if current.isEmpty then [] else [String.ofList current.reverse]
  | c :: rest =>
    if isNameChar current.isEmpty c then namesFrom (c :: current) rest
    else if current.isEmpty then namesFrom [] rest
    else String.ofList current.reverse :: namesFrom [] rest

/-- The ASCII names that occur in a binding. -/
def bindingNames (binding : String) : List String :=
  namesFrom [] binding.toList

/-- The scope inside a loop: without the names that the loop binds. -/
def Loop.scopeInside (l : Loop) (scope : Scope) : Scope :=
  scope.eraseAll (l.bindings.flatMap bindingNames)

/-! ### Trees -/

/-- The text that an interpolation stands for, if it is a string literal or undefined. -/
def constantText? (code : Code) : Option String :=
  let text := Text.trim code.text
  if text = "undefined" then some "" else stringLiteral? text

/-- The test with a guard reduced to the name it tests. -/
def reduceTest (test : Code) : Code :=
  match guardName? test.text with
  | some name => ⟨name⟩
  | none => test

mutual

/-- Simplifies what stands below a node; the node itself stays. -/
def Node.simplify (scope : Scope) : Node → Node
  | .root cs => .root (simplifyChildren scope cs)
  | .fragment cs => .fragment (simplifyChildren scope cs)
  | .element tag attributes cs =>
    .element tag (attributes.filterMap (·.simplify? scope)) (simplifyChildren scope cs)
  | .text value => .text value
  | .interpolation code => .interpolation code
  -- Conditions and interpolations are rewritten only where they stand in a place that can take what
  -- is left of them.
  | .condition test consequent alternate =>
    .condition test (simplifyBranch scope consequent) (simplifyBranch scope alternate)
  | .iteration loop body => .iteration loop (simplifyChildren (loop.scopeInside scope) body)
  | .mixin signature cs => .mixin signature (simplifyChildren signature.constants cs)

/-- Simplifies siblings. -/
def simplifyChildren (scope : Scope) : List Node → List Node
  | [] => []
  | n :: rest => n.simplifyAmong scope ++ simplifyChildren scope rest

/-- What a node among siblings becomes. -/
def Node.simplifyAmong (scope : Scope) : Node → List Node
  | .interpolation code =>
    match constantText? code with
    | some s => [.text s]
    | none => [.interpolation code]
  | .condition test consequent alternate =>
    -- A branch that is taken gives its nodes to the siblings.
    let test := reduceTest test
    match truth? test.text scope with
    | some true => simplifyTaken scope consequent
    | some false => simplifyTaken scope alternate
    | none =>
      [.condition test (simplifyBranch scope consequent) (simplifyBranch scope alternate)]
  | .root cs => [.root (simplifyChildren scope cs)]
  | .fragment cs => [.fragment (simplifyChildren scope cs)]
  | .element tag attributes cs =>
    [.element tag (attributes.filterMap (·.simplify? scope)) (simplifyChildren scope cs)]
  | .text value => [.text value]
  | .iteration loop body => [.iteration loop (simplifyChildren (loop.scopeInside scope) body)]
  | .mixin signature cs => [.mixin signature (simplifyChildren signature.constants cs)]

/-- What the branch that a condition among siblings takes becomes. -/
def simplifyTaken (scope : Scope) : Option Node → List Node
  | none => []
  | some (.fragment cs) => simplifyChildren scope cs
  | some n => n.simplifyAmong scope

/-- What a branch of a condition becomes. -/
def simplifyBranch (scope : Scope) : Option Node → Option Node
  | none => none
  | some n => n.simplifySlot scope

/-- What a node in a branch becomes. -/
def Node.simplifySlot (scope : Scope) : Node → Option Node
  | .interpolation code =>
    match constantText? code with
    | some s => some (.text s)
    | none => some (.interpolation code)
  | .condition test consequent alternate =>
    -- Here a branch that is taken takes the place of the condition.
    let test := reduceTest test
    match truth? test.text scope with
    | some true => simplifyBranch scope consequent
    | some false => simplifyBranch scope alternate
    | none =>
      some (.condition test (simplifyBranch scope consequent) (simplifyBranch scope alternate))
  | .root cs => some (.root (simplifyChildren scope cs))
  | .fragment cs => some (.fragment (simplifyChildren scope cs))
  | .element tag attributes cs =>
    some (.element tag (attributes.filterMap (·.simplify? scope)) (simplifyChildren scope cs))
  | .text value => some (.text value)
  | .iteration loop body =>
    some (.iteration loop (simplifyChildren (loop.scopeInside scope) body))
  | .mixin signature cs => some (.mixin signature (simplifyChildren signature.constants cs))

end

/-! ### Nodes that are kept -/

/-- The pass keeps the node in its place: it is no interpolation and no condition. -/
def Node.Kept : Node → Prop
  | .interpolation _ | .condition _ _ _ => False
  | _ => True

/-- A node is kept, unless it is an interpolation or a condition. -/
theorem Node.kept_cases (n : Node) :
    n.Kept ∨ (∃ code, n = .interpolation code) ∨
      ∃ test consequent alternate, n = .condition test consequent alternate := by
  cases n with
  | interpolation code => exact .inr (.inl ⟨code, rfl⟩)
  | condition test consequent alternate => exact .inr (.inr ⟨test, consequent, alternate, rfl⟩)
  | _ => exact .inl trivial

/-- A kept node is kept when it is simplified. -/
theorem Node.Kept.simplify {n : Node} (h : n.Kept) (scope : Scope) : (n.simplify scope).Kept := by
  cases n <;> trivial

/-- Among others it stays one node. -/
theorem simplifyAmong_of_kept (scope : Scope) {n : Node} (h : n.Kept) :
    n.simplifyAmong scope = [n.simplify scope] := by
  cases n <;> first | rfl | cases h

/-- Alone in its place it stays there. -/
theorem simplifySlot_of_kept (scope : Scope) {n : Node} (h : n.Kept) :
    n.simplifySlot scope = some (n.simplify scope) := by
  cases n <;> first | rfl | cases h

/-- Only a fragment is not put among the siblings as it is. -/
theorem simplifyTaken_cases (scope : Scope) (n : Node) :
    (∃ cs, n = .fragment cs) ∨ simplifyTaken scope (some n) = n.simplifyAmong scope := by
  cases n with
  | fragment cs => exact .inl ⟨cs, rfl⟩
  | _ => exact .inr rfl

end Stencil
