import Stencil.Text.Blank

/-!
# Code and attributes

Code is the source text of an expression that only the rendered template can evaluate. The value of
an attribute is either settled, as a flag or a text, or still code.
-/

namespace Stencil

/-- The source text of an expression whose value is only known when the template is rendered. -/
structure Code where
  text : String
deriving DecidableEq, Repr

/-- The code is nothing but the given name, blanks aside. -/
def Code.isIdentifier (code : Code) (name : String) : Bool :=
  Text.trim code.text == name

/-- The value of an attribute. -/
inductive AttributeValue where
  | flag (on : Bool)
  | literal (text : String)
  | dynamic (code : Code)
deriving DecidableEq, Repr

/-- An attribute of an element. -/
structure Attribute where
  name : String
  value : AttributeValue
  /-- The value comes from a prop that is always given. -/
  required : Bool := false
deriving DecidableEq, Repr

namespace Attribute

/-- An attribute that is switched on. -/
def on (name : String) : Attribute where
  name := name
  value := .flag true

/-- An attribute with a text. -/
def literal (name text : String) : Attribute where
  name := name
  value := .literal text

/-- An attribute with a value to be evaluated. -/
def dynamic (name code : String) : Attribute where
  name := name
  value := .dynamic ⟨code⟩

/-- The value needs no evaluation. -/
def isSettled (a : Attribute) : Bool :=
  match a.value with
  | .dynamic _ => false
  | _ => true

@[simp] theorem isSettled_on (name : String) : (on name).isSettled = true := rfl

@[simp] theorem isSettled_literal (name text : String) : (literal name text).isSettled = true := rfl

@[simp] theorem isSettled_dynamic (name code : String) : (dynamic name code).isSettled = false :=
  rfl

end Attribute

end Stencil
