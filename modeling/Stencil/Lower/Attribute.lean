import Stencil.Decimal.Notation
import Stencil.Script.Tree
import Stencil.Template.Attribute
import Stencil.Text.LowerCase

/-!
# Attributes of markup

What becomes of the attributes of a markup literal: event handlers and bookkeeping attributes are
left out, two names change, and a style object of literals becomes a style text.
-/

namespace Stencil.Lower

open Script (Expr Form Property)

/-- An event handler: `on` before an upper-case letter. -/
def isHandler (name : String) : Bool :=
  match name.toList with
  | 'o' :: 'n' :: c :: _ => c.isUpper
  | _ => false

/-- The attribute means nothing in a template. -/
def isIgnored (name : String) : Bool :=
  name == "key" || name == "ref" || isHandler name

/-- The name of an attribute in the template. -/
def templateName (name : String) : String :=
  if name = "className" then "class" else if name = "htmlFor" then "for" else name

/-! ### Styles -/

/-- Style properties whose numbers have no unit. -/
def unitless : List String :=
  ["opacity", "zIndex", "flex", "flexGrow", "flexShrink", "fontWeight", "lineHeight", "order",
   "zoom"]

/-- The name of a style property: a hyphen goes before each upper-case letter, and all is lower
case. -/
def styleName (key : String) : String :=
  Text.lowerCase (String.ofList (key.toList.flatMap fun c => if c.isUpper then ['-', c] else [c]))

/-- The value of a style property that is a literal. A number is in pixels unless it is zero or has
no unit. -/
def styleValue? (key : String) (e : Expr) : Option String :=
  match e.bare.form with
  | .string s => some s
  | .number x =>
    let text := Decimal.text x
    -- Units go by the key as it is written in the object.
    some (if x == 0.0 || unitless.contains key then text else text ++ "px")
  | _ => none

/-- The text of one style property. -/
def style? : Property → Option String
  | .pair key value => do
    let key ← key.spelled?
    let value ← styleValue? key value
    some (styleName key ++ ":" ++ value ++ ";")
  | .spread _ => none

/-- The style text of an object whose values are all literals. -/
def styles? (properties : List Property) : Option String :=
  -- One property that is no literal leaves the whole object to the template.
  (properties.mapM style?).map String.join

/-- The style text of an expression that is such an object. -/
def styleText? (e : Expr) : Option String :=
  match e.bare.form with
  | .object properties => styles? properties
  | _ => none

/-! ### Attributes -/

/-- The attribute for an expression. -/
def valueAttribute? (name : String) (e : Expr) : Option Attribute :=
  match if name = "style" then styleText? e else none with
  -- An object without properties leaves no attribute.
  | some "" => none
  | some styles => some (.literal name styles)
  | none => some (.dynamic name e.text)

/-- The attribute in the template; nothing if it is left out. Spread attributes are not rendered. -/
def attribute? : Script.Attribute → Option Attribute
  | .flag name => if isIgnored name then none else some (.on (templateName name))
  | .string name value =>
    if isIgnored name then none else some (.literal (templateName name) value)
  | .value name e => if isIgnored name then none else valueAttribute? (templateName name) e
  | .spread _ => none

end Stencil.Lower
