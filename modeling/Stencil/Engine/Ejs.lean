import Stencil.Engine.Line
import Stencil.Text.Entity

/-!
# EJS

Code stands in the template as it is. A scope is a function that is called in place, so its bindings
are local to it.
-/

namespace Stencil.Ejs

/-- A line of an EJS template. -/
inductive Directive where
  | startTag (tag : String) (attributes : List Attribute)
  | endTag (tag : String)
  /-- An element without content, start and end tag in one line. -/
  | emptyTag (tag : String) (attributes : List Attribute)
  | voidTag (tag : String) (attributes : List Attribute)
  | text (value : String)
  | value (code : Code)
  | startIf (test : Code)
  | otherwise
  | endIf
  | startEach (loop : Loop)
  | endEach
  | startScope (bindings : List Binding)
  | endScope (bindings : List Binding)

/-! ### Spelling -/

/-- An attribute in a tag. One that may be missing is written under a test for its value. -/
def attributeText (a : Attribute) : String :=
  match a.value with
  | .flag true => " " ++ a.name
  | .flag false => ""
  | .literal s => " " ++ a.name ++ "=\"" ++ Text.encodeEntities s ++ "\""
  | .dynamic code =>
    let assigned := " " ++ a.name ++ "=\"<%= " ++ code.text ++ " %>\""
    if a.required then assigned
    else "<% if (" ++ code.text ++ ") \x7b %>" ++ assigned ++ "<% \x7d %>"

/-- A tag without its brackets. -/
def tagText (tag : String) (attributes : List Attribute) : String :=
  tag ++ String.join (attributes.map attributeText)

/-- The text of a line. -/
def Directive.spell : Directive → String
  | .startTag tag attributes => "<" ++ tagText tag attributes ++ ">"
  | .endTag tag => "</" ++ tag ++ ">"
  | .emptyTag tag attributes => "<" ++ tagText tag attributes ++ "></" ++ tag ++ ">"
  | .voidTag tag attributes => "<" ++ tagText tag attributes ++ " />"
  | .text s => s
  | .value code => "<%= " ++ code.text ++ " %>"
  | .startIf test => "<% if (" ++ test.text ++ ") \x7b %>"
  | .otherwise => "<% \x7d else \x7b %>"
  | .endIf => "<% \x7d %>"
  -- A loop is a call with a function, and so is a scope, whose arguments come behind its body.
  | .startEach loop =>
    "<% " ++ loop.iterable.text ++ ".forEach(function(" ++ ", ".intercalate loop.bindings
      ++ ") \x7b %>"
  | .endEach => "<% \x7d) %>"
  | .startScope bindings =>
    "<% (function (" ++ ", ".intercalate (bindings.map (·.name)) ++ ") \x7b %>"
  | .endScope bindings =>
    "<% \x7d)(" ++ ", ".intercalate (bindings.map (·.script)) ++ "); %>"

/-! ### Emission -/

mutual

/-- What a piece gives off at a level. -/
def emit (level : Nat) : Piece → List (Emission Directive)
  | .element head content =>
    head.warnings ++
      -- A void element has no content, whatever its children are.
      if isVoid head.tag then [.line level (.voidTag head.tag head.attributes)]
      else if head.isEmpty then [.line level (.emptyTag head.tag head.attributes)]
      else
        .line level (.startTag head.tag head.attributes) :: emitAll (level + 1) content
          ++ [.line level (.endTag head.tag)]
  | .text value => [.line level (.text value)]
  | .interpolation code => [.line level (.value code)]
  | .condition test consequent alternate =>
    .line level (.startIf test) :: emitConsequent (level + 1) consequent
      ++ emitAlternate level alternate ++ [.line level .endIf]
  | .iteration loop body =>
    .line level (.startEach loop) :: emitAll (level + 1) body ++ [.line level .endEach]
  | .scope bindings body =>
    -- Without props there is nothing to bind.
    if bindings.isEmpty then emitAll level body
    else
      .line level (.startScope bindings) :: emitAll (level + 1) body
        ++ [.line level (.endScope bindings)]

def emitAll (level : Nat) : List Piece → List (Emission Directive)
  | [] => []
  | p :: rest => emit level p ++ emitAll level rest

def emitConsequent (level : Nat) : Option (List Piece) → List (Emission Directive)
  | none => []
  | some ps => emitAll level ps

def emitAlternate (level : Nat) : Option (List Piece) → List (Emission Directive)
  | none => []
  | some ps => .line level .otherwise :: emitAll (level + 1) ps

end

end Stencil.Ejs
