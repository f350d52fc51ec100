import Stencil.Lower.Attribute
import Stencil.Lower.Text
import Stencil.Script.Mention
import Stencil.Template.Node
import Stencil.Text.Blank

/-!
# Lowering markup

An expression in a place for markup becomes template nodes. Choices become conditions, calls of
`map` with a function become iterations, and whatever is not markup becomes an interpolation of its
text.

A function that returns markup is read for the values it returns: the returns at the top of its
body, each guarded by the test in front of it, up to the first one without a guard.

Making an element has a side effect: the import that its tag is rooted in is marked as one that
makes elements. So markup is lowered to its nodes together with the names it marks.
-/

namespace Stencil.Lower

open Script (Expr Form Part Child Function Body Stmt Param)

/-- The test that holds exactly if the given one does not: a bare negation loses its mark, an
operand that binds tightly gets one, and anything else is put in parentheses. -/
def negated (test : Expr) : Code :=
  let bare := test.bare
  match bare.form with
  -- The mark is taken off the text. An operand in parentheses keeps them.
  | .unary .not _ =>
    let rest := match bare.text.toList with
      | '!' :: rest => String.ofList rest
      | all => String.ofList all
    ⟨Text.trimStart rest⟩
  -- These bind more tightly than the mark, so they need no parentheses.
  | .identifier _ | .member _ _ | .index _ _ | .call _ _ | .unary _ _ => ⟨"!" ++ bare.text⟩
  | _ => ⟨"!(" ++ bare.text ++ ")"⟩

/-- The expression is `null`, in parentheses or not. -/
def isNull (e : Expr) : Bool :=
  match e.bare.form with
  | .null => true
  | _ => false

/-- The tag only groups its children. -/
def isGrouping (tag : String) : Bool :=
  tag == "Fragment" || tag == "React.Fragment"

/-- What a `map` call runs over. -/
def mapped? (callee : Expr) : Option Code :=
  match callee.form with
  | .member object "map" => some ⟨object.text⟩
  | _ => none

/-- The loop of a `map` call with these parameters. -/
def loopOf (iterable : Code) (params : List Param) : Loop where
  iterable := iterable
  item := (params[0]?.map Param.text).getD "item"
  index := params[1]?.map Param.text
  array := params[2]?.map Param.text

/-- The name that a tag is rooted in. -/
def tagRoot (tag : String) : String :=
  String.ofList (tag.toList.takeWhile (· != '.'))

/-- What markup is lowered to. -/
structure Markup where
  nodes : List Node
  /-- The names that the elements mark, one for each element that is made. -/
  marks : List String

namespace Markup

/-- Nothing. -/
def empty : Markup :=
  ⟨[], []⟩

/-- A text. -/
def text (value : String) : Markup :=
  ⟨[.text value], []⟩

/-- An interpolation. -/
def interpolation (code : Code) : Markup :=
  ⟨[.interpolation code], []⟩

/-- One after the other. -/
def append (a b : Markup) : Markup :=
  ⟨a.nodes ++ b.nodes, a.marks ++ b.marks⟩

/-- An element, which marks the name of its tag. -/
def element (tag : String) (attributes : List Attribute) (inside : Markup) : Markup :=
  ⟨[.element tag attributes inside.nodes], tagRoot tag :: inside.marks⟩

/-- A choice. -/
def condition (test : Code) (consequent alternate : Markup) : Markup :=
  ⟨[.condition test (Node.slotOf consequent.nodes) (Node.slotOf alternate.nodes)],
    consequent.marks ++ alternate.marks⟩

/-- A loop. -/
def iteration (loop : Loop) (body : Markup) : Markup :=
  ⟨[.iteration loop body.nodes], body.marks⟩

end Markup

/-- A value that a function returns, under the test that guards it, and what it is lowered to. -/
structure Return where
  test : Option Expr
  value : Expr
  markup : Markup

/-- The returns as markup: a guarded return is a condition with the later returns for its
alternate. A value that is not rendered marks nothing. -/
def nest : List Return → Markup
  | [] => .empty
  | r :: rest =>
    match r.test with
    | none => r.markup
    | some test =>
      if isNull r.value then .condition (negated test) (nest rest) .empty
      else .condition ⟨test.text⟩ r.markup (nest rest)

/-- One of the returned values is or holds markup. -/
def anyMarkup (returns : List Return) : Bool :=
  returns.any (·.value.hasMarkup)

mutual

/-- The markup of an expression. As an operand of a choice a string literal is a text. -/
def expr (operand : Bool) : Expr → Markup
  | .mk text form => forms operand text form

/-- The markup of a form with the given source text. -/
def forms (operand : Bool) (text : String) : Form → Markup
  | .paren inner => expr operand inner
  | .string s => if operand then .text s else .interpolation ⟨text⟩
  | .null => .empty
  | .element tag attributes cs =>
    if isGrouping tag then children cs
    else .element tag (attributes.filterMap attribute?) (children cs)
  | .fragment cs => children cs
  | .logical .and left right => .condition ⟨left.text⟩ (expr true right) .empty
  | .logical .or left right =>
    -- The left operand is shown where it holds.
    .condition ⟨left.text⟩ (.interpolation ⟨left.text⟩) (expr true right)
  | .conditional test consequent alternate =>
    if isNull consequent then .condition (negated test) (expr true alternate) .empty
    else .condition ⟨test.text⟩ (expr true consequent) (expr true alternate)
  | .call callee arguments =>
    match mapped? callee with
    | some iterable => mapCall iterable text arguments
    | none => .interpolation ⟨text⟩
  | _ => .interpolation ⟨text⟩

/-- The markup of the children of an element or a fragment. -/
def children : List Child → Markup
  | [] => .empty
  | c :: rest => (child c).append (children rest)

def child : Child → Markup
  | .text raw =>
    let value := cleanText raw
    if value.isEmpty then .empty else .text value
  | .value e => expr false e
  | .spread _ => .empty
  | .empty => .empty

/-- The markup of a `map` call with these arguments. -/
def mapCall (iterable : Code) (text : String) : List Part → Markup
  | [] => .empty
  | .value e :: _ => callback iterable text e
  | _ :: _ => .interpolation ⟨text⟩

/-- The markup of a `map` call with this expression for a callback. -/
def callback (iterable : Code) (text : String) : Expr → Markup
  | .mk _ form => callbackForm iterable text form

def callbackForm (iterable : Code) (text : String) : Form → Markup
  | .arrow f => .iteration (loopOf iterable f.params) (callbackBody f)
  | .function f => .iteration (loopOf iterable f.params) (callbackBody f)
  | _ => .interpolation ⟨text⟩

/-- The markup that a callback returns, if it returns any. -/
def callbackBody : Function → Markup
  | .mk _ _ _ body =>
    let rs := returns body
    if anyMarkup rs then nest rs else .empty

/-- The values that a body returns. -/
def returns : Body → List Return
  | .value e => [⟨none, e, expr false e⟩]
  | .block statements => blockReturns statements

/-- The returns among the statements of a body, up to the first one without a guard. Statements in
braces of their own are passed over. -/
def blockReturns : List Stmt → List Return
  | [] => []
  | .ret none :: _ => []
  | .block _ :: rest => blockReturns rest
  | s :: rest =>
    let (rs, complete) := chainReturns s
    if complete then rs else rs ++ blockReturns rest

/-- The returns of a statement that returns or that chooses between returns, and whether every path
through it returns. A choice whose consequent does more than return contributes nothing. -/
def chainReturns : Stmt → List Return × Bool
  | .ret (some e) => ([⟨none, e, expr false e⟩], true)
  | .block statements =>
    match soleReturn false statements with
    | some (value, markup) => ([⟨none, value, markup⟩], true)
    | none => ([], false)
  | .branch test consequent alternate =>
    -- A branch that is more than a return ends the chain: what stands behind its `else` is not
    -- looked at.
    match guardedReturn consequent with
    | some (value, markup) =>
      let (rs, complete) := alternateReturns alternate
      (⟨some test, value, markup⟩ :: rs, complete)
    | none => ([], false)
  | _ => ([], false)

def alternateReturns : Option Stmt → List Return × Bool
  | none => ([], false)
  | some s => chainReturns s

/-- The value of a consequent that does nothing but return it, in braces or not. -/
def guardedReturn : Stmt → Option (Expr × Markup)
  | .ret (some e) => some (e, expr true e)
  | .block statements => soleReturn true statements
  | _ => none

/-- The value of statements that do nothing but return it. -/
def soleReturn (operand : Bool) : List Stmt → Option (Expr × Markup)
  | [.ret (some e)] => some (e, expr operand e)
  | _ => none

end

/-- The values that a function returns, if one of them is or holds markup. -/
def returned? (f : Function) : Option (List Return) :=
  let rs := returns f.body
  if anyMarkup rs then some rs else none

end Stencil.Lower
