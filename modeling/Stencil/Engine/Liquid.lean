import Stencil.Engine.Line
import Stencil.Engine.Liquid.Operand
import Stencil.Text.Entity

/-!
# Liquid

Code is put into Liquid's own words, and what has none is a failure in the place of the line.
Bindings are assignments in front of the body they are for.
-/

namespace Stencil.Liquid

/-- A test, negated or not. -/
structure Test where
  negated : Bool
  words : String
deriving DecidableEq, Repr

/-- An attribute in Liquid's words. -/
inductive Slot where
  | flag (name : String)
  | literal (name text : String)
  /-- A value, under a test if it may be missing. -/
  | value (name words : String) (test : Option Test)
deriving DecidableEq, Repr

/-- A line of a Liquid template. -/
inductive Directive where
  | startTag (tag : String) (attributes : List Slot)
  | endTag (tag : String)
  /-- An element without content, start and end tag in one line. -/
  | emptyTag (tag : String) (attributes : List Slot)
  | voidTag (tag : String) (attributes : List Slot)
  | text (value : String)
  | value (words : String)
  | startIf (test : Test)
  | otherwise
  | endIf (negated : Bool)
  | startFor (item iterable : String)
  | endFor
  | assign (name words : String)

/-! ### Spelling -/

/-- A tag of the template language. -/
def tagOf (content : String) : String :=
  "\x7b% " ++ content ++ " %\x7d"

/-- An output of the template language. -/
def outputOf (words : String) : String :=
  "\x7b\x7b " ++ words ++ " \x7d\x7d"

/-- The word that a test starts with. -/
def testWord (negated : Bool) : String :=
  if negated then "unless" else "if"

/-- The start of a test. -/
def Test.start (t : Test) : String :=
  tagOf (testWord t.negated ++ " " ++ t.words)

/-- The end of a test. -/
def testEnd (negated : Bool) : String :=
  tagOf ("end" ++ testWord negated)

namespace Slot

/-- An attribute in a tag. -/
def spell : Slot → String
  | .flag name => " " ++ name
  | .literal name text => " " ++ name ++ "=\"" ++ Text.encodeEntities text ++ "\""
  | .value name words test =>
    let assigned := " " ++ name ++ "=\"" ++ outputOf words ++ "\""
    match test with
    | none => assigned
    | some t => t.start ++ assigned ++ testEnd t.negated

end Slot

/-- A tag without its brackets. -/
def tagText (tag : String) (attributes : List Slot) : String :=
  tag ++ String.join (attributes.map Slot.spell)

/-- The text of a line. -/
def Directive.spell : Directive → String
  | .startTag tag attributes => "<" ++ tagText tag attributes ++ ">"
  | .endTag tag => "</" ++ tag ++ ">"
  | .emptyTag tag attributes => "<" ++ tagText tag attributes ++ "></" ++ tag ++ ">"
  | .voidTag tag attributes => "<" ++ tagText tag attributes ++ " />"
  | .text s => s
  | .value words => outputOf words
  | .startIf test => test.start
  | .otherwise => tagOf "else"
  | .endIf negated => testEnd negated
  | .startFor item iterable => tagOf ("for " ++ item ++ " in " ++ iterable)
  | .endFor => tagOf "endfor"
  | .assign name words => tagOf ("assign " ++ name ++ " = " ++ words)

/-! ### Words for the parts of a piece -/

/-- A test in Liquid's words. -/
def testOf (code : Code) : Except Failure Test := do
  let (negated, words) ← code.liquidTest
  .ok ⟨negated, words⟩

/-- An attribute in Liquid's words; one that is switched off does not show. -/
def slot? (a : Attribute) : Except Failure (Option Slot) :=
  match a.value with
  | .flag true => .ok (some (.flag a.name))
  | .flag false => .ok none
  | .literal s => .ok (some (.literal a.name s))
  | .dynamic code => do
    let words ← code.liquid
    -- A required value is put out as it is. Any other one is left out where it is missing, which
    -- takes a test.
    if a.required then .ok (some (.value a.name words none))
    else
      let test ← testOf code
      .ok (some (.value a.name words (some test)))

/-- The attributes in Liquid's words, or the first failure among them. -/
def slots (attributes : List Attribute) : Except Failure (List Slot) := do
  let all ← attributes.mapM slot?
  .ok (all.filterMap id)

/-- The value of a binding in Liquid's words. -/
def bindingWords (b : Binding) : Except Failure String :=
  match b.value with
  | none => .ok "nil"
  | some (.flag on) => .ok (if on then "true" else "false")
  | some (.literal s) => .ok (literal s)
  | some (.dynamic code) => code.liquid

/-! ### Emission -/

/-- A line whose content may fail. -/
def lineOrFailure (level : Nat) : Except Failure Directive → Emission Directive
  | .ok d => .line level d
  | .error f => .failure f

/-- The line for a binding. -/
def emitBinding (level : Nat) (b : Binding) : Emission Directive :=
  lineOrFailure level ((bindingWords b).map (.assign b.name))

/-- The lines that a loop over `iterable` starts with. -/
def startLoop (loop : Loop) (iterable : String) : List Directive :=
  match loop.array with
  | none => [.startFor loop.item iterable]
  | some array => [.assign array iterable, .startFor loop.item array]

/-- The lines at the beginning of the body of a loop. -/
def loopIndex (loop : Loop) : List Directive :=
  loop.index.toList.map fun index => .assign index "forloop.index0"

/-- What a test around lines gives off: nothing more after a failure. -/
def emitTest (level : Nat) (flip : Bool) (test : Code)
    (content : List (Emission Directive)) : List (Emission Directive) :=
  match testOf test with
  | .error f => [.failure f]
  | .ok t =>
    let t := if flip then { t with negated := !t.negated } else t
    .line level (.startIf t) :: content ++ [.line level (.endIf t.negated)]

mutual

/-- What a piece gives off at a level. -/
def emit (level : Nat) : Piece → List (Emission Directive)
  | .element head content =>
    head.warnings ++
      -- One refused attribute stops the element, with everything in it.
      match slots head.attributes with
      | .error f => [.failure f]
      | .ok attributes =>
        if isVoid head.tag then [.line level (.voidTag head.tag attributes)]
        else if head.isEmpty then [.line level (.emptyTag head.tag attributes)]
        else
          .line level (.startTag head.tag attributes) :: emitAll (level + 1) content
            ++ [.line level (.endTag head.tag)]
  | .text value => [.line level (.text value)]
  | .interpolation code => [lineOrFailure level (code.liquid.map .value)]
  -- Without a first branch the test is turned around.
  | .condition test none (some alternate) =>
    emitTest level true test (emitAll (level + 1) alternate)
  | .condition test consequent alternate =>
    emitTest level false test
      (emitConsequent (level + 1) consequent ++ emitAlternate level alternate)
  | .iteration loop body =>
    match loop.iterable.liquid with
    | .error f => [.failure f]
    | .ok iterable =>
      (startLoop loop iterable).map (.line level) ++ (loopIndex loop).map (.line (level + 1))
        ++ emitAll (level + 1) body ++ [.line level .endFor]
  | .scope bindings body => bindings.map (emitBinding level) ++ emitAll level body

def emitAll (level : Nat) : List Piece → List (Emission Directive)
  | [] => []
  | p :: rest => emit level p ++ emitAll level rest

def emitConsequent (level : Nat) : Option (List Piece) → List (Emission Directive)
  | none => []
  | some ps => emitAll level ps

def emitAlternate (level : Nat) : Option (List Piece) → List (Emission Directive)
  | none => []
  | some ps => .line level .otherwise :: emitAll (level + 1) ps

end

end Stencil.Liquid
