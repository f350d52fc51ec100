import Stencil.Decimal.Notation
import Stencil.Engine.Liquid.Literal
import Stencil.Failure
import Stencil.Script.Parser.Module
import Stencil.Template.Attribute
import Stencil.Text.Search

/-!
# Expressions in Liquid

Liquid does not run scripts, so an expression is put into Liquid's own words where it has any:
names, members, literals, comparisons, logical operators, three string methods, and template
literals. Every other expression is refused with its kind and its text.
-/

namespace Stencil.Liquid

open Script

/-- What an expression that Liquid has no words for is called. -/
def formKind : Form → String
  | .conditional _ _ _ => "ConditionalExpression"
  | .unary _ _ => "UnaryExpression"
  | .chain _ => "ChainExpression"
  | .object _ => "ObjectExpression"
  | .assignment _ _ => "AssignmentExpression"
  | .function _ => "FunctionExpression"
  | .arrow _ => "ArrowFunctionExpression"
  -- Both kinds of markup have one name in the message.
  | .element _ _ _ | .fragment _ => "JSXElement"
  | .other .array _ => "ArrayExpression"
  | .other .await _ => "AwaitExpression"
  | .other .new _ => "NewExpression"
  | .other .sequence _ => "SequenceExpression"
  | .other .taggedTemplate _ => "TaggedTemplateExpression"
  | .other .this _ => "ThisExpression"
  | .other .update _ => "UpdateExpression"
  | _ => "Expression"

/-- Liquid's comparison for an operator. -/
def comparison? : BinaryOp → Option String
  | .looseEq | .strictEq => some "=="
  | .looseNe | .strictNe => some "!="
  | .lt => some "<"
  | .le => some "<="
  | .gt => some ">"
  | .ge => some ">="
  | _ => none

/-- Liquid's connective for a logical operator. -/
def connective? : LogicalOp → Option String
  | .and => some "and"
  | .or => some "or"
  | .coalesce => none

/-- Liquid's name for a member. -/
def memberName (property : String) : String :=
  if property = "length" then "size" else property

/-- Liquid's filter for a string method. -/
def filter? (method : String) : Option String :=
  if method = "toUpperCase" then some "upcase"
  else if method = "toLowerCase" then some "downcase"
  else if method = "trim" then some "strip"
  else none

/-- The text holds a filter. -/
def hasFilter (operand : String) : Bool :=
  Text.contains operand " | "

/-- The text cannot be the argument of a filter. -/
def isCompound (operand : String) : Bool :=
  operand.toList.contains '|' || operand.toList.contains ' '

/-- The name of a callee in a message. -/
def calleeName (callee : Expr) : String :=
  match callee.bare.form with
  | .identifier name => name
  | _ => callee.bare.text

/-- The refusal of a call. -/
def refuseCall (callee : Expr) : Except Failure String :=
  .error (.unsupported "CallExpression" (calleeName callee))

/-- The value of parts that are appended to each other. -/
def appended : List String → String
  | [] => "\"\""
  | parts => appendFilter.intercalate parts

/-- The literal of a run of a template literal; an empty run adds nothing. -/
def runParts (q : Quasi) : List String :=
  if q.cooked.isEmpty then [] else [literal q.cooked]

mutual

/-- The words for an expression. -/
def operand : Expr → Except Failure String
  | .mk text form => formOperand text form

/-- The words for a form with the given source text. -/
def formOperand (text : String) : Form → Except Failure String
  -- Liquid has no parentheses.
  | .paren inner => operand inner
  | .identifier name => .ok (if name = "undefined" then "nil" else name)
  | .string s => .ok (literal s)
  | .number x => .ok (Decimal.text x)
  | .boolean b => .ok (if b then "true" else "false")
  | .null => .ok "nil"
  | .member object property => do
    let object ← operand object
    .ok (object ++ "." ++ memberName property)
  | .index object key => do
    let object ← operand object
    let key ← operand key
    .ok (object ++ "[" ++ key ++ "]")
  -- A negative numeral keeps its spelling.
  | .unary .negate (.mk _ (.number _)) => .ok text
  | .binary op left right =>
    match comparison? op with
    | none => .error (.unsupported "BinaryExpression" op.symbol)
    | some sign => do
      let left ← operand left
      let right ← operand right
      -- Filters apply to whole outputs, not to one side of a comparison.
      if hasFilter left || hasFilter right then .error (.unsupported "BinaryExpression" text)
      else .ok (left ++ " " ++ sign ++ " " ++ right)
  | .logical op left right =>
    match connective? op with
    | none => .error (.unsupported "LogicalExpression" "??")
    | some word => do
      let left ← operand left
      let right ← operand right
      .ok (left ++ " " ++ word ++ " " ++ right)
  -- Only methods without arguments have filters of their own.
  | .call (.mk calleeText (.member object method)) [] =>
    match filter? method with
    | some filter => do
      let object ← operand object
      .ok (object ++ " | " ++ filter)
    | none => refuseCall (.mk calleeText (.member object method))
  | .call callee _ => refuseCall callee
  | .template runs substitutions => do
    let parts ← templateParts text runs substitutions
    .ok (appended parts)
  | form => .error (.unsupported (formKind form) text)

/-- The parts of a template literal. A substitution has to fit into the argument of a filter. -/
def templateParts (text : String) (runs : List Quasi) :
    List Expr → Except Failure (List String)
  | [] => .ok (runs.flatMap runParts)
  | e :: rest => do
    let value ← operand e
    if isCompound value then .error (.unsupported "TemplateLiteral" text)
    else
      let parts ← templateParts text (runs.drop 1) rest
      .ok ((runs.take 1).flatMap runParts ++ value :: parts)

end

/-- The words for an expression as a test, with a negation in front taken off. -/
def testOperand (e : Expr) : Except Failure (Bool × String) :=
  match e.bare.form with
  | .unary .not inner => (operand inner).map (true, ·)
  | _ => (operand e).map (false, ·)

/-- The expression of a code text. -/
def parse (code : Code) : Except Failure Expr :=
  match Expr.parse? code.text with
  | some e => .ok e
  | none => .error (.malformedCode code.text)

end Stencil.Liquid

namespace Stencil

/-- The code in Liquid's words. -/
def Code.liquid (code : Code) : Except Failure String := do
  Liquid.operand (← Liquid.parse code)

/-- The code as a test in Liquid's words, and whether the test is negated. -/
def Code.liquidTest (code : Code) : Except Failure (Bool × String) := do
  Liquid.testOperand (← Liquid.parse code)

end Stencil
