import Stencil.Script.Parser.Markup
import Stencil.Script.Parser.Primary

/-!
# Expressions

Chains of members and calls, operators by their binding strength, arrow functions and assignments.
-/

namespace Stencil.Script.Parser

/-! ### Members and calls -/

/-- A chain read so far, and whether it holds an optional link. -/
structure Link where
  expr : Expr
  optional : Bool

/-- The member after a dot. -/
def memberAfterDot (start : List Char) (object : Expr) : Parser Expr := do
  let lexeme ← peek
  match lexeme.token with
  | .word w _ => set lexeme.rest; close start (.member object w)
  | .hidden _ => set lexeme.rest; close start (.other .hiddenMember [.value object])
  | _ => failure

/-- The member in brackets, after the opening one. -/
def memberInBrackets (grammar : Grammar) (c : Context) (start : List Char) (object : Expr) :
    Parser Expr := do
  let k ← grammar (.expression c.withIn)
  mark "]"
  close start (.index object k)

/-- A call, after the opening parenthesis. -/
def callInParens (grammar : Grammar) (c : Context) (start : List Char) (callee : Expr) :
    Parser Expr := do
  let args ← arguments grammar c
  close start (.call callee args)

/-- One more link of a chain, if there is one. -/
def link (grammar : Grammar) (c : Context) (calls : Bool) (start : List Char) (chain : Link) :
    Parser (Option Link) := do
  let lexeme ← peek
  match lexeme.token with
  | .mark "." =>
    set lexeme.rest
    pure (some { chain with expr := ← memberAfterDot start chain.expr })
  | .mark "[" =>
    set lexeme.rest
    pure (some { chain with expr := ← memberInBrackets grammar c start chain.expr })
  -- The callee of `new` does not take the parentheses: they belong to the construction.
  | .mark "(" =>
    if calls then
      set lexeme.rest
      pure (some { chain with expr := ← callInParens grammar c start chain.expr })
    else pure none
  | .mark "`" =>
    -- An optional chain cannot be the tag of a template.
    require (!chain.optional)
    set lexeme.rest
    let (_, substitutions) ← templateParts grammar c
    let e ← close start (.other .taggedTemplate (.value chain.expr :: substitutions.map Part.value))
    pure (some { chain with expr := e })
  | .mark "?." =>
    -- Once a link is optional, the whole chain is.
    require calls
    set lexeme.rest
    let next ← peek
    match next.token with
    | .mark "[" =>
      set next.rest
      pure (some ⟨← memberInBrackets grammar c start chain.expr, true⟩)
    | .mark "(" =>
      set next.rest
      pure (some ⟨← callInParens grammar c start chain.expr, true⟩)
    | _ => pure (some ⟨← memberAfterDot start chain.expr, true⟩)
  | _ => pure none

/-- An operand with its members, and with its calls if `calls` holds. -/
def access (grammar : Grammar) (c : Context) (calls : Bool) : Parser Expr := do
  let start ← here
  let e ← primary grammar c
  let chain ← grow (link grammar c calls start) ⟨e, false⟩
  if chain.optional then close start (.chain chain.expr) else pure chain.expr

/-! ### Operators -/

/-- The operator that a prefix token spells. -/
def unaryOp? : Token → Option UnaryOp
  | .mark "!" => some .not
  | .mark "-" => some .negate
  | .mark "+" => some .plus
  | .mark "~" => some .complement
  | .word "typeof" false => some .typeof
  | .word "void" false => some .void
  | .word "delete" false => some .delete
  | _ => none

/-- The token increments or decrements. -/
def isUpdate : Token → Bool
  | .mark "++" | .mark "--" => true
  | _ => false

/-- Something that `await` could wait for comes next on the same line. -/
def atAwaited : Parser Bool := do
  let lexeme ← peek
  match lexeme.token with
  | .word _ _ | .numeral _ | .string _ => pure !lexeme.afterLineEnd
  | _ => pure false

/-- An operand with the updates after it. -/
def postfixed (grammar : Grammar) (c : Context) : Parser Expr := do
  let start ← here
  let e ← grammar (.access c true)
  let lexeme ← peek
  if isUpdate lexeme.token && !lexeme.afterLineEnd then
    require (isSimpleTarget e)
    set lexeme.rest
    close start (.other .update [.value e])
  else pure e

/-- An operand with its prefix operators. -/
def unary (grammar : Grammar) (c : Context) : Parser Expr := do
  let lexeme ← peek
  match unaryOp? lexeme.token with
  | some op =>
    set lexeme.rest
    let operand ← grammar (.unary c)
    close lexeme.start (.unary op operand)
  | none =>
    -- Increments need a place to write to, and so do not nest.
    if isUpdate lexeme.token then
      set lexeme.rest
      let operand ← grammar (.unary c)
      require (isSimpleTarget operand)
      close lexeme.start (.other .update [.value operand])
    else if ← atWord "await" then
      if c.awaits then
        set lexeme.rest
        let operand ← grammar (.unary c)
        close lexeme.start (.other .await [.value operand])
      else
        -- Where the word does not wait it is a name, and then no operand stands behind it.
        require (!(← ahead (do keyword "await"; atAwaited)))
        postfixed grammar c
    else postfixed grammar c

/-- An operator between operands. -/
inductive Operator where
  | binary (op : BinaryOp)
  | logical (op : LogicalOp)

/-- The operator that a token spells, and how tightly it binds. -/
def operator? (c : Context) : Token → Option (Operator × Nat)
  | .mark "??" => some (.logical .coalesce, 1)
  | .mark "||" => some (.logical .or, 2)
  | .mark "&&" => some (.logical .and, 3)
  | .mark "|" => some (.binary .bitOr, 4)
  | .mark "^" => some (.binary .bitXor, 5)
  | .mark "&" => some (.binary .bitAnd, 6)
  | .mark "==" => some (.binary .looseEq, 7)
  | .mark "!=" => some (.binary .looseNe, 7)
  | .mark "===" => some (.binary .strictEq, 7)
  | .mark "!==" => some (.binary .strictNe, 7)
  | .mark "<" => some (.binary .lt, 8)
  | .mark ">" => some (.binary .gt, 8)
  | .mark "<=" => some (.binary .le, 8)
  | .mark ">=" => some (.binary .ge, 8)
  | .word "instanceof" false => some (.binary .instanceOf, 8)
  -- The head of a loop keeps this word for itself.
  | .word "in" false => if c.operatorIn then some (.binary .memberOf, 8) else none
  | .mark "<<" => some (.binary .shiftLeft, 9)
  | .mark ">>" => some (.binary .shiftRight, 9)
  | .mark ">>>" => some (.binary .shiftRightZero, 9)
  | .mark "+" => some (.binary .add, 10)
  | .mark "-" => some (.binary .sub, 10)
  | .mark "*" => some (.binary .mul, 11)
  | .mark "/" => some (.binary .div, 11)
  | .mark "%" => some (.binary .rem, 11)
  -- The only operator that groups to the right.
  | .mark "**" => some (.binary .pow, 12)
  | _ => none

/-- The expression is a bare conjunction or disjunction. -/
def isAndOr (e : Expr) : Bool :=
  match e.form with
  | .logical .and _ _ | .logical .or _ _ => true
  | _ => false

/-- The expression is a bare `??`. -/
def isCoalesce (e : Expr) : Bool :=
  match e.form with
  | .logical .coalesce _ _ => true
  | _ => false

/-- The operator may join these operands: `??` does not mix with `&&` and `||`, and a power has no
bare prefix operator on its left. -/
def joins (op : Operator) (left right : Expr) : Bool :=
  match op with
  | .logical .coalesce => !isAndOr left && !isAndOr right
  | .logical _ => !isCoalesce left && !isCoalesce right
  | .binary .pow =>
    match left.form with
    | .unary _ _ | .other .await _ => false
    | _ => true
  | .binary _ => true

/-- The tree of an operator and its operands. -/
def Operator.form (op : Operator) (left right : Expr) : Form :=
  match op with
  | .binary op => .binary op left right
  | .logical op => .logical op left right

/-- One more operator and operand, if the operator binds at least as tightly as `level`. -/
def operation (grammar : Grammar) (c : Context) (level : Nat) (start : List Char) (left : Expr) :
    Parser (Option Expr) := do
  let lexeme ← peek
  match operator? c lexeme.token with
  | none => pure none
  | some (op, strength) =>
    if strength < level then pure none
    else
      set lexeme.rest
      -- Powers group to the right, everything else to the left.
      let right ← grammar (.binary c (if strength = 12 then 12 else strength + 1))
      require (joins op left right)
      pure (some (← close start (op.form left right)))

/-- The test whether an object has a member with a private name. -/
def hiddenIn (grammar : Grammar) (c : Context) (lexeme : Lexeme) : Parser Expr := do
  set lexeme.rest
  keyword "in"
  let object ← grammar (.binary c 9)
  close lexeme.start (.other .plain [.value object])

/-- Operands joined by operators that bind at least as tightly as `level`. -/
def binary (grammar : Grammar) (c : Context) (level : Nat) : Parser Expr := do
  let start ← here
  let lexeme ← peek
  let left ← match lexeme.token with
    | .hidden _ => hiddenIn grammar c lexeme
    | _ => grammar (.unary c)
  grow (operation grammar c level start) left

/-- A choice by a question mark and a colon, or just its test. -/
def conditional (grammar : Grammar) (c : Context) : Parser Expr := do
  let start ← here
  let test ← grammar (.binary c 1)
  if ← tryMark "?" then
    let consequent ← grammar (.assignment c.withIn)
    mark ":"
    let alternate ← grammar (.assignment c)
    close start (.conditional test consequent alternate)
  else pure test

/-! ### Arrow functions -/

/-- The arrow, on the line of the parameters. -/
def arrow : Parser Unit := do
  let lexeme ← peek
  require (!lexeme.afterLineEnd)
  mark "=>"

/-- The parameters of an arrow function up to and with the arrow: one name, or a list in
parentheses. -/
def arrowHead (grammar : Grammar) (c : Context) : Parser (List Param × Option Pattern) := do
  if ← tryMark "(" then
    let params ← parameters grammar c
    arrow
    pure params
  else
    let n ← name c
    arrow
    pure ([.mk n (.name n) none], none)

/-- The body of an arrow function: a block, or a value. -/
def arrowBody (grammar : Grammar) (c : Context) (awaits : Bool) : Parser Body := do
  if ← atMark "\x7b" then pure (.block (← block grammar (functionContext awaits false)))
  else
    let inner := { functionContext awaits false with operatorIn := c.operatorIn }
    pure (.value (← grammar (.assignment inner)))

/-- The word `async` on the line of what follows it. -/
def asyncWord : Parser Unit := do
  keyword "async"
  require (!(← peek).afterLineEnd)

/-- The beginning of an arrow function up to and with the arrow, and whether it is asynchronous. -/
def arrowStart (grammar : Grammar) (c : Context) : Parser (Bool × List Param × Option Pattern) := do
  match ← attempt (do asyncWord; arrowHead grammar { c with awaits := true }) with
  | some (params, rest) => pure (true, params, rest)
  | none =>
    let (params, rest) ← arrowHead grammar c
    pure (false, params, rest)

/-! ### Assignments -/

/-- The operators that assign. -/
def assignmentMarks : List String :=
  ["=", "+=", "-=", "*=", "/=", "%=", "**=", "<<=", ">>=", ">>>=", "&=", "|=", "^=", "&&=", "||=",
   "??="]

/-- An assignment to a destructuring target. Such a target need not be an expression. -/
def destructuring (grammar : Grammar) (c : Context) (start : List Char) : Parser Expr := do
  require ((← atMark "[") || (← atMark "\x7b"))
  let t ← grammar (.target c)
  mark "="
  let value ← grammar (.assignment c)
  close start (.assignment t value)

/-- The expression is spelled like a destructuring target. -/
def isBracketed (e : Expr) : Bool :=
  match e.form with
  | .object _ | .other .array _ => true
  | _ => false

/-- What an expression becomes by an assignment to it, if one follows. A bracketed expression in
front of a plain assignment is read again as a target. -/
def assignmentTo (grammar : Grammar) (c : Context) (start : List Char) (left : Expr) :
    Parser Expr := do
  let lexeme ← peek
  match lexeme.token with
  | .mark m =>
    -- What was read as a literal is a pattern after all, so it is read again as one.
    if m == "=" && isBracketed left then
      set start
      destructuring grammar c start
    -- Other assignments write to a name or a member.
    else if assignmentMarks.contains m then
      require (isSimpleTarget left)
      set lexeme.rest
      let value ← grammar (.assignment c)
      close start (.assignment left.bare value)
    else pure left
  | _ => pure left

/-- An expression after the word `yield`. -/
def yieldAfterWord (grammar : Grammar) (c : Context) (start : List Char) : Parser Expr := do
  let lexeme ← peek
  let bare := lexeme.afterLineEnd || match lexeme.token with
    | .finish => true
    | .mark m => [")", "]", "\x7d", ",", ";", ":"].contains m
    | .word "in" false | .word "of" false => true
    | _ => false
  -- A line end, or whatever cannot begin an operand, leaves the word alone.
  if bare then close start (.other .plain [])
  else
    let _ ← tryMark "*"
    let value ← grammar (.assignment c)
    close start (.other .plain [.value value])

/-- An expression without commas. -/
def assignment (grammar : Grammar) (c : Context) : Parser Expr := do
  let start ← here
  if c.yields && (← atWord "yield") then
    keyword "yield"
    yieldAfterWord grammar c start
  else
    -- An arrow function begins like an expression in parentheses or a name, so its head is tried
    -- first.
    match ← attempt (arrowStart grammar c) with
    | some (awaits, params, rest) =>
      let body ← arrowBody grammar c awaits
      close start (.arrow (.mk none params rest body))
    | none =>
      -- A pattern with default values does not read as a literal. If nothing does, it must be one.
      match ← attempt (conditional grammar c) with
      | some left => assignmentTo grammar c start left
      | none => destructuring grammar c start

/-- An expression with commas. -/
def expression (grammar : Grammar) (c : Context) : Parser Expr := do
  let start ← here
  let first ← grammar (.assignment c)
  let others ← many (do
    if ← tryMark "," then pure (some (← grammar (.assignment c))) else pure none)
  if others.isEmpty then pure first
  else close start (.other .sequence ((first :: others).map Part.value))

end Stencil.Script.Parser
