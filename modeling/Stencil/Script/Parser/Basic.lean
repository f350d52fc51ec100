import Stencil.Script.Token
import Stencil.Script.Tree

/-!
# Parsers of scripts

A parser reads a part of the text and answers a tree, or fails. Only success and failure are told
apart; there are no diagnostics.

The rules of the grammar refer to each other, so each rule is written against a `Grammar`, a parser
for every nonterminal, and the grammar itself is unrolled as often as the length of the text can
ever need. The nonterminals are the constructors of `Goal`.
-/

namespace Stencil.Script

/-- A parser of `α`: the state is the text still to be read. -/
abbrev Parser := StateT (List Char) Option

/-- Where an expression or a statement stands, as far as the grammar depends on it. -/
structure Context where
  /-- The operator `in` is read as an operator. -/
  operatorIn : Bool := true
  /-- `await` introduces an operand. -/
  awaits : Bool := true
  /-- `yield` introduces an operand. -/
  yields : Bool := false
  /-- A `return` may stand here. -/
  returns : Bool := false
deriving DecidableEq, Repr

/-- The context in which the operator `in` is an operator again. -/
def Context.withIn (c : Context) : Context :=
  { c with operatorIn := true }

/-- The context in which the word `in` ends an expression. -/
def Context.withoutIn (c : Context) : Context :=
  { c with operatorIn := false }

/-- The nonterminals of the grammar. -/
inductive Goal where
  /-- An expression with commas. -/
  | expression (c : Context)
  /-- An expression without commas. -/
  | assignment (c : Context)
  /-- Operands joined by operators that bind at least as tightly as `level`. -/
  | binary (c : Context) (level : Nat)
  /-- An operand with its prefix and postfix operators. -/
  | unary (c : Context)
  /-- A chain of members, and of calls if `calls` holds. -/
  | access (c : Context) (calls : Bool)
  /-- A destructuring or simple assignment target. -/
  | target (c : Context)
  | pattern (c : Context)
  /-- A statement; declarations are left out if it is the only statement of its place. -/
  | statement (c : Context) (only : Bool)
  /-- A markup literal from its opening bracket on. -/
  | markup (c : Context)

/-- What a nonterminal yields. -/
abbrev Goal.Out : Goal → Type
  | .pattern _ => Pattern
  | .statement _ _ => Stmt
  | _ => Expr

/-- A parser for every nonterminal. -/
abbrev Grammar := (g : Goal) → Parser g.Out

namespace Parser

/-- The next token, left in place. -/
def peek : Parser Lexeme := do
  match nextToken (← get) with
  | some lexeme => pure lexeme
  | none => failure

/-- The text from the next token on, with the blanks in front of it skipped. -/
def here : Parser (List Char) := do
  match skipBlanks (← get) with
  | some (_, start) => set start; pure start
  | none => failure

/-- The text read since `start`. -/
def textSince (start : List Char) : Parser String := do
  pure (String.ofList (consumed start (← get)))

/-- An expression that extends from `start` to the text read so far. -/
def close (start : List Char) (form : Form) : Parser Expr := do
  pure (.mk (← textSince start) form)

/-- Fails unless the condition holds. -/
def require (condition : Bool) : Parser Unit :=
  if condition then pure () else failure

/-- The next token is the punctuation mark `m`. -/
def atMark (m : String) : Parser Bool := do
  match (← peek).token with
  | .mark text => pure (text == m)
  | _ => pure false

/-- Reads the punctuation mark `m` if it comes next. -/
def tryMark (m : String) : Parser Bool := do
  let lexeme ← peek
  match lexeme.token with
  | .mark text => if text == m then set lexeme.rest; pure true else pure false
  | _ => pure false

/-- Reads the punctuation mark `m`. -/
def mark (m : String) : Parser Unit := do
  require (← tryMark m)

/-- The next token is the keyword `w`, spelled without escapes. -/
def atWord (w : String) : Parser Bool := do
  match (← peek).token with
  | .word name escaped => pure (name == w && !escaped)
  | _ => pure false

/-- Reads the keyword `w` if it comes next. -/
def tryWord (w : String) : Parser Bool := do
  let lexeme ← peek
  match lexeme.token with
  | .word name escaped => if name == w && !escaped then set lexeme.rest; pure true else pure false
  | _ => pure false

/-- Reads the keyword `w`. -/
def keyword (w : String) : Parser Unit := do
  require (← tryWord w)

/-- Looks ahead with `p` and leaves everything in place; a failure counts as `false`. -/
def ahead (p : Parser Bool) : Parser Bool := do
  match p (← get) with
  | some (answer, _) => pure answer
  | none => pure false

/-- Runs `p`, or leaves everything in place if it fails. -/
def attempt {α : Type} (p : Parser α) : Parser (Option α) := do
  match p (← get) with
  | some (a, rest) => set rest; pure (some a)
  | none => pure none

/-- Repeats `p` until it answers nothing, `bound` times at most. -/
def manyUpTo {α : Type} (p : Parser (Option α)) : Nat → Parser (List α)
  | 0 => pure []
  | bound + 1 => do
    match ← p with
    | none => pure []
    | some a => pure (a :: (← manyUpTo p bound))

/-- Repeats `p` until it answers nothing. Each answer reads at least one character, so the length of
the text bounds the number of repetitions. -/
def many {α : Type} (p : Parser (Option α)) : Parser (List α) := do
  manyUpTo p ((← get).length + 1)

/-- Extends a value by `p` until it answers nothing, `bound` times at most. -/
def growUpTo {α : Type} (p : α → Parser (Option α)) : Nat → α → Parser α
  | 0, a => pure a
  | bound + 1, a => do
    match ← p a with
    | none => pure a
    | some b => growUpTo p bound b

/-- Extends a value by `p` until it answers nothing. -/
def grow {α : Type} (p : α → Parser (Option α)) (a : α) : Parser α := do
  growUpTo p ((← get).length + 1) a

/-- Items up to the closing mark `m`, separated by commas; a comma may follow the last one. -/
def separated {α : Type} (m : String) (item : Parser α) : Parser (List α) := do
  if ← tryMark m then pure []
  else
    let first ← item
    -- The list may end with a comma.
    let others ← many (do
      if ← tryMark m then pure none
      else
        mark ","
        if ← tryMark m then pure none
        else pure (some (← item)))
    pure (first :: others)

/-- The words that never name anything. -/
def reserved : List String :=
  ["break", "case", "catch", "class", "const", "continue", "debugger", "default", "delete", "do",
   "else", "enum", "export", "extends", "false", "finally", "for", "function", "if", "import", "in",
   "instanceof", "new", "null", "return", "super", "switch", "this", "throw", "true", "try",
   "typeof", "var", "void", "while", "with"]

/-- The word may name something in this context. -/
def isName (c : Context) (w : String) : Bool :=
  !reserved.contains w && !(c.awaits && w == "await") && !(c.yields && w == "yield")

/-- Reads a name. -/
def name (c : Context) : Parser String := do
  let lexeme ← peek
  match lexeme.token with
  | .word w _ => if isName c w then set lexeme.rest; pure w else failure
  | _ => failure

/-- Reads any word. -/
def anyWord : Parser String := do
  let lexeme ← peek
  match lexeme.token with
  | .word w _ => set lexeme.rest; pure w
  | _ => failure

/-- Reads a string literal. -/
def string : Parser String := do
  let lexeme ← peek
  match lexeme.token with
  | .string s => set lexeme.rest; pure s
  | _ => failure

/-- Ends a statement: with a semicolon, or without one before a closing brace, at the end of the
text and after a line end. -/
def semicolon : Parser Unit := do
  let lexeme ← peek
  match lexeme.token with
  | .mark ";" => set lexeme.rest
  | .mark "\x7d" => pure ()
  | .finish => pure ()
  | _ => require lexeme.afterLineEnd

end Parser

end Stencil.Script
