/-!
# Script syntax trees

The tree of a script module with markup literals. Constructors exist for the forms that compiling to
templates looks into; a form that is only carried along, such as a regular expression or a loop, is
an `other` node that keeps its kind and its parts.

Every expression keeps the source text it was read from, without the blanks and comments around it.
Parentheses are nodes of their own.
-/

namespace Stencil.Script

/-- Operators in front of one operand. -/
inductive UnaryOp where
  | not | negate | plus | complement | typeof | void | delete
deriving DecidableEq, Repr

/-- Operators between two operands that are both evaluated. -/
inductive BinaryOp where
  | add | sub | mul | div | rem | pow
  | looseEq | looseNe | strictEq | strictNe | lt | le | gt | ge
  | shiftLeft | shiftRight | shiftRightZero | bitAnd | bitOr | bitXor
  | memberOf | instanceOf
deriving DecidableEq, Repr

/-- Operators that evaluate their right operand only when the left one does not decide. -/
inductive LogicalOp where
  | and | or | coalesce
deriving DecidableEq, Repr

/-- How an operator is spelled. -/
def BinaryOp.symbol : BinaryOp → String
  | .add => "+" | .sub => "-" | .mul => "*" | .div => "/" | .rem => "%" | .pow => "**"
  | .looseEq => "==" | .looseNe => "!=" | .strictEq => "===" | .strictNe => "!=="
  | .lt => "<" | .le => "<=" | .gt => ">" | .ge => ">="
  | .shiftLeft => "<<" | .shiftRight => ">>" | .shiftRightZero => ">>>"
  | .bitAnd => "&" | .bitOr => "|" | .bitXor => "^"
  | .memberOf => "in" | .instanceOf => "instanceof"

/-- The kinds of expression that are named in messages but never looked into. -/
inductive OtherKind where
  | array | await | new | sequence | taggedTemplate | this | update
  /-- A member with a private name. -/
  | hiddenMember
  /-- Any other expression. -/
  | plain
deriving DecidableEq, Repr

/-- The keyword of a variable declaration. -/
inductive DeclarationKind where
  | const | let | var | using
deriving DecidableEq, Repr

/-- A literal run of a template literal: as written, and with its escapes read. -/
structure Quasi where
  raw : String
  cooked : String
deriving DecidableEq, Repr

mutual

/-- An expression with its source text. -/
inductive Expr where
  | mk (text : String) (form : Form)

/-- What an expression is. -/
inductive Form where
  | identifier (name : String)
  | string (value : String)
  | number (value : Float)
  | boolean (value : Bool)
  | null
  | paren (inner : Expr)
  /-- There is one run more than there are substitutions; they alternate. -/
  | template (runs : List Quasi) (substitutions : List Expr)
  | unary (op : UnaryOp) (operand : Expr)
  | binary (op : BinaryOp) (left right : Expr)
  | logical (op : LogicalOp) (left right : Expr)
  | conditional (test consequent alternate : Expr)
  | member (object : Expr) (property : String)
  | index (object key : Expr)
  | call (callee : Expr) (arguments : List Part)
  /-- A member or call chain that holds an optional link. -/
  | chain (inner : Expr)
  | object (properties : List Property)
  | assignment (target value : Expr)
  | function (function : Function)
  | arrow (function : Function)
  | element (tag : String) (attributes : List Attribute) (children : List Child)
  | fragment (children : List Child)
  | other (kind : OtherKind) (parts : List Part)

/-- A constituent of a form that is only carried along. -/
inductive Part where
  | value (e : Expr)
  | spread (e : Expr)
  | binding (p : Pattern)
  | statement (s : Stmt)

/-- The key of an object property or of a field of an object pattern. -/
inductive Key where
  | name (name : String)
  | string (value : String)
  | number
  | hidden
  | computed (e : Expr)

/-- A member of an object literal. -/
inductive Property where
  | pair (key : Key) (value : Expr)
  | spread (e : Expr)

/-- An attribute of a markup literal. An attribute without a value is switched on. -/
inductive Attribute where
  | flag (name : String)
  | string (name : String) (value : String)
  | value (name : String) (e : Expr)
  | spread (e : Expr)

/-- A child of a markup literal; elements and fragments are expressions. -/
inductive Child where
  | text (raw : String)
  | value (e : Expr)
  | spread (e : Expr)
  | empty

/-- What a declaration or a parameter binds. -/
inductive Pattern where
  | name (name : String)
  | object (fields : List Field) (rest : Option Pattern)
  | array (items : List Pattern)
  | withDefault (pattern : Pattern) (value : Expr)

/-- A field of an object pattern. -/
inductive Field where
  | mk (key : Key) (value : Pattern)

/-- A parameter: the text of its pattern, the pattern, and the default value. -/
inductive Param where
  | mk (text : String) (pattern : Pattern) (value : Option Expr)

/-- A function or an arrow function. -/
inductive Function where
  | mk (name : Option String) (params : List Param) (rest : Option Pattern) (body : Body)

/-- The body of a function; only an arrow function has a bare value for a body. -/
inductive Body where
  | value (e : Expr)
  | block (statements : List Stmt)

/-- One variable of a declaration. -/
inductive Declarator where
  | mk (pattern : Pattern) (value : Option Expr)

inductive Stmt where
  | ret (value : Option Expr)
  | branch (test : Expr) (consequent : Stmt) (alternate : Option Stmt)
  | block (statements : List Stmt)
  | expression (e : Expr)
  | declaration (kind : DeclarationKind) (declarators : List Declarator)
  | function (f : Function)
  | other (parts : List Part)

end

/-- The source text of an expression. -/
def Expr.text : Expr → String
  | .mk text _ => text

/-- What an expression is. -/
def Expr.form : Expr → Form
  | .mk _ form => form

/-- The expression inside all the parentheses around it. -/
def Expr.bare : Expr → Expr
  | .mk _ (.paren inner) => inner.bare
  | e => e

def Function.name : Function → Option String
  | .mk name _ _ _ => name

/-- The parameters, without a rest parameter. -/
def Function.params : Function → List Param
  | .mk _ params _ _ => params

def Function.body : Function → Body
  | .mk _ _ _ body => body

def Param.text : Param → String
  | .mk text _ _ => text

def Param.pattern : Param → Pattern
  | .mk _ pattern _ => pattern

/-- The name that a key spells out: a word, or a string literal in brackets or not. -/
def Key.spelled? : Key → Option String
  | .name n => some n
  | .string s => some s
  | .computed (.mk _ (.string s)) => some s
  | _ => none

/-! ### Modules -/

/-- A name that an import declaration binds. -/
inductive ImportName where
  | default (binding : String)
  | named (binding imported : String)
  | whole (binding : String)

/-- An item of a module. -/
inductive Item where
  | imports (source : String) (names : List ImportName)
  | statement (s : Stmt)
  /-- An exported declaration. -/
  | exported (s : Stmt)
  | defaultFunction (f : Function)
  | defaultValue (e : Expr)
  /-- An export that declares nothing to look into, with the names it exports. -/
  | otherExport (names : List String)

/-- A module: its items in source order. -/
abbrev Module := List Item

end Stencil.Script
