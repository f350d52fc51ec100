import Stencil.Script.Tree

/-!
# What a piece of script mentions

One walk over a tree lists, in source order, the markup literals it holds and the names it binds:
parameters, variables, caught values, and the names of functions and classes, at any depth. Labels,
property names and assignment targets bind nothing.
-/

namespace Stencil.Script

/-- Something found on a walk over a tree. -/
inductive Mention where
  | markup
  | binding (name : String)
deriving DecidableEq, Repr

mutual

/-- The mentions in an expression. -/
def Expr.mentions : Expr → List Mention
  | .mk _ form => form.mentions

def Form.mentions : Form → List Mention
  | .identifier _ | .string _ | .number _ | .boolean _ | .null => []
  | .paren inner => inner.mentions
  | .template _ substitutions => exprsMentions substitutions
  | .unary _ operand => operand.mentions
  | .binary _ left right => left.mentions ++ right.mentions
  | .logical _ left right => left.mentions ++ right.mentions
  | .conditional test consequent alternate =>
    test.mentions ++ consequent.mentions ++ alternate.mentions
  -- The name behind a dot is a key and no reference.
  | .member object _ => object.mentions
  | .index object key => object.mentions ++ key.mentions
  | .call callee arguments => callee.mentions ++ partsMentions arguments
  | .chain inner => inner.mentions
  | .object properties => propertiesMentions properties
  | .assignment target value => target.mentions ++ value.mentions
  | .function f => f.mentions
  | .arrow f => f.mentions
  | .element _ attributes children =>
    .markup :: attributesMentions attributes ++ childrenMentions children
  | .fragment children => .markup :: childrenMentions children
  | .other _ parts => partsMentions parts

def exprsMentions : List Expr → List Mention
  | [] => []
  | e :: rest => e.mentions ++ exprsMentions rest

def optExprMentions : Option Expr → List Mention
  | none => []
  | some e => e.mentions

def Part.mentions : Part → List Mention
  | .value e => e.mentions
  | .spread e => e.mentions
  | .binding p => p.mentions
  | .statement s => s.mentions

def partsMentions : List Part → List Mention
  | [] => []
  | p :: rest => p.mentions ++ partsMentions rest

def Key.mentions : Key → List Mention
  | .computed e => e.mentions
  | _ => []

def Property.mentions : Property → List Mention
  | .pair key value => key.mentions ++ value.mentions
  | .spread e => e.mentions

def propertiesMentions : List Property → List Mention
  | [] => []
  | p :: rest => p.mentions ++ propertiesMentions rest

def Attribute.mentions : Attribute → List Mention
  | .flag _ => []
  | .string _ _ => []
  | .value _ e => e.mentions
  | .spread e => e.mentions

def attributesMentions : List Attribute → List Mention
  | [] => []
  | a :: rest => a.mentions ++ attributesMentions rest

def Child.mentions : Child → List Mention
  | .text _ => []
  | .value e => e.mentions
  | .spread e => e.mentions
  | .empty => []

def childrenMentions : List Child → List Mention
  | [] => []
  | c :: rest => c.mentions ++ childrenMentions rest

def Pattern.mentions : Pattern → List Mention
  | .name name => [.binding name]
  | .object fields rest => fieldsMentions fields ++ optPatternMentions rest
  | .array items => patternsMentions items
  | .withDefault pattern value => pattern.mentions ++ value.mentions

def patternsMentions : List Pattern → List Mention
  | [] => []
  | p :: rest => p.mentions ++ patternsMentions rest

def optPatternMentions : Option Pattern → List Mention
  | none => []
  | some p => p.mentions

def Field.mentions : Field → List Mention
  | .mk key value => key.mentions ++ value.mentions

def fieldsMentions : List Field → List Mention
  | [] => []
  | f :: rest => f.mentions ++ fieldsMentions rest

def Param.mentions : Param → List Mention
  | .mk _ pattern value => pattern.mentions ++ optExprMentions value

def paramsMentions : List Param → List Mention
  | [] => []
  | p :: rest => p.mentions ++ paramsMentions rest

def Function.mentions : Function → List Mention
  | .mk name params rest body =>
    (match name with
      | some n => [.binding n]
      | none => [])
      ++ paramsMentions params ++ optPatternMentions rest ++ body.mentions

def Body.mentions : Body → List Mention
  | .value e => e.mentions
  | .block statements => statementsMentions statements

def Declarator.mentions : Declarator → List Mention
  | .mk pattern value => pattern.mentions ++ optExprMentions value

def declaratorsMentions : List Declarator → List Mention
  | [] => []
  | d :: rest => d.mentions ++ declaratorsMentions rest

def Stmt.mentions : Stmt → List Mention
  | .ret value => optExprMentions value
  | .branch test consequent alternate =>
    test.mentions ++ consequent.mentions ++ optStmtMentions alternate
  | .block statements => statementsMentions statements
  | .expression e => e.mentions
  | .declaration _ declarators => declaratorsMentions declarators
  | .function f => f.mentions
  | .other parts => partsMentions parts

def statementsMentions : List Stmt → List Mention
  | [] => []
  | s :: rest => s.mentions ++ statementsMentions rest

def optStmtMentions : Option Stmt → List Mention
  | none => []
  | some s => s.mentions

end

/-- A markup literal stands somewhere in the expression. -/
def Expr.hasMarkup (e : Expr) : Bool :=
  e.mentions.contains .markup

/-- The names that a function binds: parameters, variables and everything nested in it. -/
def Function.bound (f : Function) : List String :=
  match f with
  | .mk _ params rest body =>
    (paramsMentions params ++ optPatternMentions rest ++ body.mentions).filterMap fun
      | .binding name => some name
      | .markup => none

end Stencil.Script
