import Stencil.Script.Parser.Pattern

/-!
# Functions and classes
-/

namespace Stencil.Script.Parser

/-- The context inside a function. -/
def functionContext (awaits yields : Bool) : Context where
  operatorIn := true
  awaits := awaits
  yields := yields
  returns := true

/-- Statements after an opening brace, up to and with the closing one. -/
def statements (grammar : Grammar) (c : Context) : Parser (List Stmt) :=
  many (do
    if ← tryMark "\x7d" then pure none
    else pure (some (← grammar (.statement c false))))

/-- A block of statements in braces. -/
def block (grammar : Grammar) (c : Context) : Parser (List Stmt) := do
  mark "\x7b"
  statements grammar c

/-- The parameters and the body of a function, from the opening parenthesis on. -/
def functionRest (grammar : Grammar) (name : Option String) (awaits yields : Bool) :
    Parser Function := do
  let c := functionContext awaits yields
  mark "("
  let (params, rest) ← parameters grammar c
  let body ← block grammar c
  pure (.mk name params rest (.block body))

/-- A function after the word `function`: an asterisk, a name and the rest. -/
def functionAfterWord (grammar : Grammar) (c : Context) (awaits : Bool) : Parser Function := do
  let yields ← tryMark "*"
  let name ← if ← atMark "(" then pure none else pure (some (← name c))
  functionRest grammar name awaits yields

/-- The word `async` comes next, then `function` on the same line. -/
def atAsyncFunction : Parser Bool :=
  ahead (do
    keyword "async"
    let lexeme ← peek
    match lexeme.token with
    | .word "function" false => pure !lexeme.afterLineEnd
    | _ => pure false)

/-! ### Methods -/

/-- The next token begins a key. -/
def atKey : Parser Bool := do
  match (← peek).token with
  | .word _ _ | .string _ | .numeral _ | .hidden _ | .mark "[" => pure true
  | _ => pure false

/-- What stands in front of the key of a method. -/
structure Modifiers where
  awaits : Bool := false
  yields : Bool := false
  /-- The number of parameters, for the function behind a property. -/
  arity : Option Nat := none

/-- The modifiers of a member. A modifier word that no key follows is a key itself. -/
def modifiers : Parser Modifiers := do
  -- The words are modifiers only before a key on the same line; else they are the key.
  let async ← ahead (do
    keyword "async"
    let lexeme ← peek
    pure (!lexeme.afterLineEnd && ((← atKey) || (← atMark "*"))))
  if async then
    keyword "async"
    let yields ← tryMark "*"
    pure { awaits := true, yields }
  else if ← tryMark "*" then pure { yields := true }
  else
    -- The same holds of the words for accessors, which fix the number of parameters.
    let accessor ← ahead (do
      require ((← tryWord "get") || (← tryWord "set"))
      atKey)
    if accessor then
      let word ← anyWord
      pure { arity := some (if word = "get" then 0 else 1) }
    else pure {}

/-- The modifiers allow a key without a function. -/
def Modifiers.areNone (m : Modifiers) : Bool :=
  !m.awaits && !m.yields && m.arity.isNone

/-- The parameters are as many as the modifiers ask for; a rest parameter is never among those. -/
def Modifiers.allow (m : Modifiers) (f : Function) : Bool :=
  match m.arity, f with
  | none, _ => true
  | some n, .mk _ params rest _ => params.length == n && rest.isNone

/-- The function of a method, from its opening parenthesis on. -/
def method (grammar : Grammar) (m : Modifiers) : Parser Expr := do
  let start ← here
  let f ← functionRest grammar none m.awaits m.yields
  require (m.allow f)
  close start (.function f)

/-! ### Classes -/

/-- The parts of a computed key. -/
def keyParts : Key → List Part
  | .computed e => [.value e]
  | _ => []

/-- A decorator: a member chain or an expression in parentheses. -/
def decorators (grammar : Grammar) (c : Context) : Parser (List Part) :=
  many (do
    if ← tryMark "@" then pure (some (.value (← grammar (.access c true)))) else pure none)

/-- A modifier word in front of a class member. -/
def memberWord (w : String) : Parser Bool := do
  let present ← ahead (do
    keyword w
    pure ((← atKey) || (← atMark "*") || (← atMark "\x7b")))
  if present then keyword w
  pure present

/-- A member of a class: a method, a field, or a block of static statements. -/
def classMember (grammar : Grammar) (c : Context) : Parser (List Part) := do
  let decorated ← decorators grammar c
  let static ← memberWord "static"
  -- A static block, not a member.
  if static && (← atMark "\x7b") then
    let body ← block grammar { functionContext true false with returns := false }
    pure (body.map Part.statement)
  else
    let _ ← memberWord "accessor"
    let m ← modifiers
    let k ← key grammar c
    if ← atMark "(" then
      pure (decorated ++ keyParts k ++ [.value (← method grammar m)])
    else
      require m.areNone
      let value ← defaultValue grammar (functionContext false false)
      semicolon
      pure (decorated ++ keyParts k ++ (value.map Part.value).toList)

/-- What a class extends, if it extends anything. -/
def heritage (grammar : Grammar) (c : Context) : Parser (List Part) := do
  if ← tryWord "extends" then pure [.value (← grammar (.access c true))] else pure []

/-- The members of a class in braces. -/
def classBody (grammar : Grammar) (c : Context) : Parser (List Part) := do
  mark "\x7b"
  let members ← many (do
    if ← tryMark "\x7d" then pure none
    else if ← tryMark ";" then pure (some [])
    else pure (some (← classMember grammar c)))
  pure members.flatten

/-- A class after the word `class`: its name, the class it extends and its members. -/
def classAfterWord (grammar : Grammar) (c : Context) : Parser (List Part) := do
  let lexeme ← peek
  let binding ← match lexeme.token with
    | .word "extends" _ => pure []
    | .word _ _ => do pure [Part.binding (.name (← name c))]
    | _ => pure []
  let extended ← heritage grammar c
  let members ← classBody grammar c
  pure (binding ++ extended ++ members)

end Stencil.Script.Parser
