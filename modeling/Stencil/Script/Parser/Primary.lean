import Stencil.Script.Parser.Function

/-!
# Literals and primary expressions

Template, array and object literals, and the operands that chains of members and calls start from.
-/

namespace Stencil.Script.Parser

/-! ### Template literals -/

/-- One run of a template literal, from the text directly after the previous mark on. -/
def run : Parser Run := do
  let s ← get
  match takeRun (s.length + 1) s with
  | some r => set r.rest; pure r
  | none => failure

/-- The closing brace of a substitution, directly before the next run. -/
def substitutionEnd : Parser Unit := do
  match ← here with
  | '}' :: rest => set rest
  | _ => failure

/-- One more substitution and the run behind it, unless the run before it ends the literal. -/
def nextSubstitution (grammar : Grammar) (c : Context) :
    RunEnd × List Run × List Expr → Parser (Option (RunEnd × List Run × List Expr))
  | (.literal, _, _) => pure none
  | (.substitution, runs, substitutions) => do
    let e ← grammar (.expression c.withIn)
    substitutionEnd
    let r ← run
    pure (some (r.stop, runs ++ [r], substitutions ++ [e]))

/-- The runs and the substitutions of a template literal after its opening backtick. -/
def templateParts (grammar : Grammar) (c : Context) : Parser (List Run × List Expr) := do
  let first ← run
  let (_, runs, substitutions) ← grow (nextSubstitution grammar c) (first.stop, [first], [])
  pure (runs, substitutions)

/-- The written and the read form of a run whose escapes are all valid. -/
def quasi? (r : Run) : Option Quasi :=
  r.cooked.map fun cooked => ⟨String.ofList r.raw, String.ofList cooked⟩

/-- A template literal after its opening backtick. -/
def template (grammar : Grammar) (c : Context) (start : List Char) : Parser Expr := do
  let (runs, substitutions) ← templateParts grammar c
  match runs.mapM quasi? with
  | some quasis => close start (.template quasis substitutions)
  | none => failure

/-! ### Array and object literals -/

/-- An item of an array literal or an argument: a value or a spread. -/
def item (grammar : Grammar) (c : Context) : Parser Part := do
  if ← tryMark "..." then pure (.spread (← grammar (.assignment c.withIn)))
  else pure (.value (← grammar (.assignment c.withIn)))

/-- One more place of an array literal, which may be a hole; nothing at its closing bracket. -/
def arrayPlace (grammar : Grammar) (c : Context) : Parser (Option (Option Part)) := do
  if ← tryMark "]" then pure none
  else if ← tryMark "," then pure (some none)
  else
    let i ← item grammar c
    if !(← atMark "]") then mark ","
    pure (some (some i))

/-- An array literal after its opening bracket. -/
def array (grammar : Grammar) (c : Context) (start : List Char) : Parser Expr := do
  let items ← many (arrayPlace grammar c)
  close start (.other .array (items.filterMap id))

/-- A member of an object literal. -/
def property (grammar : Grammar) (c : Context) : Parser Property := do
  if ← tryMark "..." then pure (.spread (← grammar (.assignment c.withIn)))
  else
    let m ← modifiers
    let before ← get
    let k ← key grammar c
    if ← atMark "(" then pure (.pair k (← method grammar m))
    else
      -- Modifiers belong to methods.
      require m.areNone
      if ← tryMark ":" then pure (.pair k (← grammar (.assignment c.withIn)))
      else
        -- A key alone stands for the variable of that name, so it is read again as a name.
        set before
        let start ← here
        let n ← name c
        pure (.pair (.name n) (← close start (.identifier n)))

/-- An object literal after its opening brace. -/
def object (grammar : Grammar) (c : Context) (start : List Char) : Parser Expr := do
  let properties ← separated "\x7d" (property grammar c)
  close start (.object properties)

/-- Arguments after their opening parenthesis. -/
def arguments (grammar : Grammar) (c : Context) : Parser (List Part) :=
  separated ")" (item grammar c)

/-! ### Primary expressions -/

/-- An expression after the word `new`. -/
def newAfterWord (grammar : Grammar) (c : Context) (start : List Char) : Parser Expr := do
  if ← tryMark "." then
    keyword "target"
    close start (.other .plain [])
  else
    -- The callee has no calls of its own, and no optional links.
    let callee ← grammar (.access c false)
    require (match callee.form with
      | .chain _ => false
      | _ => true)
    let args ← if ← tryMark "(" then arguments grammar c else pure []
    close start (.other .new (.value callee :: args))

/-- A module loaded when the expression is evaluated: its specifier, and options for loading it. -/
def importCall (grammar : Grammar) (c : Context) (start : List Char) : Parser Expr := do
  mark "("
  let args ← separated ")" (grammar (.assignment c.withIn))
  require (args.length == 1 || args.length == 2)
  close start (.other .plain (args.map Part.value))

/-- An expression after the word `import`: the module's own properties, or a module to be loaded. -/
def importAfterWord (grammar : Grammar) (c : Context) (start : List Char) : Parser Expr := do
  if ← tryMark "." then
    if ← tryWord "meta" then close start (.other .plain [])
    else
      require ((← tryWord "source") || (← tryWord "defer"))
      importCall grammar c start
  else importCall grammar c start

/-- An expression that begins with a word. -/
def primaryWord (grammar : Grammar) (c : Context) (lexeme : Lexeme) (w : String) (escaped : Bool) :
    Parser Expr := do
  let start := lexeme.start
  if ← atAsyncFunction then
    set lexeme.rest
    keyword "function"
    close start (.function (← functionAfterWord grammar c true))
  else
    set lexeme.rest
    -- A word that is spelled with an escape is never a keyword.
    match w, escaped with
    | "this", false => close start (.other .this [])
    | "null", false => close start .null
    | "true", false => close start (.boolean true)
    | "false", false => close start (.boolean false)
    | "function", false =>
      let f ← functionAfterWord grammar c false
      close start (.function f)
    | "class", false =>
      let parts ← classAfterWord grammar c
      close start (.other .plain parts)
    | "new", false => newAfterWord grammar c start
    | "import", false => importAfterWord grammar c start
    | "super", false =>
      require ((← atMark "(") || (← atMark ".") || (← atMark "["))
      close start (.other .plain [])
    | _, _ =>
      require (isName c w)
      close start (.identifier w)

/-- An operand without any member, call or operator around it. -/
def primary (grammar : Grammar) (c : Context) : Parser Expr := do
  let lexeme ← peek
  let start := lexeme.start
  match lexeme.token with
  | .word w escaped => primaryWord grammar c lexeme w escaped
  | .numeral (.number value) => set lexeme.rest; close start (.number value)
  -- The number of such a numeral is never asked for.
  | .numeral .bigint => set lexeme.rest; close start (.other .plain [])
  | .string value => set lexeme.rest; close start (.string value)
  | .mark "(" =>
    set lexeme.rest
    let inner ← grammar (.expression c.withIn)
    mark ")"
    close start (.paren inner)
  | .mark "[" => set lexeme.rest; array grammar c start
  | .mark "\x7b" => set lexeme.rest; object grammar c start
  | .mark "`" => set lexeme.rest; template grammar c start
  | .mark "<" => grammar (.markup c)
  | .mark "@" =>
    let decorated ← decorators grammar c
    keyword "class"
    let parts ← classAfterWord grammar c
    close start (.other .plain (decorated ++ parts))
  -- Where an operand is expected, a slash begins a regular expression.
  | .mark "/" | .mark "/=" =>
    match regex (start.drop 1) with
    | some rest => set rest; close start (.other .plain [])
    | none => failure
  | _ => failure

end Stencil.Script.Parser
