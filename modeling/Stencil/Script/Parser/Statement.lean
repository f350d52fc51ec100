import Stencil.Script.Parser.Expression

/-!
# Statements

Declarations, control flow and expression statements. A statement may end without a semicolon before
a closing brace, at the end of the text and at a line end.
-/

namespace Stencil.Script.Parser

/-! ### Declarations -/

/-- Something that a declaration can bind comes next. -/
def atBinding (c : Context) : Parser Bool := do
  match (← peek).token with
  | .word w _ => pure (isName c w)
  | .mark "[" | .mark "\x7b" => pure true
  | _ => pure false

/-- The keyword of a declaration that comes next. `let` and `using` are keywords only in front of
what they bind. -/
def declarationKind? (c : Context) : Parser (Option DeclarationKind) := do
  if ← atWord "var" then pure (some .var)
  else if ← atWord "const" then pure (some .const)
  -- These two words are names as well, and declare something only before a binding.
  else if ← ahead (do keyword "let"; atBinding c) then pure (some .let)
  else if ← ahead (do
      keyword "using"
      let lexeme ← peek
      match lexeme.token with
      | .word w _ => pure (!lexeme.afterLineEnd && isName c w && w != "of")
      | _ => pure false) then pure (some .using)
  else pure none

/-- A pattern needs a value wherever it is declared. -/
def isPlainName : Pattern → Bool
  | .name _ => true
  | _ => false

/-- One variable of a declaration. -/
def declarator (grammar : Grammar) (c : Context) : Parser Declarator := do
  let p ← grammar (.pattern c)
  if ← tryMark "=" then pure (.mk p (some (← grammar (.assignment c)))) else pure (.mk p none)

/-- The declarator stands on its own: it has a value, or it is a plain name that needs none. -/
def isComplete (kind : DeclarationKind) : Declarator → Bool
  | .mk _ (some _) => true
  | .mk p none => isPlainName p && (kind == .let || kind == .var)

/-- The variables of a declaration, separated by commas. -/
def declarators (grammar : Grammar) (c : Context) : Parser (List Declarator) := do
  let first ← declarator grammar c
  let others ← many (do
    if ← tryMark "," then pure (some (← declarator grammar c)) else pure none)
  pure (first :: others)

/-- A declaration with its semicolon. -/
def declaration (grammar : Grammar) (c : Context) (kind : DeclarationKind) : Parser Stmt := do
  let _ ← anyWord
  let ds ← declarators grammar c
  require (ds.all (isComplete kind))
  semicolon
  pure (.declaration kind ds)

/-! ### Loops -/

/-- An expression in parentheses. -/
def parenthesised (grammar : Grammar) (c : Context) : Parser Expr := do
  mark "("
  let e ← grammar (.expression c.withIn)
  mark ")"
  pure e

/-- The word between a loop variable and what the loop runs over. -/
def loopWord : Parser Bool := do
  if ← tryWord "of" then pure true else tryWord "in"

/-- An expression up to the mark `m`, if there is one. -/
def optionalUpTo (grammar : Grammar) (c : Context) (m : String) : Parser (List Part) := do
  if ← tryMark m then pure []
  else
    let e ← grammar (.expression c.withIn)
    mark m
    pure [.value e]

/-- The test and the step of a counting loop, after its first semicolon. -/
def countingRest (grammar : Grammar) (c : Context) : Parser (List Part) := do
  let test ← optionalUpTo grammar c ";"
  let step ← optionalUpTo grammar c ")"
  pure (test ++ step)

/-- What a loop over values runs over, after its word. -/
def overRest (grammar : Grammar) (c : Context) : Parser (List Part) := do
  let e ← grammar (.expression c.withIn)
  mark ")"
  pure [.value e]

/-- The head of a `for` loop, after its opening parenthesis, when it declares a variable. -/
def declaringHead (grammar : Grammar) (c : Context) (kind : DeclarationKind) :
    Parser (List Part) := do
  let _ ← anyWord
  -- The word that tests membership ends the declaration here.
  let ds ← declarators grammar c.withoutIn
  let parts := [Part.statement (.declaration kind ds)]
  -- A loop over something declares one variable without a value.
  if ← loopWord then
    require (ds.length == 1)
    pure (parts ++ (← overRest grammar c))
  else
    require (ds.all (isComplete kind))
    mark ";"
    pure (parts ++ (← countingRest grammar c))

/-- The head of a loop over values that assigns them to a target. -/
def assigningHead (grammar : Grammar) (c : Context) : Parser (List Part) := do
  let t ← grammar (.target c.withoutIn)
  require (← loopWord)
  pure (.value t :: (← overRest grammar c))

/-- The head of a `for` loop, after its opening parenthesis. -/
def forHead (grammar : Grammar) (c : Context) : Parser (List Part) := do
  if ← tryMark ";" then countingRest grammar c
  else
    match ← declarationKind? c with
    | some kind => declaringHead grammar c kind
    | none =>
      -- A target of the loop reads like an expression up to the word behind it.
      match ← attempt (assigningHead grammar c) with
      | some parts => pure parts
      | none =>
        let e ← grammar (.expression c.withoutIn)
        mark ";"
        pure (.value e :: (← countingRest grammar c))

/-! ### Control flow -/

/-- A conditional statement after its word. -/
def branchAfterWord (grammar : Grammar) (c : Context) : Parser Stmt := do
  let test ← parenthesised grammar c
  let consequent ← grammar (.statement c true)
  let alternate ← if ← tryWord "else" then
    pure (some (← grammar (.statement c true))) else pure none
  pure (.branch test consequent alternate)

/-- The test of a case of a `switch`; the default case has none. -/
def caseTest (grammar : Grammar) (c : Context) : Parser (List Part) := do
  if ← tryWord "case" then pure [.value (← grammar (.expression c.withIn))]
  else
    keyword "default"
    pure []

/-- The statements of a case, up to the next case or the closing brace. -/
def caseBody (grammar : Grammar) (c : Context) : Parser (List Stmt) :=
  many (do
    if (← atMark "\x7d") || (← atWord "case") || (← atWord "default") then pure none
    else pure (some (← grammar (.statement c false))))

/-- One case of a `switch`, or nothing at its closing brace. -/
def switchCase (grammar : Grammar) (c : Context) : Parser (Option (List Part)) := do
  if ← tryMark "\x7d" then pure none
  else
    let test ← caseTest grammar c
    mark ":"
    let body ← caseBody grammar c
    pure (some (test ++ body.map Part.statement))

/-- A `switch` after its word. -/
def switchAfterWord (grammar : Grammar) (c : Context) : Parser Stmt := do
  let e ← parenthesised grammar c
  mark "\x7b"
  let cases ← many (switchCase grammar c)
  pure (.other (.value e :: cases.flatten))

/-- What a handler binds, in parentheses, if it binds anything. -/
def caught (grammar : Grammar) (c : Context) : Parser (List Part) := do
  if ← tryMark "(" then
    let p ← grammar (.pattern c)
    mark ")"
    pure [.binding p]
  else pure []

/-- The handler of a `try`, if it has one. -/
def handler (grammar : Grammar) (c : Context) : Parser (Option (List Part)) := do
  if ← tryWord "catch" then
    let bound ← caught grammar c
    pure (some (bound ++ (← block grammar c).map Part.statement))
  else pure none

/-- The final block of a `try`, if it has one. -/
def finalBlock (grammar : Grammar) (c : Context) : Parser (Option (List Part)) := do
  if ← tryWord "finally" then pure (some ((← block grammar c).map Part.statement)) else pure none

/-- A `try` after its word: a block, and a handler or a final block or both. -/
def tryAfterWord (grammar : Grammar) (c : Context) : Parser Stmt := do
  let body ← block grammar c
  let handled ← handler grammar c
  let final ← finalBlock grammar c
  require (handled.isSome || final.isSome)
  pure (.other (body.map Part.statement ++ handled.getD [] ++ final.getD []))

/-- A `return` after its word. -/
def returnAfterWord (grammar : Grammar) (c : Context) : Parser Stmt := do
  require c.returns
  let lexeme ← peek
  let bare := lexeme.afterLineEnd || match lexeme.token with
    | .mark ";" | .mark "\x7d" | .finish => true
    | _ => false
  -- A line end behind the word ends the statement.
  if bare then
    semicolon
    pure (.ret none)
  else
    let e ← grammar (.expression c.withIn)
    semicolon
    pure (.ret (some e))

/-- A jump after its word, with a label on the same line or without one. -/
def jumpAfterWord (c : Context) : Parser Stmt := do
  let lexeme ← peek
  match lexeme.token with
  | .word w _ => if !lexeme.afterLineEnd && isName c w then set lexeme.rest
  | _ => pure ()
  semicolon
  pure (.other [])

/-- An expression statement. -/
def expressionStatement (grammar : Grammar) (c : Context) : Parser Stmt := do
  let e ← grammar (.expression c.withIn)
  semicolon
  pure (.expression e)

/-- A statement that begins with the keyword `w`, if `w` is one. The keyword is read already. -/
def afterKeyword? (grammar : Grammar) (c : Context) (only : Bool) (w : String) :
    Option (Parser Stmt) :=
  match w with
  | "if" => some (branchAfterWord grammar c)
  | "for" => some (do
    let _ ← tryWord "await"
    mark "("
    let head ← forHead grammar c
    let body ← grammar (.statement c true)
    pure (.other (head ++ [.statement body])))
  | "while" | "with" => some (do
    let test ← parenthesised grammar c
    let body ← grammar (.statement c true)
    pure (.other [.value test, .statement body]))
  | "do" => some (do
    let body ← grammar (.statement c true)
    keyword "while"
    let test ← parenthesised grammar c
    -- The semicolon behind this loop may be missing, also on one line.
    let _ ← tryMark ";"
    pure (.other [.statement body, .value test]))
  | "switch" => some (switchAfterWord grammar c)
  | "try" => some (tryAfterWord grammar c)
  | "return" => some (returnAfterWord grammar c)
  | "break" | "continue" => some (jumpAfterWord c)
  | "throw" => some (do
    -- What is thrown begins on the same line.
    require (!(← peek).afterLineEnd)
    let e ← grammar (.expression c.withIn)
    semicolon
    pure (.other [.value e]))
  | "debugger" => some (do
    semicolon
    pure (.other []))
  | "function" => some (do
    let f ← functionAfterWord grammar c false
    require f.name.isSome
    pure (.function f))
  | "class" => some (do
    -- A class does not stand alone in the place of a branch, and as a statement it has a name.
    require (!only)
    require (!(← atWord "extends") && !(← atMark "\x7b"))
    pure (.other (← classAfterWord grammar c)))
  | _ => none

/-- A statement that begins with a word. -/
def wordStatement (grammar : Grammar) (c : Context) (only : Bool) (lexeme : Lexeme) (w : String)
    (escaped : Bool) : Parser Stmt := do
  match if escaped then none else afterKeyword? grammar c only w with
  | some p =>
    set lexeme.rest
    p
  | none =>
    if ← atAsyncFunction then
      keyword "async"
      keyword "function"
      let f ← functionAfterWord grammar c true
      require f.name.isSome
      pure (.function f)
    else
      match ← declarationKind? c with
      | some kind =>
        -- In the place of a branch there is no scope for the other kinds.
        require (!only || kind == .var)
        declaration grammar c kind
      | none =>
        -- A name before a colon is a label.
        if ← ahead (do let _ ← name c; tryMark ":") then
          let _ ← name c
          mark ":"
          let body ← grammar (.statement c true)
          pure (.other [.statement body])
        else expressionStatement grammar c

/-- A statement. -/
def statement (grammar : Grammar) (c : Context) (only : Bool) : Parser Stmt := do
  let lexeme ← peek
  match lexeme.token with
  | .mark "\x7b" => pure (.block (← block grammar c))
  | .mark ";" =>
    set lexeme.rest
    pure (.other [])
  | .mark "@" =>
    let decorated ← decorators grammar c
    keyword "class"
    pure (.other (decorated ++ (← classAfterWord grammar c)))
  | .word w escaped => wordStatement grammar c only lexeme w escaped
  | _ => expressionStatement grammar c

end Stencil.Script.Parser
