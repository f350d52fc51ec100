import Stencil.Script.Parser.Basic

/-!
# Patterns, keys and parameters

Rules for what declarations and parameters bind, for assignment targets, and for the keys that
object literals, classes and object patterns share.
-/

namespace Stencil.Script.Parser

/-- The key of a property, a field or a class member. -/
def key (grammar : Grammar) (c : Context) : Parser Key := do
  let lexeme ← peek
  match lexeme.token with
  -- Every word can be a key, reserved or not.
  | .word w _ => set lexeme.rest; pure (.name w)
  | .string s => set lexeme.rest; pure (.string s)
  | .numeral _ => set lexeme.rest; pure .number
  | .hidden _ => set lexeme.rest; pure .hidden
  | .mark "[" =>
    set lexeme.rest
    let e ← grammar (.assignment c.withIn)
    mark "]"
    pure (.computed e)
  | _ => failure

/-- A default value if an equals sign comes next. -/
def defaultValue (grammar : Grammar) (c : Context) : Parser (Option Expr) := do
  if ← tryMark "=" then pure (some (← grammar (.assignment c.withIn))) else pure none

/-- A pattern with the default value that may follow it. -/
def patternElement (grammar : Grammar) (c : Context) : Parser Pattern := do
  let p ← grammar (.pattern c)
  match ← defaultValue grammar c with
  | some value => pure (.withDefault p value)
  | none => pure p

/-- A field of an object pattern: a key with a pattern, or a name on its own. -/
def patternField (grammar : Grammar) (c : Context) : Parser Field := do
  let before ← get
  let k ← key grammar c
  if ← tryMark ":" then pure (.mk k (← patternElement grammar c))
  else
    set before
    let n ← name c
    match ← defaultValue grammar c with
    | some value => pure (.mk (.name n) (.withDefault (.name n) value))
    | none => pure (.mk (.name n) (.name n))

/-- Items of an array pattern; holes are left out, and nothing follows a rest item. -/
def arrayItems {α : Type} (item : Parser α) (rest : Parser α) : Parser (List α) := do
  let items ← many (do
    if ← tryMark "]" then pure none
    -- A comma without an item leaves a hole.
    else if ← tryMark "," then pure (some none)
    else if ← tryMark "..." then
      -- The rest element comes last, with no comma behind it.
      let r ← rest
      require (← atMark "]")
      pure (some (some r))
    else
      let i ← item
      if !(← atMark "]") then mark ","
      pure (some (some i)))
  pure (items.filterMap id)

/-- Fields of an object pattern up to its closing brace, and the rest field if there is one. -/
def objectFields {α β : Type} (field : Parser α) (rest : Parser β) :
    Parser (List α × Option β) := do
  let fields ← many (do
    if ← tryMark "\x7d" then pure none
    else if ← tryMark "..." then
      let r ← rest
      require (← atMark "\x7d")
      pure (some (Sum.inr r))
    else
      let f ← field
      if !(← atMark "\x7d") then mark ","
      pure (some (Sum.inl f)))
  -- There is at most one rest element, the last field.
  let plain := fields.filterMap fun
    | Sum.inl f => some f
    | Sum.inr _ => none
  let others := fields.filterMap fun
    | Sum.inl _ => none
    | Sum.inr r => some r
  pure (plain, others.head?)

/-- What a declaration or a parameter binds: a name, an array pattern or an object pattern. -/
def pattern (grammar : Grammar) (c : Context) : Parser Pattern := do
  if ← tryMark "[" then
    pure (.array (← arrayItems (patternElement grammar c) (grammar (.pattern c))))
  else if ← tryMark "\x7b" then
    let (fields, rest) ← objectFields (patternField grammar c) (grammar (.pattern c))
    pure (.object fields rest)
  else pure (.name (← name c))

/-! ### Assignment targets -/

/-- A value may be assigned to the expression: a name or a member, in parentheses or not. -/
def isSimpleTarget (e : Expr) : Bool :=
  match e.bare.form with
  | .identifier _ | .member _ _ | .index _ _ => true
  | .other .hiddenMember _ => true
  | _ => false

/-- A target with the default value that may follow it. -/
def targetElement (grammar : Grammar) (c : Context) : Parser (List Part) := do
  let t ← grammar (.target c)
  match ← defaultValue grammar c with
  | some value => pure [.value t, .value value]
  | none => pure [.value t]

/-- A field of an object target: a key with a target, or a name on its own. -/
def targetField (grammar : Grammar) (c : Context) : Parser (List Part) := do
  let before ← get
  let k ← key grammar c
  if ← tryMark ":" then
    let parts ← targetElement grammar c
    match k with
    | .computed e => pure (.value e :: parts)
    | _ => pure parts
  else
    -- Without a value the key is a name that is assigned to, so it is read again as one.
    set before
    let start ← here
    let n ← name c
    let e ← close start (.identifier n)
    match ← defaultValue grammar c with
    | some value => pure [.value e, .value value]
    | none => pure [.value e]

/-- A destructuring target, or a simple one. -/
def target (grammar : Grammar) (c : Context) : Parser Expr := do
  let start ← here
  if ← tryMark "[" then
    let rest := do pure [.value (← grammar (.target c))]
    let parts ← arrayItems (targetElement grammar c) rest
    close start (.other .plain parts.flatten)
  else if ← tryMark "\x7b" then
    let (parts, rest) ← objectFields (targetField grammar c) (grammar (.target c))
    close start (.other .plain (parts.flatten ++ (rest.map Part.value).toList))
  else
    let e ← grammar (.access c true)
    require (isSimpleTarget e)
    pure e

/-! ### Parameters -/

/-- A parameter with the default value that may follow it. -/
def parameter (grammar : Grammar) (c : Context) : Parser Param := do
  let start ← here
  let p ← grammar (.pattern c)
  let text ← textSince start
  pure (.mk text p (← defaultValue grammar c))

/-- The parameters after their opening parenthesis, and the rest parameter if there is one. -/
def parameters (grammar : Grammar) (c : Context) : Parser (List Param × Option Pattern) := do
  let items ← many (do
    if ← tryMark ")" then pure none
    else if ← tryMark "..." then
      let p ← grammar (.pattern c)
      -- The rest parameter comes last.
      require (← atMark ")")
      pure (some (Sum.inr p))
    else
      let p ← parameter grammar c
      if !(← atMark ")") then mark ","
      pure (some (Sum.inl p)))
  let plain := items.filterMap fun
    | Sum.inl p => some p
    | Sum.inr _ => none
  let others := items.filterMap fun
    | Sum.inl _ => none
    | Sum.inr p => some p
  pure (plain, others.head?)

end Stencil.Script.Parser
