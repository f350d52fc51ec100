import Stencil.Script.Parser.Basic

/-!
# Markup literals

Elements and fragments inside scripts. Tag and attribute names may hold hyphens, attribute strings
and texts have neither escapes nor entities, and a closing tag repeats the name of its opening tag.
-/

namespace Stencil.Script.Parser

/-- Reads the character `m` if it is the next one after blanks. -/
def trySign (m : Char) : Parser Bool := do
  match ← here with
  | c :: rest => if c = m then set rest; pure true else pure false
  | [] => pure false

/-- Reads the character `m`. -/
def sign (m : Char) : Parser Unit := do
  require (← trySign m)

/-- A name in markup: an identifier that may hold hyphens. -/
def markupWord : Parser String := do
  match ← here with
  | c :: rest =>
    if Text.isIdentifierStart c then
      let (part, rest) := rest.span fun d => Text.isIdentifierPart d || d == '-'
      set rest
      pure (String.ofList (c :: part))
    else failure
  | [] => failure

/-- The name of an attribute, with a namespace or not. -/
def attributeName : Parser String := do
  let first ← markupWord
  if ← trySign ':' then pure (first ++ ":" ++ (← markupWord)) else pure first

/-- The name of a tag: a name, a name in a namespace, or a chain of members. -/
def tagName : Parser String := do
  let first ← markupWord
  if ← trySign ':' then pure (first ++ ":" ++ (← markupWord))
  else
    let members ← many (do
      if ← trySign '.' then pure (some (← markupWord)) else pure none)
    require (members.isEmpty || !first.toList.contains '-')
    pure (".".intercalate (first :: members))

/-- An attribute string: everything up to the next quote of the same kind. -/
def attributeString (quote : Char) : Parser String := do
  let (value, rest) := (← get).span (· != quote)
  match rest with
  | _ :: rest => set rest; pure (String.ofList value)
  | [] => failure

/-- The value of an attribute after its equals sign. -/
def attributeValue (grammar : Grammar) (c : Context) (name : String) : Parser Attribute := do
  match ← here with
  | '"' :: rest => set rest; pure (.string name (← attributeString '"'))
  | '\'' :: rest => set rest; pure (.string name (← attributeString '\''))
  | '{' :: rest =>
    set rest
    let e ← grammar (.expression c.withIn)
    sign '}'
    pure (.value name e)
  | '<' :: _ => pure (.value name (← grammar (.markup c)))
  | _ => failure

/-- The attributes of an opening tag. -/
def attributes (grammar : Grammar) (c : Context) : Parser (List Attribute) :=
  many (do
    match ← here with
    | '>' :: _ => pure none
    | '/' :: _ => pure none
    | '{' :: rest =>
      set rest
      -- Braces without a name hold a spread.
      mark "..."
      let e ← grammar (.assignment c.withIn)
      sign '}'
      pure (some (.spread e))
    | _ =>
      let name ← attributeName
      if ← trySign '=' then pure (some (← attributeValue grammar c name))
      else pure (some (.flag name)))

/-- A child in braces, after the opening brace. -/
def bracedChild (grammar : Grammar) (c : Context) : Parser Child := do
  match ← here with
  | '}' :: rest => set rest; pure .empty
  | _ =>
    if ← tryMark "..." then
      let e ← grammar (.assignment c.withIn)
      sign '}'
      pure (.spread e)
    else
      let e ← grammar (.expression c.withIn)
      sign '}'
      pure (.value e)

/-- The children of an element or a fragment, up to and with the opening of the closing tag. -/
def children (grammar : Grammar) (c : Context) : Parser (List Child) :=
  many (do
    match ← get with
    | '{' :: rest =>
      set rest
      pure (some (← bracedChild grammar c))
    | '<' :: rest =>
      -- Blanks may stand between the signs of a closing tag.
      match skipBlanks rest with
      | some (_, '/' :: after) => set after; pure none
      | _ => pure (some (.value (← grammar (.markup c))))
    | s =>
      -- A text is taken as it stands, blanks and line ends included.
      let (text, rest) := s.span fun d => d != '{' && d != '<'
      require (!text.isEmpty && !text.contains '>' && !text.contains '}')
      set rest
      pure (some (.text (String.ofList text))))

/-- A markup literal. -/
def markup (grammar : Grammar) (c : Context) : Parser Expr := do
  let start ← here
  sign '<'
  if ← trySign '>' then
    let cs ← children grammar c
    sign '>'
    close start (.fragment cs)
  else
    let tag ← tagName
    let attrs ← attributes grammar c
    if ← trySign '/' then
      sign '>'
      close start (.element tag attrs [])
    else
      sign '>'
      let cs ← children grammar c
      let closing ← tagName
      -- Tags are compared as they are put together, with their dots and colons.
      require (closing == tag)
      sign '>'
      close start (.element tag attrs cs)

end Stencil.Script.Parser
