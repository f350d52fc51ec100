import Stencil.Script.Parser.Statement

/-!
# The grammar of modules

Imports and exports, the unrolled grammar, and the two entry points: `Module.parse?` reads a whole
module, `Expr.parse?` reads the expression at the start of a text.
-/

namespace Stencil.Script

namespace Parser

/-- Every rule, with `grammar` for the rules it refers to. -/
def rule (grammar : Grammar) : Grammar
  | .expression c => expression grammar c
  | .assignment c => assignment grammar c
  | .binary c level => binary grammar c level
  | .unary c => unary grammar c
  | .access c calls => access grammar c calls
  | .target c => target grammar c
  | .pattern c => pattern grammar c
  | .statement c only => statement grammar c only
  | .markup c => markup grammar c

/-- The grammar unrolled `depth` times. -/
def unrolled : Nat → Grammar
  | 0 => fun _ => failure
  | depth + 1 => fun g => rule (unrolled depth) g

/-- Enough unrolling for a text: rules nest at most a few deep between two characters that are
read. -/
def depthFor (s : List Char) : Nat :=
  16 * s.length + 64

/-! ### Imports -/

/-- A name in an import or export list, which may be a string literal. -/
def moduleName : Parser String := do
  let lexeme ← peek
  match lexeme.token with
  | .word w _ => set lexeme.rest; pure w
  | .string s => set lexeme.rest; pure s
  | _ => failure

/-- A name that an import list binds. -/
def importName (c : Context) : Parser ImportName := do
  let lexeme ← peek
  let imported ← moduleName
  if ← tryWord "as" then
    pure (.named (← name c) imported)
  else
    match lexeme.token with
    | .word w _ =>
      require (isName c w)
      pure (.named w w)
    | _ => failure

/-- Everything of a module under one name, after the asterisk. -/
def wholeImport (c : Context) : Parser ImportName := do
  keyword "as"
  pure (.whole (← name c))

/-- The names of an import list or the name of the whole module. -/
def listedImports (c : Context) : Parser (List ImportName) := do
  if ← tryMark "*" then pure [← wholeImport c]
  else
    mark "\x7b"
    separated "\x7d" (importName c)

/-- Attributes of an import or export, which are read over. -/
def importAttributes : Parser Unit := do
  if ← tryWord "with" then
    mark "\x7b"
    let _ ← separated "\x7d" (do
      let _ ← moduleName
      mark ":"
      let _ ← string
      pure ())
  pure ()

/-- The module that names come from, and the end of the declaration. -/
def fromModule : Parser String := do
  keyword "from"
  let source ← string
  importAttributes
  semicolon
  pure source

/-- An import declaration after its word. -/
def importAfterKeyword (c : Context) : Parser Item := do
  let lexeme ← peek
  match lexeme.token with
  -- Imported for its effects only.
  | .string source =>
    set lexeme.rest
    importAttributes
    semicolon
    pure (.imports source [])
  | .mark _ =>
    let names ← listedImports c
    pure (.imports (← fromModule) names)
  | _ =>
    -- The default comes first, and a list may follow it.
    let first := ImportName.default (← name c)
    let others ← if ← tryMark "," then listedImports c else pure []
    pure (.imports (← fromModule) (first :: others))

/-! ### Exports -/

/-- One name of an export list: the name it is exported under. -/
def exportName : Parser String := do
  let inner ← moduleName
  if ← tryWord "as" then moduleName else pure inner

/-- The item after `export default`. -/
def defaultExport (grammar : Grammar) (c : Context) : Parser Item := do
  if ← atAsyncFunction then
    keyword "async"
    keyword "function"
    pure (.defaultFunction (← functionAfterWord grammar c true))
  else if ← tryWord "function" then
    pure (.defaultFunction (← functionAfterWord grammar c false))
  else
    let decorated ← decorators grammar c
    if ← tryWord "class" then
      let _ ← classAfterWord grammar c
      pure (.otherExport ["default"])
    else
      -- Only classes are decorated.
      require decorated.isEmpty
      let e ← grammar (.assignment c)
      semicolon
      pure (.defaultValue e)

/-- The name that a class declares, if any; of its parts, the name comes first. -/
def classNames : List Part → List String
  | .binding (.name n) :: _ => [n]
  | _ => []

/-- The item after the word `export`. -/
def exportAfterKeyword (grammar : Grammar) (c : Context) : Parser Item := do
  if ← tryWord "default" then defaultExport grammar c
  else if ← tryMark "*" then
    let names ← if ← tryWord "as" then pure [← moduleName] else pure []
    let _ ← fromModule
    pure (.otherExport names)
  else if ← tryMark "\x7b" then
    let names ← separated "\x7d" exportName
    -- Names of another module, or of this one.
    if ← atWord "from" then
      let _ ← fromModule
    else semicolon
    pure (.otherExport names)
  else
    let decorated ← decorators grammar c
    if ← tryWord "class" then
      pure (.otherExport (classNames (← classAfterWord grammar c)))
    else
      require decorated.isEmpty
      match ← declarationKind? c with
      | some kind => pure (.exported (← declaration grammar c kind))
      | none =>
        require ((← atWord "function") || (← atAsyncFunction))
        pure (.exported (← grammar (.statement c false)))

/-! ### Modules -/

/-- An item of a module, or nothing at the end of the text. -/
def moduleItem (grammar : Grammar) (c : Context) : Parser (Option Item) := do
  let lexeme ← peek
  match lexeme.token with
  | .finish => pure none
  | .word "import" false =>
    -- A call that loads a module, and its meta property, are expressions.
    if ← ahead (do keyword "import"; pure ((← atMark "(") || (← atMark "."))) then
      pure (some (.statement (← grammar (.statement c false))))
    else
      set lexeme.rest
      pure (some (← importAfterKeyword c))
  | .word "export" false =>
    set lexeme.rest
    pure (some (← exportAfterKeyword grammar c))
  | _ => pure (some (.statement (← grammar (.statement c false))))

end Parser

mutual

/-- The names that a pattern binds. -/
def Pattern.names : Pattern → List String
  | .name n => [n]
  | .object fields rest => fieldsNames fields ++ optPatternNames rest
  | .array items => patternsNames items
  | .withDefault p _ => p.names

def patternsNames : List Pattern → List String
  | [] => []
  | p :: rest => p.names ++ patternsNames rest

def optPatternNames : Option Pattern → List String
  | none => []
  | some p => p.names

def fieldsNames : List Field → List String
  | [] => []
  | .mk _ p :: rest => p.names ++ fieldsNames rest

end

/-- The names that an item exports. -/
def Item.exports : Item → List String
  | .imports _ _ | .statement _ => []
  | .exported (.declaration _ ds) => ds.flatMap fun | .mk p _ => p.names
  | .exported (.function f) => f.name.toList
  | .exported _ => []
  | .defaultFunction _ | .defaultValue _ => ["default"]
  | .otherExport names => names

/-- Reads a module. No name may be exported twice. -/
def Module.parse? (source : String) : Option Module := do
  let s := skipPreamble source.toList
  let grammar := Parser.unrolled (Parser.depthFor s)
  let (items, _) ← Parser.many (Parser.moduleItem grammar {}) s
  let names := items.flatMap Item.exports
  if names.eraseDups.length == names.length then some items else none

/-- Reads the expression at the start of a text and leaves whatever follows it, as long as the next
token is well formed. -/
@[irreducible] def Expr.parse? (code : String) : Option Expr := do
  let s := skipPreamble code.toList
  let (e, rest) ← Parser.unrolled (Parser.depthFor s) (.expression {}) s
  let _ ← nextToken rest
  some e

end Stencil.Script
