import Stencil.Constant.Evaluate
import Stencil.Failure
import Stencil.Lower.Markup
import Stencil.Template.Table

/-!
# Lowering modules

A module is read twice. The first pass collects its imports, its constants, the props that it
declares as required, and the functions that return markup. The second lowers these functions to
components, once all the constants are known.

The result `Lowered` is the symbol table of the module together with a tree whose only child is the
default exported component. A module without one cannot be lowered.
-/

namespace Stencil.Lower

open Script (Expr Form Function Item Property Field Stmt Declarator DeclarationKind ImportName
  Module)

/-! ### Candidates -/

/-- A function that becomes a component. -/
structure Candidate where
  name : String
  function : Function
  returns : List Return
  isDefault : Bool

/-- The name of a component starts with an ASCII upper-case letter. -/
def isComponentName (name : String) : Bool :=
  match name.toList with
  | c :: _ => c.isUpper
  | [] => false

/-- The function as a component under this name, if it returns markup. -/
def candidate? (name : String) (isDefault : Bool) (f : Function) : Option Candidate :=
  (returned? f).map fun returns => ⟨name, f, returns, isDefault⟩

/-- The function as a component, if it also looks like one: by its name, and by taking the props
alone. -/
def component? (name : String) (isDefault : Bool) (f : Function) : Option Candidate :=
  if isComponentName name && f.params.length ≤ 1 then candidate? name isDefault f else none

/-- The name of a default export without a name, different in every file. -/
def anonymousName : Option Path → String
  | some file => "DefaultComponent:" ++ file.text
  | none => "DefaultComponent"

/-- The names of the props that a pattern takes apart. -/
def fieldNames (fields : List Field) : List String :=
  fields.filterMap fun
    | .mk key _ => key.spelled?

/-- The props that a function declares by taking its first parameter apart. -/
def props (f : Function) : List PropDef :=
  match f.params.head?.map Script.Param.pattern with
  -- The rest element takes whatever is not named, so it declares no prop.
  | some (.object fields _) => (fieldNames fields).map fun name => ⟨name, false⟩
  | _ => []

/-- The component of a candidate. It does not see the constants whose names it binds itself. -/
def Candidate.component (constants : Scope) (file : Option Path) (c : Candidate) : Component where
  signature := ⟨c.name, props c.function, constants.eraseAll c.function.bound⟩
  body := (nest c.returns).nodes
  isDefault := c.isDefault
  file := file

/-! ### The first pass -/

/-- What a module declares. -/
structure Harvest where
  dependencies : Dict Dependency := Dict.empty
  constants : Scope := Dict.empty
  candidates : List Candidate := []
  /-- The required props by the name of the component they are declared for. -/
  required : Dict (List String) := Dict.empty
  /-- The name that is exported as the default. -/
  defaultName : Option String := none

namespace Harvest

/-- Records the import of one name. What is imported as a whole is never a component. -/
def addImport (file : Option Path) (source : String) (h : Harvest) : ImportName → Harvest
  | .default name => record h name none
  | .named name imported => record h name (if imported = "default" then none else some imported)
  | .whole _ => h
where
  record (h : Harvest) (name : String) (imported : Option String) : Harvest :=
    let d : Dependency := { source := source, imported := imported, requiredFrom := file }
    { h with dependencies := h.dependencies.insert name d }

/-- Records a constant, if its value is known. -/
def addConstant (h : Harvest) (name code : String) : Harvest :=
  -- Known by the constants that were declared before it.
  if (evaluate? code h.constants).isSome then
    { h with constants := h.constants.insert name code }
  else h

/-- Records a candidate, if there is one. -/
def addCandidate (h : Harvest) (c : Option Candidate) : Harvest :=
  { h with candidates := h.candidates ++ c.toList }

/-- Records a variable: a function as a candidate, and what cannot change as a constant. -/
def addVariable (kind : DeclarationKind) (h : Harvest) : Declarator → Harvest
  | .mk (.name name) (some value) =>
    match value.bare.form with
    | .arrow f | .function f => h.addCandidate (component? name false f)
    -- What may be assigned again is not a constant, whatever it starts with.
    | _ => if kind = .const then h.addConstant name value.bare.text else h
  | _ => h

/-- Records a declaration. -/
def addDeclaration (h : Harvest) : Stmt → Harvest
  | .declaration kind declarators => declarators.foldl (addVariable kind) h
  | .function f => h.addCandidate (f.name.bind fun name => component? name false f)
  | _ => h

/-- The component whose prop types an assignment to this target sets. -/
def propTypesOf? (target : Expr) : Option String :=
  match target.bare.form with
  | .member object "propTypes" =>
    match object.form with
    | .identifier name => some name
    | _ => none
  | _ => none

/-- The prop that a property declares as required. -/
def requiredProp? : Property → Option String
  | .pair key value =>
    if Text.endsWith (Text.trimEnd value.text) ".isRequired" then key.spelled? else none
  | .spread _ => none

/-- Records prop types: an assignment of an object to the member `propTypes` of a name. -/
def addPropTypes (h : Harvest) (e : Expr) : Harvest :=
  match e.form with
  | .assignment target value =>
    match propTypesOf? target, value.form with
    | some name, .object properties =>
      -- Several assignments to one component add up.
      let names := (h.required.get? name).getD [] ++ properties.filterMap requiredProp?
      { h with required := h.required.insert name names }
    | _, _ => h
  | _ => h

/-- Records the value that is exported as the default: a function or a name. -/
def addDefault (file : Option Path) (h : Harvest) (e : Expr) : Harvest :=
  match e.form with
  | .arrow f => h.addCandidate (candidate? (anonymousName file) true f)
  | .identifier name => { h with defaultName := some name }
  | _ => h

/-- Records the function that is exported as the default. -/
def addDefaultFunction (file : Option Path) (h : Harvest) (f : Function) : Harvest :=
  -- A named function has to be named like a component, also as the default.
  h.addCandidate (component? (f.name.getD (anonymousName file)) true f)

/-- Records an item of a module. -/
def add (file : Option Path) (h : Harvest) : Item → Harvest
  | .imports source names => names.foldl (addImport file source) h
  -- Of expressions only an assignment of prop types counts.
  | .statement (.expression e) => h.addPropTypes e
  | .statement s | .exported s => h.addDeclaration s
  | .defaultFunction f => h.addDefaultFunction file f
  | .defaultValue e => h.addDefault file e
  | .otherExport _ => h

/-- The candidates, with the one that is exported by its name marked. -/
def marked (h : Harvest) : List Candidate :=
  h.candidates.map fun c => { c with isDefault := c.isDefault || h.defaultName == some c.name }

end Harvest

/-- What a module declares. -/
def harvest (file : Option Path) (m : Module) : Harvest :=
  m.foldl (Harvest.add file) {}

/-! ### The second pass -/

/-- The signature with exactly the props of these names required. -/
def requireProps (names : List String) (s : Signature) : Signature :=
  { s with props := s.props.map fun p => { p with required := names.contains p.name } }

/-- The component with the required props that are declared for its name. -/
def withRequired (required : Dict (List String)) (name : String) (c : Component) : Component :=
  match required.get? name with
  | some names => { c with signature := requireProps names c.signature }
  | none => c

namespace Harvest

/-- The components by name; of two with one name the later one counts. -/
def components (file : Option Path) (h : Harvest) : Dict Component :=
  -- The required props are those that the module declares anywhere, also below the component.
  (Dict.ofList (h.marked.map fun c => (c.name, c.component h.constants file))).mapValues
    (withRequired h.required)

/-- Marks the import that is bound to a name as one that makes elements, if there is one. -/
def mark (dependencies : Dict Dependency) (name : String) : Dict Dependency :=
  match dependencies.get? name with
  | some d => dependencies.insert name { d with instantiated := true }
  | none => dependencies

/-- The names that are marked when the candidates are lowered one after the other. -/
def marks (h : Harvest) : List String :=
  h.candidates.flatMap fun c => (nest c.returns).marks

/-- The symbol table. The imports are all known before the first candidate is lowered. -/
def table (file : Option Path) (h : Harvest) : Table where
  components := h.components file
  dependencies := h.marks.foldl mark h.dependencies

end Harvest

end Stencil.Lower

namespace Stencil

/-- A lowered module: a tree that holds the default component, and the symbol table. -/
structure Lowered where
  tree : Node
  table : Table

namespace Lowered

/-- The file in a message. -/
def fileText : Option Path → String
  | some file => file.text
  | none => "<input>"

/-- Lowers a table to the tree of its default component. -/
def ofTable (file : Option Path) (t : Table) : Except Failure Lowered :=
  match t.default? with
  | some c => .ok ⟨.root [c.node], t⟩
  | none => .error (.noDefault (fileText file))

/-- Lowers a module. -/
def ofModule (file : Option Path) (m : Script.Module) : Except Failure Lowered :=
  ofTable file ((Lower.harvest file m).table file)

/-- Lowers the source text of a module. -/
def ofSource (file : Option Path) (source : String) : Except Failure Lowered :=
  match Script.Module.parse? source with
  | some m => ofModule file m
  | none => .error (.malformedModule (fileText file))

end Lowered

end Stencil
