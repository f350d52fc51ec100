import Stencil.Path
import Stencil.Template.Node

/-!
# Symbol tables

What a module declares and imports. A tag names a component either through an import of the module,
which is followed into the file it resolves to, or directly. Merging two tables lets the second one
win and warns where records of different origin meet.
-/

namespace Stencil

/-- A component of a module. -/
structure Component where
  signature : Signature
  body : List Node
  isDefault : Bool
  /-- The file that declares it. -/
  file : Option Path

/-- A name that a module imports. -/
structure Dependency where
  /-- The specifier as written. -/
  source : String
  /-- The name it is exported under; nothing for the default export. -/
  imported : Option String := none
  /-- The file that imports it. -/
  requiredFrom : Option Path := none
  /-- The file that the specifier stands for, once it is resolved. -/
  path : Option Path := none
  /-- Some element is made with it. -/
  instantiated : Bool := false
deriving DecidableEq

/-- The dependency asks its file for this component: for the one of the name, or for the default
one. -/
def Dependency.asksFor (d : Dependency) (c : Component) : Bool :=
  match d.imported with
  | some name => c.signature.name == name
  | none => c.isDefault

/-- The components of a module by name, and its imports by the name they are bound to. -/
structure Table where
  components : Dict Component := Dict.empty
  dependencies : Dict Dependency := Dict.empty

/-- The node of a component. -/
def Component.node (c : Component) : Node :=
  .mixin c.signature c.body

/-- Something worth a remark that does not stop the compilation. -/
inductive Warning where
  /-- A component takes the place of one from another file. -/
  | componentReplaced (name : String) (newer older : Option Path)
  /-- A name stands for imports from two files. -/
  | importDiffers (name : String) (older newer : Option Path)
  /-- An element stands inside the component it names. -/
  | recursiveUse (tag : String)
deriving DecidableEq

/-- The text of a warning. -/
def Warning.message : Warning → String
  | .componentReplaced name newer older =>
    "component \"" ++ name ++ "\" from " ++ Path.quotedOption newer ++ " replaces the one from "
      ++ Path.quotedOption older
  | .importDiffers name older newer =>
    "import alias \"" ++ name ++ "\" resolves to both " ++ Path.quotedOption older ++ " and "
      ++ Path.quotedOption newer
  | .recursiveUse tag => "recursive use of component " ++ tag ++ " is rendered as a plain tag"

namespace Table

/-- The table without entries. -/
def empty : Table := {}

/-- The default exported component; of several, the first by name. -/
def default? (t : Table) : Option Component :=
  -- Values come in the order of their names.
  t.components.values.find? (·.isDefault)

/-- The component of that name. -/
def component? (t : Table) (name : String) : Option Component :=
  t.components.get? name

/-- The component is what the dependency imports from the file `path`. -/
def isImported (d : Dependency) (path : Path) (c : Component) : Bool :=
  samePath c.file (some path) && d.asksFor c

/-- The component that the import under `tag` stands for, if that import is resolved. -/
def imported? (t : Table) (tag : String) : Option Component :=
  (t.dependencies.get? tag).bind fun d =>
    d.path.bind fun path => t.components.values.find? (isImported d path)

/-- The component that an element with this tag makes: an import comes first. -/
def resolve? (t : Table) (tag : String) : Option Component :=
  (t.imported? tag).or (t.component? tag)

/-! ### Merging -/

/-- Adds a component over one of the same name. -/
def addComponent (t : Table) (name : String) (c : Component) : Table × List Warning :=
  let warnings := match t.components.get? name with
    | some previous =>
      if samePath previous.file c.file then []
      else [.componentReplaced name c.file previous.file]
    | none => []
  ({ t with components := t.components.insert name c }, warnings)

/-- Adds an import over one under the same name. -/
def addDependency (t : Table) (name : String) (d : Dependency) : Table × List Warning :=
  let warnings := match t.dependencies.get? name with
    | some previous =>
      -- An import that was never resolved is replaced without a warning.
      if previous.path.isSome && !samePath previous.path d.path then
        [.importDiffers name previous.path d.path]
      else []
    | none => []
  ({ t with dependencies := t.dependencies.insert name d }, warnings)

/-- Adds entries one by one with `add`, collecting the warnings. -/
def addAll {α : Type} (add : Table → String → α → Table × List Warning) :
    List (String × α) → Table → Table × List Warning
  | [], t => (t, [])
  | (name, a) :: rest, t =>
    let (t, warnings) := add t name a
    let (t, more) := addAll add rest t
    (t, warnings ++ more)

/-- Adds everything of `other`; where both have an entry, that of `other` counts. -/
def merge (t other : Table) : Table × List Warning :=
  -- Components first, so their warnings come first.
  let (t, warnings) := addAll addComponent other.components.entries t
  let (t, more) := addAll addDependency other.dependencies.entries t
  (t, warnings ++ more)

/-- Merges tables in their order. -/
def mergeAll : List Table → Table → Table × List Warning
  | [], t => (t, [])
  | other :: rest, t =>
    let (t, warnings) := t.merge other
    let (t, more) := mergeAll rest t
    (t, warnings ++ more)

end Table

/-! ### Equality -/

/-- Two component records are equal. -/
def Component.beq (a b : Component) : Bool :=
  a.signature == b.signature && Node.beqList a.body b.body && a.isDefault == b.isDefault
    && a.file == b.file

instance : BEq Component := ⟨Component.beq⟩

/-- Two tables are equal. -/
def Table.beq (a b : Table) : Bool :=
  a.components.entries == b.components.entries && a.dependencies == b.dependencies

instance : BEq Table := ⟨Table.beq⟩

end Stencil
