import Stencil.Files
import Stencil.Json.Read

/-!
# Import specifiers

The file that an import specifier stands for. A specifier that starts with `./`, `../` or `/` is a
path from the directory of the importing file; any other names a package, which is looked for in the
`node_modules` of that directory and of each directory above it.

A candidate is tried as a file, then with each of the extensions of modules, and then as a directory
with a main file.
-/

namespace Stencil.Bundle

/-- The extensions of modules, in the order in which they are tried. -/
def moduleExtensions : List String :=
  ["js", "jsx", "mjs"]

/-- The specifier is a path. -/
def isPathSpecifier (specifier : String) : Bool :=
  Text.startsWith specifier "./" || Text.startsWith specifier "../" || Text.startsWith specifier "/"

/-- The spellings of a file that a candidate can stand for. -/
def spellings (candidate : Path) : List Path :=
  -- An extension is added to the one that is there, never put in its place.
  candidate :: moduleExtensions.map fun extension => ⟨candidate.text ++ "." ++ extension⟩

/-- The file that a candidate stands for. -/
def fileAt? (fs : Files) (candidate : Path) : Option Path :=
  (spellings candidate).find? fs.isFile

/-- The main file that the manifest of a package names. -/
def mainOf? (fs : Files) (directory : Path) : Option String := do
  let text ← (fs.read (directory.join "package.json")).toOption
  let manifest ← Json.Value.parse? text
  -- A manifest that does not read as data has no main file, as if it were missing.
  if manifest.isReadable then
    let main ← manifest.member? "main"
    main.text?
  else none

/-- The main file of a candidate that is a directory: the one its manifest names, or its index. -/
def directoryAt? (fs : Files) (candidate : Path) : Option Path :=
  if fs.isDirectory candidate then
    ((mainOf? fs candidate).bind fun main => fileAt? fs (candidate.join main)).or
      (fileAt? fs (candidate.join "index"))
  else none

/-- The module that a candidate stands for. -/
def moduleAt? (fs : Files) (candidate : Path) : Option Path :=
  (fileAt? fs candidate).or (directoryAt? fs candidate)

/-- The directory that a file imports from. -/
def importDirectory (importer : Path) : Path :=
  -- The empty path and the root directory have no parent.
  importer.parent?.getD ⟨"."⟩

/-- The candidates for a specifier, in the order in which they are tried. -/
def candidates (importer : Path) (specifier : String) : List Path :=
  let directory := importDirectory importer
  -- What starts with a separator replaces the directory when it is joined.
  if isPathSpecifier specifier then [directory.join specifier]
  else directory.ancestors.map fun up => (up.join "node_modules").join specifier

/-- The file that a specifier stands for when `importer` imports it. -/
def resolve (fs : Files) (importer : Path) (specifier : String) : Except Failure Path :=
  match (candidates importer specifier).findSome? (moduleAt? fs) with
  | none => .error (.unresolved specifier importer)
  | some found =>
    -- One file has many spellings; what is loaded goes by the canonical one.
    match fs.canonical found with
    | .ok path => .ok path
    | .error cause => .error (.inaccessible found cause)

end Stencil.Bundle
