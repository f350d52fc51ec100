import Stencil.Bundle.Graph
import Stencil.Compile.Options

/-!
# Compiling

A source becomes a template by lowering it, optimizing the result, bundling its imports if its file
is known, and generating. `compileFile` and `compileTree` do this for a file and for all the modules
below a directory, and give the file system with the templates written.
-/

namespace Stencil

/-- The template between the texts that go before and after it. -/
def Options.wrap (o : Options) (body : String) : String :=
  let line := fun (s : String) => if s.isEmpty then "" else s ++ "\n"
  line o.beginning ++ body ++ line o.ending

/-- Bundles a lowered module with its imports, and optimizes it again over the joint table. -/
def Lowered.bundled (fs : Files) (file : Option Path) (l : Lowered) : Outcome Lowered :=
  match file with
  | none => pure l
  | some file => do
    let table ← Bundle.link fs file l
    -- For the second time: every module of the bundle was optimized on its own before.
    pure ⟨l.tree.optimize, table.optimize⟩

/-- Compiles the source of a module. -/
def compile (fs : Files) (o : Options) (source : String) : Outcome String := do
  let l ← Outcome.ofExcept (Lowered.optimized o.file source)
  let l ← l.bundled fs o.file
  let body ← o.engine.generate o.level l.tree l.table
  pure (o.wrap body)

/-! ### Files -/

/-- Compiles a file to the text of a template. -/
def compileRead (fs : Files) (o : Options) (input : Path) : Outcome String := do
  let source ← Outcome.ofExcept ((fs.read input).mapError (.inaccessible input))
  compile fs { o with file := some input } source

/-- Makes the directories that a file goes into. -/
def prepare (fs : Files) (output : Path) : Except Failure Files :=
  -- A name without a directory goes where the compiler runs.
  match output.parent? with
  | none => .ok fs
  | some parent => (fs.makeDirectories parent.ancestors).mapError (.inaccessible parent)

/-- Writes a file, in directories made for it. The directories stay if the file cannot be
written. -/
def deliver (fs : Files) (output : Path) (text : String) : Except Failure Unit × Files :=
  match prepare fs output with
  | .error f => (.error f, fs)
  | .ok fs =>
    match fs.write output text with
    | .error cause => (.error (.inaccessible output cause), fs)
    | .ok fs => (.ok (), fs)

/-- Compiles a file and writes the template. Gives the file system after that. -/
def compileFile (fs : Files) (o : Options) (input output : Path) : Outcome Unit × Files :=
  let code := compileRead fs o input
  -- Nothing is written where compiling fails.
  match code.result with
  | .error f => (⟨code.warnings, .error f⟩, fs)
  | .ok text =>
    let (result, fs) := deliver fs output text
    (⟨code.warnings, result⟩, fs)

/-! ### Trees -/

/-- The path of what stands below a path. -/
def Path.below (p : Path) (l : Location) : Path :=
  l.foldl Path.join p

/-- A file to be compiled, and where the template goes. -/
structure Job where
  input : Path
  output : Path

/-- The job for a file below a directory, if it is a module. -/
def job? (o : Options) (input output : Path) (l : Location) : Option Job :=
  let file := input.below l
  match file.extension? with
  | some extension =>
    if Bundle.moduleExtensions.contains extension then
      some ⟨file, (output.join ("/".intercalate l)).withExtension o.engine.extension⟩
    else none
  | none => none

/-- The jobs for all the modules at and below a path. A link to a directory is walked, and a link to
a file is passed over like those below. -/
def jobs (fs : Files) (o : Options) (input output : Path) : Except Failure (List Job) :=
  match fs.find input with
  | .error cause => .error (.unwalkable input cause)
  | .ok (l, e) =>
    -- What a link leads to was found; that it is a link shows in the path alone.
    if e != .directory && fs.isLink input then .ok []
    else .ok ((fs.filesBelow l).filterMap (job? o input output))

/-- Runs jobs in their order, up to the first that fails. -/
def runJobs (fs : Files) (o : Options) : List Job → Outcome Unit × Files
  | [] => (pure (), fs)
  | j :: rest =>
    let (first, fs) := compileFile fs o j.input j.output
    match first.result with
    -- The templates that were written before stay.
    | .error f => (⟨first.warnings, .error f⟩, fs)
    | .ok () =>
      let (others, fs) := runJobs fs o rest
      (⟨first.warnings ++ others.warnings, others.result⟩, fs)

/-- Compiles all the modules at and below a path to the same places below another path. Gives the
written paths in their order, and the file system after that. -/
def compileTree (fs : Files) (o : Options) (input output : Path) : Outcome (List Path) × Files :=
  match jobs fs o input output with
  | .error f => (⟨[], .error f⟩, fs)
  | .ok todo =>
    let (done, fs) := runJobs fs o todo
    let written := (todo.map Job.output).mergeSort fun p q => !q.less p
    (⟨done.warnings, done.result.map fun _ => written⟩, fs)

end Stencil
