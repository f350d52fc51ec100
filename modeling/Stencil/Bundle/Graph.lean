import Stencil.Bundle.Resolve
import Stencil.Lower.Module
import Stencil.Optimize.Required
import Stencil.Outcome

/-!
# Bundles

The modules that a module needs for its components, directly or through others, and who imports
whom. Only imports that make elements are followed.

`Graph.grow` loads one round of modules after the other: the imports of the last round are
resolved, the modules they lead to are loaded if they are new, and these form the next round. Every
round but the last adds a file, so the number of files bounds the number of rounds.
-/

namespace Stencil.Bundle

/-- A module of a bundle. -/
structure Member where
  path : Path
  tree : Node
  table : Table

/-- The paths of modules stay when one of the modules gets another table. -/
theorem paths_modify (ms : List Member) (i : Nat) (t : Table) :
    (ms.modify i fun m => { m with table := t }).map Member.path = ms.map Member.path := by
  refine List.ext_getElem? fun j => ?_
  rw [List.getElem?_map, List.getElem?_modify, List.getElem?_map, Option.map_eq_map, Option.map_map]
  -- The change, if there is one, is not to the path.
  refine congrArg (Option.map · _) (funext fun m => ?_)
  rw [Function.comp_apply]
  split <;> rfl

/-- The positions of paths when a path is added at the end. -/
theorem zipIdx_paths_append (ms : List Member) (m : Member) :
    ((ms ++ [m]).map Member.path).zipIdx
      = (ms.map Member.path).zipIdx ++ [(m.path, ms.length)] := by
  rw [List.map_append, List.zipIdx_append, List.length_map, Nat.zero_add]
  rfl

/-- The modules of a bundle in the order in which they were added, and the imports between them in
the order of their paths. No module is looked for in the list: the index has the position of each
path. -/
structure Graph where
  members : List Member := []
  index : List (Path × Nat) := []
  edges : List (Path × Path) := []
  /-- The index has the path of each module with the position of the module, and nothing else. -/
  indexed : index = (members.map Member.path).zipIdx := by rfl

namespace Graph

/-- The position of the module of a path. -/
def position? (g : Graph) (p : Path) : Option Nat :=
  (g.index.find? (·.1.same p)).map Prod.snd

/-- The module of a path. -/
def member? (g : Graph) (p : Path) : Option Member :=
  (g.position? p).bind fun i => g.members[i]?

/-- The path has a module. -/
def contains (g : Graph) (p : Path) : Bool :=
  (g.position? p).isSome

/-- Adds a module, unless its path has one. -/
def add (g : Graph) (m : Member) : Graph :=
  if g.contains m.path then g
  else
    { members := g.members ++ [m]
      index := g.index ++ [(m.path, g.members.length)]
      edges := g.edges
      indexed := by rw [g.indexed, zipIdx_paths_append] }

/-- The graph of one module. -/
def single (m : Member) : Graph :=
  ({} : Graph).add m

/-! ### Edges -/

/-- Two spellings of one edge. -/
def sameEdge (e f : Path × Path) : Bool :=
  e.1.same f.1 && e.2.same f.2

/-- The edge comes strictly before the other one: by its start, then by its end. -/
def edgeLess (e f : Path × Path) : Bool :=
  e.1.less f.1 || (e.1.same f.1 && e.2.less f.2)

/-- Puts an edge in its place, unless it is there. -/
def insertEdge (e : Path × Path) : List (Path × Path) → List (Path × Path)
  | [] => [e]
  | f :: rest =>
    if edgeLess e f then e :: f :: rest
    else if sameEdge e f then f :: rest
    else f :: insertEdge e rest

/-- Adds an import. -/
def addEdge (g : Graph) (source target : Path) : Graph :=
  { g with edges := insertEdge (source, target) g.edges }

/-! ### Merging -/

/-- The tables of all the modules in one, in the order in which they were added. -/
def merged (g : Graph) : Table × List Warning :=
  Table.mergeAll (g.members.map Member.table) Table.empty

/-! ### Growing -/

/-- Resolves the dependencies in a list that make elements. -/
def resolveEntries (resolve : String → Except Failure Path) :
    List (String × Dependency) → Except Failure (List (String × Dependency))
  | [] => .ok []
  | (name, d) :: rest => do
    let d ← if d.instantiated then (resolve d.source).map fun path => { d with path := some path }
      else .ok d
    let rest ← resolveEntries resolve rest
    .ok ((name, d) :: rest)

/-- Resolves the dependencies of a table that make elements. -/
def resolveTable (resolve : String → Except Failure Path) (t : Table) : Except Failure Table := do
  let entries ← resolveEntries resolve t.dependencies.entries
  .ok { t with dependencies := Dict.ofList entries }

/-- Where the dependencies of a table that make elements lead. -/
def targets (t : Table) : List Path :=
  t.dependencies.values.filterMap fun d => if d.instantiated then d.path else none

/-- Replaces the table of the module of a path. -/
def setTable (g : Graph) (p : Path) (t : Table) : Graph :=
  match g.position? p with
  | none => g
  | some i =>
    { g with
      members := g.members.modify i fun m => { m with table := t }
      indexed := by rw [paths_modify, g.indexed] }

/-- Resolves the imports of the modules of the given paths, and lists them. -/
def resolveRound (resolve : Path → String → Except Failure Path) :
    Graph → List Path → Except Failure (Graph × List (Path × Path))
  | g, [] => .ok (g, [])
  | g, p :: rest =>
    match g.member? p with
    -- Every path of a round has been added before, so this does not happen.
    | none => resolveRound resolve g rest
    | some m => do
      -- What the first member asks for comes first; the new table is in place before the others are
      -- looked at.
      let table ← resolveTable (resolve p) m.table
      let (g, requests) ← resolveRound resolve (g.setTable p table) rest
      .ok (g, (targets table).map (fun target => (p, target)) ++ requests)

/-- The paths without repetitions and without those that the graph has. -/
def newPaths (g : Graph) (paths : List Path) : List Path :=
  paths.foldl (fun seen p => if g.contains p || seen.any (·.same p) then seen else seen ++ [p]) []

/-- Loads one round of modules after the other, `rounds` at most, starting with the imports of the
modules of the given paths. -/
def grow (resolve : Path → String → Except Failure Path) (load : Path → Except Failure Member) :
    Nat → Graph → List Path → Except Failure Graph
  | _, g, [] => .ok g
  | 0, g, _ => .ok g
  | rounds + 1, g, round => do
    let (g, requests) ← resolveRound resolve g round
    -- Files that are there already are only linked to.
    let next := g.newPaths (requests.map Prod.snd)
    let loaded ← next.mapM load
    -- The files come in before the edges that lead to them.
    let g := loaded.foldl add g
    let g := requests.foldl (fun g edge => g.addEdge edge.1 edge.2) g
    grow resolve load rounds g next

end Graph

end Stencil.Bundle

namespace Stencil

/-- Lowers and optimizes the source of a module. -/
def Lowered.optimized (file : Option Path) (source : String) : Except Failure Lowered :=
  (Lowered.ofSource file source).map fun l => ⟨l.tree.optimize, l.table.optimize⟩

/-! ### Bundles of files -/

namespace Bundle

/-- Loads a module from its file. -/
def load (fs : Files) (path : Path) : Except Failure Member :=
  match fs.read path with
  | .error cause => .error (.inaccessible path cause)
  | .ok source => (Lowered.optimized (some path) source).map fun l => ⟨path, l.tree, l.table⟩

/-- The bundle of a module that is lowered already. A file that does not exist keeps its path. -/
def build (fs : Files) (file : Path) (l : Lowered) : Except Failure Graph :=
  let root := (fs.canonical file).toOption.getD file
  Graph.grow (resolve fs) (load fs) (fs.entries.length + 2) (.single ⟨root, l.tree, l.table⟩) [root]

/-- The table of the bundle of a module. -/
def link (fs : Files) (file : Path) (l : Lowered) : Outcome Table := do
  let g ← Outcome.ofExcept (build fs file l)
  Outcome.noted g.merged

end Bundle

end Stencil
