import Stencil.Failure

/-!
# File systems

A snapshot of a file system: what stands at each location. A location is the list of names from the
root directory down, and a path leads to a location by a walk along its pieces, in which every piece
needs a directory to start from. A relative path is walked from the current directory. A symbolic
link on the way is followed, so that one file can have many paths that are not spelled alike.
-/

namespace Stencil

/-- The names from the root directory down. -/
abbrev Location := List String

/-- What stands at a location. -/
inductive Entry where
  /-- A file with its text, if it holds a text. -/
  | file (text : Option String)
  | directory
deriving DecidableEq, Repr

/-- A snapshot of a file system, and where in it the compiler runs. The root directory is always
there. -/
structure Files where
  entries : List (Location × Entry) := []
  /-- The symbolic links, with the paths that they stand for. -/
  links : List (Location × Path) := []
  /-- The current directory. -/
  current : Path := ⟨"/"⟩

namespace Files

/-- What stands at a location. -/
def get? (fs : Files) (l : Location) : Option Entry :=
  -- The root directory needs no entry.
  if l.isEmpty then some .directory else fs.entries.lookup l

/-- The path that the link at a location stands for. -/
def link? (fs : Files) (l : Location) : Option Path :=
  if l.isEmpty then none else fs.links.lookup l

/-- The snapshot with an entry at a location, over what stood there. -/
def insert (fs : Files) (l : Location) (e : Entry) : Files :=
  { fs with
    entries :=
      if fs.entries.any (·.1 == l) then fs.entries.map fun p => if p.1 == l then (l, e) else p
      else fs.entries ++ [(l, e)] }

/-- The snapshot without an entry or a link at a location. -/
def erase (fs : Files) (l : Location) : Files :=
  { fs with
    entries := fs.entries.filter (·.1 != l)
    links := fs.links.filter (·.1 != l) }

/-! ### Walks -/

/-- One step of a walk: from a directory along a piece of a path. -/
def step (fs : Files) (here : Location) (piece : String) : Except Access Location :=
  match fs.get? here with
  | none => .error .missing
  | some (.file _) => .error .notDirectory
  | some .directory =>
    if piece = "" || piece = "." then .ok here
    -- Links are followed before, so the directory above is that of the location.
    else if piece = ".." then .ok here.dropLast
    else .ok (here ++ [piece])

/-- The location that a walk along pieces leads to, whether something stands there or not. Where it
meets a link, `follow` walks on along the path of the link and then along the rest. -/
def steps (fs : Files) (follow : Location → List String → Except Access Location) :
    Location → List String → Except Access Location
  | here, [] => .ok here
  | here, piece :: rest => do
    let next ← fs.step here piece
    match fs.link? next with
    | none => fs.steps follow next rest
    | some target =>
      -- A relative link is seen from the directory that it stands in.
      follow (if target.isAbsolute then [] else next.dropLast) (target.pieces ++ rest)

/-- A walk that follows a number of links at most. -/
def walk (fs : Files) : Nat → Location → List String → Except Access Location
  | 0 => fs.steps fun _ _ => .error .tooManyLinks
  | links + 1 => fs.steps (fs.walk links)

/-- The number of links that a walk follows at most. -/
def maxLinks : Nat := 40

/-- The path as seen from the root directory. The empty path names nothing, and a relative one
nothing if the current directory is not known from the root directory on. -/
def absolute? (fs : Files) (p : Path) : Option Path :=
  let q := fs.current.join p.text
  if p.text = "" || !q.isAbsolute then none else some q

/-- The location that a path leads to, whether something stands there or not. -/
def locate (fs : Files) (p : Path) : Except Access Location :=
  match fs.absolute? p with
  | none => .error .missing
  | some q => fs.walk maxLinks [] q.pieces

/-- The location that a path names, where a link at the end of the path is not followed. -/
def site (fs : Files) (p : Path) : Except Access Location :=
  match fs.absolute? p with
  | none => .error .missing
  | some q => do
    let here ← fs.walk maxLinks [] q.pieces.dropLast
    fs.step here (q.pieces.getLastD "")

/-- The location that a path leads to, and what stands there. -/
def find (fs : Files) (p : Path) : Except Access (Location × Entry) := do
  let l ← fs.locate p
  match fs.get? l with
  | some e => .ok (l, e)
  | none => .error .missing

/-- The path leads to a file. -/
def isFile (fs : Files) (p : Path) : Bool :=
  match fs.find p with
  | .ok (_, .file _) => true
  | _ => false

/-- The path leads to a directory. -/
def isDirectory (fs : Files) (p : Path) : Bool :=
  match fs.find p with
  | .ok (_, .directory) => true
  | _ => false

/-- The path names a link. -/
def isLink (fs : Files) (p : Path) : Bool :=
  match fs.site p with
  | .ok l => (fs.link? l).isSome
  | .error _ => false

/-- The path of a location. -/
def pathOf (l : Location) : Path :=
  ⟨"/" ++ "/".intercalate l⟩

/-- The one path without detours to where a path leads. -/
def canonical (fs : Files) (p : Path) : Except Access Path :=
  (fs.find p).map fun found => pathOf found.1

/-- The text of a file. -/
def read (fs : Files) (p : Path) : Except Access String := do
  match ← fs.find p with
  | (_, .file (some s)) => .ok s
  | (_, .file none) => .error .notText
  | (_, .directory) => .error .isDirectory

/-! ### Changes -/

/-- Makes a directory where nothing stands, not even a link that leads nowhere. -/
def makeDirectory (fs : Files) (p : Path) : Except Access Files := do
  let l ← fs.site p
  if (fs.get? l).isSome || (fs.link? l).isSome then .error .exists
  else .ok (fs.insert l .directory)

/-- Accepts a failure to make a directory where there is one. -/
def orDirectory (fs : Files) (p : Path) : Except Access Files → Except Access Files
  | .ok made => .ok made
  -- Also for another cause than that something stands there.
  | .error cause => if fs.isDirectory p then .ok fs else .error cause

/-- Makes the first of the paths a directory, where each path is the parent of the one before it,
and the parents first where they are missing. -/
def makeDirectories (fs : Files) : List Path → Except Access Files
  | [] => .ok fs
  | p :: parents =>
    if p.text = "" then .ok fs
    else
      -- The parents are made only where the directory cannot be made without them.
      match fs.makeDirectory p with
      | .error .missing => do
        let fs ← fs.makeDirectories parents
        fs.orDirectory p (fs.makeDirectory p)
      | made => fs.orDirectory p made

/-- Writes a file, over a file that stood there. A path that ends in a separator names a
directory. -/
def write (fs : Files) (p : Path) (text : String) : Except Access Files := do
  let l ← fs.locate (p.dropTrailing)
  -- The walk comes first: what is missing on the way is the failure then.
  if Text.endsWith p.text "/" then .error .isDirectory
  else
    match fs.get? l with
    | some .directory => .error .isDirectory
    | _ => .ok (fs.insert l (.file (some text)))

/-- Removes a file or a link; nothing if the path names neither. -/
def remove? (fs : Files) (p : Path) : Option Files :=
  match fs.site p with
  | .error _ => none
  | .ok l =>
    match fs.link? l, fs.get? l with
    | some _, _ | none, some (.file _) => some (fs.erase l)
    | none, _ => none

/-! ### Building a snapshot -/

/-- Puts a directory at a location, unless something stands there. -/
def ensureDirectory (fs : Files) (l : Location) : Files :=
  if (fs.get? l).isSome then fs else fs.insert l .directory

/-- Puts an entry at a location, in directories made for it. -/
def add (fs : Files) (l : Location) (e : Entry) : Files :=
  let parents := (List.range l.length).map l.take
  let fs := parents.foldl ensureDirectory fs
  match e with
  | .directory => fs.ensureDirectory l
  | file => fs.insert l file

/-- The names in a path. -/
def namesIn (p : Path) : Location :=
  p.components.filterMap fun
    | .name n => some n
    | _ => none

/-! ### Trees -/

/-- The order of locations: a directory comes before what is in it, and names go by code point. -/
def locationLess : Location → Location → Bool
  | _, [] => false
  | [], _ :: _ => true
  | a :: as, b :: bs => a < b || (a == b && locationLess as bs)

/-- The locations of the files at and below a location, with their names from there on, each
directory in the order of its names. Links are passed over. -/
def filesBelow (fs : Files) (l : Location) : List Location :=
  let below := fs.entries.filterMap fun
    | (m, .file _) => if l.isPrefixOf m then some (m.drop l.length) else none
    | (_, .directory) => none
  below.mergeSort fun a b => !locationLess b a

end Files

end Stencil
