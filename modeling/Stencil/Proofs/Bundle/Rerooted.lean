import Stencil.Proofs.Bundle.Closure
import Stencil.Proofs.Lower.Respelled

/-!
# A bundle with another root

The rounds of a bundle read the imports of a module, their specifiers and whether they make
elements. They do not read its tree, its components, or the file that an import is required from. So
if two modules at one path differ in nothing else, their bundles are the same but for the root:
there the one has what the other has not (`build_rerooted`).

`Graph.reroot` puts the second root into a graph. Every step of a round commutes with it, up to
`Origin.round_reroot`, and so do all the rounds (`Origin.grow_reroot`). The invariant `Origin.Grown`
is needed at one point only: the root is in the graph from the start, so it is never loaded, and a
module that is loaded stays as it is.
-/

namespace Stencil

/-- Mapping the values of entries maps the dictionary that they make. -/
theorem Dict.ofList_mapValues {α β : Type} (f : α → β) (es : List (String × α)) :
    Dict.ofList (es.map fun e => (e.1, f e.2)) = (Dict.ofList es).mapValues fun _ => f := by
  -- For entries that are inserted into any dictionary, by induction on them.
  have hfold (d : Dict α) :
      (es.map fun e => (e.1, f e.2)).foldl (fun d e => d.insert e.1 e.2) (d.mapValues fun _ => f)
        = (es.foldl (fun d e => d.insert e.1 e.2) d).mapValues fun _ => f := by
    induction es generalizing d with
    | nil => rfl
    | cons e rest ih =>
      rw [List.map_cons, List.foldl_cons, List.foldl_cons, ← ih, mapValues_insert]
  exact hfold empty

namespace Bundle.Graph

section Tables

variable {resolve : String → Except Failure Path}

/-- Who requires an import does not matter to where its source leads. -/
theorem resolveEntries_requiredBy (file : Path) (es : List (String × Dependency)) :
    resolveEntries resolve (es.map fun e => (e.1, e.2.requiredBy file))
      = (resolveEntries resolve es).map fun es => es.map fun e => (e.1, e.2.requiredBy file) := by
  induction es with
  | nil => rfl
  | cons e rest ih =>
    obtain ⟨name, d⟩ := e
    -- The rounds read these two fields of an import, and neither names the file it is required
    -- from.
    have hd : (d.requiredBy file).instantiated = d.instantiated ∧
      (d.requiredBy file).source = d.source := ⟨rfl, rfl⟩
    rw [List.map_cons, resolveEntries_cons, resolveEntries_cons, ih, hd.1, hd.2]
    cases d.instantiated with
    | false => cases resolveEntries resolve rest <;> rfl
    | true =>
      cases resolve d.source with
      | error e => rfl
      | ok path => cases resolveEntries resolve rest <;> rfl

end Tables

/-! ### Another root -/

section Reroot

variable (root file : Path) (l : Lowered)

/-- The table at a path: at that of the root with the components of `l`, and with its imports
required from the file. -/
def tableAt (p : Path) (t : Table) : Table :=
  if p.same root then
    { components := l.table.components
      dependencies := t.dependencies.mapValues fun _ d => d.requiredBy file }
  else t

/-- The module, with the tree and the table of `l` if it is the root. -/
def rerootMember (m : Member) : Member where
  path := m.path
  tree := if m.path.same root then l.tree else m.tree
  table := tableAt root file l m.path m.table

/-- The graph with the tree and the table of `l` at its root. -/
def reroot (g : Graph) : Graph :=
  { g with
    members := g.members.map (rerootMember root file l)
    indexed := by
      rw [List.map_map, g.indexed]
      rfl }

variable {root file l}

/-- A graph is its modules and its edges: the index is that of the modules. -/
theorem ext_of_members {g g' : Graph} (hmembers : g.members = g'.members)
    (hedges : g.edges = g'.edges) : g = g' := by
  have hindex : g.index = g'.index := by rw [g.indexed, g'.indexed, hmembers]
  cases g
  cases g'
  cases hmembers
  cases hedges
  cases hindex
  rfl

/-- Another root replaces the member at the root. -/
theorem members_reroot (g : Graph) :
    (g.reroot root file l).members = g.members.map (rerootMember root file l) :=
  rfl

/-- The table at a path does not depend on how the path is spelled. -/
theorem tableAt_congr {p q : Path} (h : p.same q = true) :
    tableAt root file l p = tableAt root file l q := by
  have hroot : p.same root = q.same root := by
    rw [Bool.eq_iff_iff, Path.same_iff, Path.same_iff, Path.same_iff.1 h]
  funext t
  unfold tableAt
  rw [hroot]

/-- All other members stay as they are. -/
theorem rerootMember_of_not_root {m : Member} (h : m.path.same root = false) :
    rerootMember root file l m = m := by
  have hnot : ¬m.path.same root = true := Bool.eq_false_iff.1 h
  unfold rerootMember tableAt
  rw [if_neg hnot, if_neg hnot]

/-- Resolving a table and replacing its root commute. -/
theorem resolveTable_tableAt (resolve : String → Except Failure Path) (p : Path) (t : Table) :
    resolveTable resolve (tableAt root file l p t)
      = (resolveTable resolve t).map (tableAt root file l p) := by
  unfold tableAt
  by_cases hroot : p.same root = true
  · simp only [if_pos hroot]
    -- Resolving reads the imports of a table only, so it goes on under the components of the other
    -- root.
    unfold resolveTable
    rw [Dict.entries_mapValues, resolveEntries_requiredBy]
    cases resolveEntries resolve t.dependencies.entries with
    | error e => rfl
    | ok es =>
      have hdict := Dict.ofList_mapValues (Dependency.requiredBy file) es
      exact congrArg (fun d => Except.ok ({ components := _, dependencies := d } : Table)) hdict
  · simp only [if_neg hroot]
    cases resolveTable resolve t <;> rfl

/-- The files that a table uses stay the same. -/
theorem targets_tableAt (p : Path) (t : Table) :
    targets (tableAt root file l p t) = targets t := by
  unfold tableAt
  by_cases hroot : p.same root = true
  · rw [if_pos hroot]
    unfold targets Dict.values
    rw [Dict.entries_mapValues, List.map_map, List.filterMap_map, List.filterMap_map]
    rfl
  · rw [if_neg hroot]

/-- Another root leaves the paths of the graph. -/
theorem paths_reroot (g : Graph) : (g.reroot root file l).paths = g.paths := by
  unfold paths reroot
  rw [List.map_map]
  rfl

/-- It leaves the positions in the index. -/
theorem position?_reroot (g : Graph) (p : Path) :
    (g.reroot root file l).position? p = g.position? p :=
  rfl

/-- It leaves the files that the graph contains. -/
theorem contains_reroot (g : Graph) (p : Path) :
    (g.reroot root file l).contains p = g.contains p :=
  contains_congr (paths_reroot g) p

/-- The member at a path is replaced where it stands. -/
theorem member?_reroot (g : Graph) (p : Path) :
    (g.reroot root file l).member? p = (g.member? p).map (rerootMember root file l) := by
  rw [member?_eq_find?, member?_eq_find?, members_reroot, List.find?_map]
  rfl

/-- The new paths of a round are the same. -/
theorem newPaths_reroot (g : Graph) (asked : List Path) :
    (g.reroot root file l).newPaths asked = g.newPaths asked := by
  unfold newPaths
  simp only [contains_reroot]

/-- Giving a member another table commutes with the new root. -/
theorem setTable_reroot (g : Graph) (p : Path) (t : Table) :
    (g.reroot root file l).setTable p (tableAt root file l p t)
      = (g.setTable p t).reroot root file l := by
  refine ext_of_members ?_ ?_
  · unfold setTable
    rw [position?_reroot]
    cases hi : g.position? p with
    | none => rfl
    | some i =>
      -- The one module that is changed has this path, and its table goes in at the path.
      obtain ⟨m, hm, hsame⟩ := exists_of_position? hi
      refine List.ext_getElem? fun j => ?_
      simp only [members_reroot, List.getElem?_modify, List.getElem?_map]
      by_cases hij : i = j
      · subst hij
        simp only [hm, Option.map_eq_map, Option.map_some, if_true]
        unfold rerootMember
        rw [tableAt_congr hsame]
      · simp only [if_neg hij, Option.map_eq_map, Option.map_id']
  · rw [edges_setTable]
    exact (edges_setTable g p t).symm

/-- Resolving the imports of a round asks for the same modules. -/
theorem resolveRound_reroot (resolve : Path → String → Except Failure Path) (g : Graph)
    (ps : List Path) :
    resolveRound resolve (g.reroot root file l) ps
      = (resolveRound resolve g ps).map fun r => (r.1.reroot root file l, r.2) := by
  induction ps generalizing g with
  | nil => rfl
  | cons p rest ih =>
    rw [resolveRound, resolveRound, member?_reroot]
    cases hm : g.member? p with
    | none => exact ih g
    | some m =>
      -- The module may be filed under another spelling of `p`, which makes no difference here.
      have htable : (rerootMember root file l m).table = tableAt root file l p m.table :=
        congrFun (tableAt_congr (member?_eq_some hm).2) m.table
      simp only [Option.map_some, htable, resolveTable_tableAt]
      cases hresolve : resolveTable (resolve p) m.table with
      | error e => rfl
      | ok t =>
        simp only [Except.map, bind, Except.bind, setTable_reroot, ih, targets_tableAt]
        cases resolveRound resolve (g.setTable p t) rest with
        | error e => rfl
        | ok r => rfl

theorem foldl_addEdge_reroot (g : Graph) (requests : List (Path × Path)) :
    requests.foldl (fun g edge => g.addEdge edge.1 edge.2) (g.reroot root file l)
      = (requests.foldl (fun g edge => g.addEdge edge.1 edge.2) g).reroot root file l := by
  induction requests generalizing g with
  | nil => rfl
  | cons e rest ih => exact ih (g.addEdge e.1 e.2)

/-- New modules are not the root, so adding them commutes with putting in another root. -/
theorem foldl_add_reroot {g : Graph} {ms : List Member} (hroot : g.contains root = true)
    (hdistinct : Distinct (ms.map Member.path)) (hnew : ∀ m ∈ ms, g.contains m.path = false) :
    ms.foldl add (g.reroot root file l) = (ms.foldl add g).reroot root file l := by
  have hnew' : ∀ m ∈ ms, (g.reroot root file l).contains m.path = false := by
    intro m hm
    rw [contains_reroot, hnew m hm]
  have hkept : ms.map (rerootMember root file l) = ms := by
    refine (List.map_congr_left fun m hm => ?_).trans (List.map_id ms)
    refine rerootMember_of_not_root (Bool.eq_false_iff.2 fun hsame => ?_)
    -- If this were the root, the graph would contain it.
    obtain ⟨p, hp, hproot⟩ := contains_iff.1 hroot
    have hcontains : g.contains m.path = true :=
      contains_iff.2 ⟨p, hp, Path.same_trans hproot (Path.same_comm m.path root ▸ hsame)⟩
    exact Bool.false_ne_true ((hnew m hm).symm.trans hcontains)
  obtain ⟨hmembers, hedges⟩ := foldl_add hdistinct hnew
  obtain ⟨hmembers', hedges'⟩ := foldl_add hdistinct hnew'
  refine ext_of_members ?_ (hedges'.trans hedges.symm)
  rw [hmembers', members_reroot, members_reroot, hmembers, List.map_append, hkept]

/-- The first module becomes the other root, and the rest stays as it is. -/
theorem exists_members_reroot {g : Graph} {m₀ : Member} {ms : List Member}
    (h : g.members = m₀ :: ms)
    (hroot : m₀.path = root) (hothers : ∀ m ∈ ms, m.path.same root = false) :
    ∃ m₁, (g.reroot root file l).members = m₁ :: ms ∧
      m₁.table.components = l.table.components ∧
      m₁.table.dependencies = m₀.table.dependencies.mapValues fun _ d => d.requiredBy file := by
  -- No other module has the path of the root, so none of them is replaced.
  have hkept : ms.map (rerootMember root file l) = ms :=
    (List.map_congr_left fun m hm => rerootMember_of_not_root (hothers m hm)).trans
      (List.map_id ms)
  have hsame : m₀.path.same root = true := by rw [hroot, Path.same_self]
  have htable : (rerootMember root file l m₀).table
      = { components := l.table.components
          dependencies := m₀.table.dependencies.mapValues fun _ d => d.requiredBy file } :=
    if_pos hsame
  refine ⟨rerootMember root file l m₀, ?_, ?_, ?_⟩
  · rw [members_reroot, h, List.map_cons, hkept]
  · rw [htable]
  · rw [htable]

end Reroot

end Bundle.Graph

/-! ### The rounds -/

namespace Bundle

namespace Origin

variable {o : Origin} {files : List Path} {file : Path} {l : Lowered}

/-- **A round commutes with putting in another root.** -/
theorem round_reroot (hlaw : o.Lawful files) {g : Graph} {frontier : List Path}
    (h : o.Grown g frontier) :
    o.round (g.reroot o.root.path file l) frontier
      = (o.round g frontier).map fun r => (r.1.reroot o.root.path file l, r.2) := by
  unfold round
  rw [Graph.resolveRound_reroot]
  cases hresolve : Graph.resolveRound o.resolve g frontier with
  | error e => rfl
  | ok r =>
    obtain ⟨g₁, requests⟩ := r
    have hresolved := Graph.resolveRound_ok h.frontier_distinct hresolve
    have hspec := Graph.newPaths_spec g₁ (requests.map Prod.snd)
    simp only [Except.map, bind, Except.bind, Graph.newPaths_reroot]
    -- The same paths are new in both graphs, and the same modules are loaded from them.
    cases hload : (g₁.newPaths (requests.map Prod.snd)).mapM o.load with
    | error e => rfl
    | ok loaded =>
      obtain ⟨hpaths, -⟩ := Graph.mapM_load_ok hlaw.load_path hload
      have hroot : g₁.contains o.root.path = true := by
        rw [Graph.contains_congr hresolved.paths_eq]
        exact Graph.contains_iff.2 ⟨_, h.root_mem, Path.same_self _⟩
      have hnew : ∀ m ∈ loaded, g₁.contains m.path = false := fun m hm =>
        hspec.fresh m.path (hpaths ▸ List.mem_map.2 ⟨m, hm, rfl⟩)
      have hadd : loaded.foldl Graph.add (g₁.reroot o.root.path file l)
          = (loaded.foldl Graph.add g₁).reroot o.root.path file l :=
        Graph.foldl_add_reroot hroot (hpaths ▸ hspec.distinct) hnew
      simp only [hadd, Graph.foldl_addEdge_reroot]

/-- **All the rounds do**, since the invariant is kept from one to the next. -/
theorem grow_reroot (hlaw : o.Lawful files) {n : Nat} {g : Graph} {frontier : List Path}
    (h : o.Grown g frontier) :
    Graph.grow o.resolve o.load n (g.reroot o.root.path file l) frontier
      = (Graph.grow o.resolve o.load n g frontier).map (·.reroot o.root.path file l) := by
  induction n generalizing g frontier with
  | zero => cases frontier <;> rfl
  | succ n ih =>
    -- The invariant is needed for one round more, and the round itself keeps it.
    by_cases hfrontier : frontier = []
    · rw [hfrontier]
      rfl
    · rw [o.grow_succ hfrontier, o.grow_succ hfrontier, round_reroot hlaw h]
      cases hround : o.round g frontier with
      | error e => rfl
      | ok r => exact ih ((advanced_of_round hlaw h hround).grown h)

end Origin

/-- **The bundle of a module under two spellings of its file** is the same but for the root. -/
theorem build_rerooted {fs : Files} {f g root : Path} (hf : fs.canonical f = .ok root)
    (hg : fs.canonical g = .ok root) {l l' : Lowered} (h : l.Respelled f g l') :
    build fs g l' = (build fs f l).map (·.reroot root g l') := by
  let o : Origin := ⟨resolve fs, load fs, ⟨root, l.tree, l.table⟩⟩
  have ho : Origin.ofFiles fs f l = o := by
    unfold Origin.ofFiles
    rw [hf]
    rfl
  have hlaw : o.Lawful (fs.entries.map fun e => Files.pathOf e.1) :=
    ho ▸ Origin.lawful_ofFiles fs f l
  -- Both bundles start from a single member, the one with its root replaced.
  have hstart : (Graph.single o.root).reroot root g l' = .single ⟨root, l'.tree, l'.table⟩ := by
    refine Graph.ext_of_members ?_ rfl
    change [Graph.rerootMember root g l' o.root] = [⟨root, l'.tree, l'.table⟩]
    unfold Graph.rerootMember Graph.tableAt
    rw [if_pos (Path.same_self root), if_pos (Path.same_self root), ← h.table.dependencies]
  -- Growing commutes with replacing the root, so the replacement can be moved from the start to the
  -- end.
  calc build fs g l'
      = Graph.grow o.resolve o.load (fs.entries.length + 2)
          (.single ⟨root, l'.tree, l'.table⟩) [root] := by
        unfold build
        rw [hg]
        rfl
    _ = Graph.grow o.resolve o.load (fs.entries.length + 2)
          ((Graph.single o.root).reroot root g l') [root] := by rw [hstart]
    _ = (Graph.grow o.resolve o.load (fs.entries.length + 2) (.single o.root) [root]).map
          (·.reroot root g l') := Origin.grow_reroot hlaw Origin.grown_root
    _ = (build fs f l).map (·.reroot root g l') := by
        unfold build
        rw [hf]
        rfl

end Bundle

end Stencil
