import Stencil.Proofs.Bundle.Round
import Stencil.Proofs.Files.Canonical

/-!
# A bundle is the closure of its root under used imports

The modules of a bundle are the root and whatever can be reached from it through imports that make
elements. `Origin` holds what a bundle is grown from: how specifiers are resolved, how modules are
loaded, and the root. From it alone:

* `Origin.moduleAt` — the module at a path as it is loaded, the root being at hand already;
* `Origin.Reached` — the least set of paths with the root in it that is closed under following the
  used imports of the modules at its paths;
* `Origin.Runs` — the runs of the rounds, without any bound on their number;
* `Origin.IsBundle` — a graph with one module for each path reached, as loaded but for the paths of
  its used imports, and with an edge for each of these.

The invariant of the rounds is `Origin.Grown`: the modules of the last round are as loaded, and for
all modules before them the graph is complete already. A round keeps it (`grown_of_round`), a round
that fails meets a path reached whose module is not loaded or does not resolve
(`failing_of_round`), and a graph with nothing left to do is the bundle (`isBundle_of_grown`).

Specifiers are resolved to files, and every round but the last adds one, so the number of files
bounds the number of rounds (`runs_grow`). The main theorem is `build_closure`.
-/

namespace Stencil.Bundle

/-- What a bundle is grown from. -/
structure Origin where
  resolve : Path → String → Except Failure Path
  load : Path → Except Failure Member
  root : Member

namespace Origin

variable (o : Origin)

/-- The module at a path, as loaded. The root is at hand, under whatever spelling of its path. -/
def moduleAt (p : Path) : Except Failure Member :=
  if p.same o.root.path then .ok o.root else o.load p

/-- A used import of the module leads to the path. -/
def Uses (m : Member) (q : Path) : Prop :=
  m.table.Uses (o.resolve m.path) q

/-- All the used imports of the module are resolved. -/
def Resolvable (m : Member) : Prop :=
  m.table.Resolvable (o.resolve m.path)

/-- The module with the paths that its used imports are resolved to, and otherwise as it was. -/
def settled (m : Member) : Member :=
  { m with table := m.table.settled (o.resolve m.path) }

/-- The path is reached: it is that of the root, or a used import of the module at a path reached
leads to it. -/
inductive Reached : Path → Prop
  | root : Reached o.root.path
  | imported {p q : Path} {m : Member} :
    Reached p → o.moduleAt p = .ok m → o.Uses m q → Reached q

/-- There is a module at the path, and its used imports are resolved. -/
def Sound (p : Path) : Prop :=
  ∃ m, o.moduleAt p = .ok m ∧ o.Resolvable m

/-- The graph is the bundle of the origin. -/
structure IsBundle (g : Graph) : Prop where
  /-- The root comes first. -/
  root_first : g.paths.head? = some o.root.path
  /-- No two modules have the same path. -/
  distinct : Graph.Distinct g.paths
  /-- The index has the path of each module with its position, and nothing else. -/
  index_eq : g.index = g.paths.zipIdx
  /-- So the position of a path, by any spelling, is where the module of the path stands. -/
  position?_iff : ∀ p i, g.position? p = some i ↔
    ∃ m, g.members[i]? = some m ∧ m.path.same p = true
  /-- A look-up finds the module of a path, by any spelling. -/
  member?_iff : ∀ p m, g.member? p = some m ↔ m ∈ g.members ∧ m.path.same p = true
  /-- The modules are those at the paths reached. -/
  contains_iff : ∀ q, g.contains q = true ↔ ∃ p, o.Reached p ∧ p.same q = true
  /-- A module is as loaded, but for the paths of its used imports, which are all resolved. -/
  as_loaded : ∀ m ∈ g.members, ∃ m₀, o.moduleAt m.path = .ok m₀ ∧ o.Resolvable m₀ ∧
    m = o.settled m₀
  /-- The edges are the used imports. -/
  mem_edges : ∀ e, e ∈ g.edges ↔ ∃ m ∈ g.members, e.1 = m.path ∧ o.Uses m e.2

/-! ### Rounds -/

/-- One round: the graph with the modules that the imports of the last round lead to, and the paths
of those that are new. -/
def round (g : Graph) (frontier : List Path) : Except Failure (Graph × List Path) := do
  let (g, requests) ← Graph.resolveRound o.resolve g frontier
  let next := g.newPaths (requests.map Prod.snd)
  let loaded ← next.mapM o.load
  let g := loaded.foldl Graph.add g
  let g := requests.foldl (fun g edge => g.addEdge edge.1 edge.2) g
  .ok (g, next)

/-- The runs of the rounds: round after round until one fails or leaves nothing new. -/
inductive Runs : Graph → List Path → Except Failure Graph → Prop
  | done (g : Graph) : Runs g [] (.ok g)
  | failed {g : Graph} {frontier : List Path} {f : Failure} :
    frontier ≠ [] → o.round g frontier = .error f → Runs g frontier (.error f)
  | next {g g' : Graph} {frontier frontier' : List Path} {r : Except Failure Graph} :
    frontier ≠ [] → o.round g frontier = .ok (g', frontier') → Runs g' frontier' r →
      Runs g frontier r

/-- With something on the frontier, growing is one round and growing on. -/
theorem grow_succ {n : Nat} {g : Graph} {frontier : List Path} (h : frontier ≠ []) :
    Graph.grow o.resolve o.load (n + 1) g frontier
      = o.round g frontier >>= fun r => Graph.grow o.resolve o.load n r.1 r.2 := by
  obtain ⟨p, rest, rfl⟩ := List.exists_cons_of_ne_nil h
  rw [Graph.grow, round]
  · -- One chain of steps, bracketed in two ways: with the outcome of each step at hand both sides
    -- compute.
    cases Graph.resolveRound o.resolve g (p :: rest) with
    | error f => rfl
    | ok r =>
      obtain ⟨g₁, requests⟩ := r
      cases hload : (g₁.newPaths (requests.map Prod.snd)).mapM o.load with
      | error f =>
        change (List.mapM o.load _ >>= _) = ((List.mapM o.load _ >>= _) >>= _)
        rw [hload]
        rfl
      | ok loaded =>
        change (List.mapM o.load _ >>= _) = ((List.mapM o.load _ >>= _) >>= _)
        rw [hload]
        rfl
  · exact nofun

/-- A round that succeeds resolves the frontier, loads what is new, and records the imports. -/
theorem round_ok {g g' : Graph} {frontier next : List Path}
    (h : o.round g frontier = .ok (g', next)) :
    ∃ g₁ requests loaded, Graph.resolveRound o.resolve g frontier = .ok (g₁, requests) ∧
      next = g₁.newPaths (requests.map Prod.snd) ∧ next.mapM o.load = .ok loaded ∧
      g' = requests.foldl (fun g edge => g.addEdge edge.1 edge.2) (loaded.foldl Graph.add g₁) := by
  obtain ⟨⟨g₁, requests⟩, hresolve, h⟩ := bind_eq_ok.1 h
  obtain ⟨loaded, hload, h⟩ := bind_eq_ok.1 h
  cases h
  exact ⟨g₁, requests, loaded, hresolve, rfl, hload, rfl⟩

/-- A round that fails does so at an import of the frontier or at a module to load. -/
theorem round_error {g : Graph} {frontier : List Path} {f : Failure}
    (h : o.round g frontier = .error f) :
    Graph.resolveRound o.resolve g frontier = .error f ∨
      ∃ g₁ requests, Graph.resolveRound o.resolve g frontier = .ok (g₁, requests) ∧
        (g₁.newPaths (requests.map Prod.snd)).mapM o.load = .error f := by
  -- Adding edges and members cannot fail, so it was resolving or loading.
  rcases bind_eq_error.1 h with h | ⟨⟨g₁, requests⟩, hresolve, h⟩
  · exact .inl h
  · rcases bind_eq_error.1 h with h | ⟨_, -, h⟩
    · exact .inr ⟨g₁, requests, hresolve, h⟩
    · cases h

/-! ### Origins of files

Nothing has to be known of resolving and loading but that a module has the path it was loaded from,
that specifiers lead to finitely many paths, and that these have one spelling each. -/

/-- The origin behaves as files do, where specifiers are resolved to paths in `files` only. -/
structure Lawful (files : List Path) : Prop where
  load_path : ∀ p m, o.load p = .ok m → m.path = p
  resolve_mem : ∀ p s q, o.resolve p s = .ok q → q ∈ files
  resolve_eq : ∀ p s q p' s' q', o.resolve p s = .ok q → o.resolve p' s' = .ok q' →
    q.same q' = true → q = q'

variable {o}

/-- What a member uses is where one of its sources leads. -/
theorem Uses.resolved {m : Member} {q : Path} (h : o.Uses m q) :
    ∃ s, o.resolve m.path s = .ok q := by
  obtain ⟨d, -, -, hq⟩ := h
  exact ⟨d.source, hq⟩

/-- Settling a member leaves what it uses. -/
theorem uses_settled {m : Member} {q : Path} : o.Uses (o.settled m) q ↔ o.Uses m q :=
  Table.uses_settled

/-- A file that is reached is the root, or some source leads to it. -/
theorem Reached.root_or_resolved {p : Path} (h : o.Reached p) :
    p = o.root.path ∨ ∃ p' s, o.resolve p' s = .ok p := by
  cases h with
  | root => exact .inl rfl
  | imported _ _ huses =>
    obtain ⟨s, hs⟩ := huses.resolved
    exact .inr ⟨_, s, hs⟩

/-- The module at a path reached does not depend on how the path is spelled. -/
theorem moduleAt_congr {files : List Path} (hlaw : o.Lawful files) {p q : Path}
    (hp : o.Reached p) (hq : o.Reached q) (hsame : p.same q = true) :
    o.moduleAt p = o.moduleAt q := by
  by_cases hroot : p.same o.root.path = true
  · have hroot' : q.same o.root.path = true := by
      rw [Path.same_comm] at hsame
      exact Path.same_trans hsame hroot
    rw [moduleAt, moduleAt, if_pos hroot, if_pos hroot']
  · -- Apart from the root all paths reached are canonical.
    rcases hp.root_or_resolved with rfl | ⟨p', s, hs⟩
    · exact absurd (Path.same_self _) hroot
    rcases hq.root_or_resolved with rfl | ⟨q', s', hs'⟩
    · exact absurd hsame hroot
    rw [hlaw.resolve_eq _ _ _ _ _ _ hs hs' hsame]

/-! ### The invariant -/

variable (o) in
/-- The graph after some rounds, where the modules at the paths of the frontier were added by the
last of them. -/
structure Grown (g : Graph) (frontier : List Path) : Prop where
  root_first : g.paths.head? = some o.root.path
  distinct : Graph.Distinct g.paths
  reached : ∀ p ∈ g.paths, o.Reached p
  frontier_mem : ∀ p ∈ frontier, p ∈ g.paths
  frontier_distinct : Graph.Distinct frontier
  /-- The modules of the frontier are as loaded. -/
  fresh : ∀ p ∈ frontier, ∃ m, o.moduleAt p = .ok m ∧ g.member? p = some m
  /-- All other modules are settled, and what they use is there. -/
  complete : ∀ p ∈ g.paths, p ∉ frontier → ∃ m, o.moduleAt p = .ok m ∧ o.Resolvable m ∧
    g.member? p = some (o.settled m) ∧ ∀ q, o.Uses m q → g.contains q = true
  /-- The edges are the used imports of all other modules. -/
  mem_edges : ∀ e, e ∈ g.edges ↔
    ∃ m, e.1 ∈ g.paths ∧ e.1 ∉ frontier ∧ o.moduleAt e.1 = .ok m ∧ o.Uses m e.2

/-- The root alone is where the rounds start. -/
theorem grown_root : o.Grown (.single o.root) [o.root.path] := by
  have hroot : o.moduleAt o.root.path = .ok o.root := by
    rw [moduleAt, if_pos (Path.same_self _)]
  have hfound : (Graph.single o.root).member? o.root.path = some o.root := by
    rw [Graph.member?_eq_find?]
    exact List.find?_cons_of_pos (p := fun m : Member => m.path.same o.root.path)
      (Path.same_self _)
  -- Only the root is there, it is on the frontier, and no edge has been added.
  refine ⟨rfl, List.pairwise_singleton _ _, ?_, fun p hp => hp, List.pairwise_singleton _ _, ?_, ?_,
    ?_⟩
  · intro p hp
    rw [List.mem_singleton.1 hp]
    exact .root
  · intro p hp
    rw [List.mem_singleton.1 hp]
    exact ⟨o.root, hroot, hfound⟩
  · exact fun p hp hp' => absurd hp hp'
  · exact fun e => ⟨fun he => absurd he List.not_mem_nil, fun ⟨_, he, he', _⟩ => absurd he he'⟩

namespace Grown

variable {g : Graph} {frontier : List Path}

/-- The root stays in the graph. -/
theorem root_mem (h : o.Grown g frontier) : o.root.path ∈ g.paths :=
  List.mem_of_mem_head? h.root_first

/-- A module that is looked up under a path of the graph has this path. -/
theorem path_eq (h : o.Grown g frontier) {p : Path} {m : Member} (hp : p ∈ g.paths)
    (hm : g.member? p = some m) : m.path = p := by
  obtain ⟨hmem, hsame⟩ := Graph.member?_eq_some hm
  exact h.distinct.eq_of_same (List.mem_map.2 ⟨m, hmem, rfl⟩) hp hsame

/-- A path that is not in the graph is not that of the root. -/
theorem moduleAt_of_new (h : o.Grown g frontier) {p : Path}
    (hnew : ∀ q ∈ g.paths, q.same p = false) : o.moduleAt p = o.load p := by
  have hroot : p.same o.root.path = false := (Path.same_comm _ _).trans (hnew _ h.root_mem)
  rw [moduleAt, if_neg (Bool.eq_false_iff.1 hroot)]

section Requests

variable {files : List Path} {g₁ : Graph} {requests : List (Path × Path)}

/-- The requests of a round are the used imports of the modules of the frontier. -/
theorem mem_requests (h : o.Grown g frontier)
    (hround : Graph.ResolvedRound o.resolve g frontier g₁ requests) (e : Path × Path) :
    e ∈ requests ↔ ∃ m, e.1 ∈ frontier ∧ o.moduleAt e.1 = .ok m ∧ o.Uses m e.2 := by
  rw [hround.mem_requests]
  constructor
  · rintro ⟨m, he, hm, huses⟩
    -- A member on the frontier is as it was loaded, so it uses what the module at its path uses.
    obtain ⟨m', hmodule, hm'⟩ := h.fresh e.1 he
    obtain rfl : m = m' := Option.some.inj (hm.symm.trans hm')
    refine ⟨m, he, hmodule, ?_⟩
    rw [Uses, h.path_eq (h.frontier_mem _ he) hm]
    exact huses
  · rintro ⟨m, he, hmodule, huses⟩
    obtain ⟨m', hmodule', hm⟩ := h.fresh e.1 he
    obtain rfl : m = m' := Except.ok.inj (hmodule.symm.trans hmodule')
    refine ⟨m, he, hm, ?_⟩
    rw [Uses, h.path_eq (h.frontier_mem _ he) hm] at huses
    exact huses

/-- What is asked for in a round is reached. -/
theorem reached_of_request (h : o.Grown g frontier)
    (hround : Graph.ResolvedRound o.resolve g frontier g₁ requests) {e : Path × Path}
    (he : e ∈ requests) : o.Reached e.2 := by
  obtain ⟨m, hfrontier, hmodule, huses⟩ := (h.mem_requests hround e).1 he
  exact .imported (h.reached _ (h.frontier_mem _ hfrontier)) hmodule huses

/-- The spelling of an edge is settled by the paths of the graph and by the files. -/
theorem eq_of_sameEdge (hlaw : o.Lawful files) (h : o.Grown g frontier)
    (hround : Graph.ResolvedRound o.resolve g frontier g₁ requests) :
    ∀ e ∈ requests, ∀ f ∈ g.edges ++ requests, Graph.sameEdge e f = true → e = f := by
  -- Neither end of an edge has two spellings: it starts at a path of the graph and leads to what a
  -- specifier was resolved to.
  have hends : ∀ f ∈ g.edges ++ requests, f.1 ∈ g.paths ∧ ∃ p s, o.resolve p s = .ok f.2 := by
    intro f hf
    rcases List.mem_append.1 hf with hf | hf
    · obtain ⟨m, hpath, -, -, huses⟩ := (h.mem_edges f).1 hf
      exact ⟨hpath, _, huses.resolved⟩
    · obtain ⟨m, hpath, -, huses⟩ := (h.mem_requests hround f).1 hf
      exact ⟨h.frontier_mem _ hpath, _, huses.resolved⟩
  intro e he f hf hsame
  obtain ⟨he₁, pe, se, he₂⟩ := hends e (List.mem_append_right _ he)
  obtain ⟨hf₁, pf, sf, hf₂⟩ := hends f hf
  rw [Graph.sameEdge, Bool.and_eq_true] at hsame
  exact Prod.ext (h.distinct.eq_of_same he₁ hf₁ hsame.1)
    (hlaw.resolve_eq _ _ _ _ _ _ he₂ hf₂ hsame.2)

end Requests

end Grown

/-! ### What a round does -/

variable (o) in
/-- What a round makes of a graph: the graph after it, with new modules at the paths `next`. -/
structure Advanced (g : Graph) (frontier : List Path) (g' : Graph) (next : List Path) : Prop where
  paths_eq : g'.paths = g.paths ++ next
  next_distinct : Graph.Distinct next
  next_new : ∀ p ∈ next, ∀ q ∈ g.paths, q.same p = false
  next_reached : ∀ p ∈ next, o.Reached p
  loaded : ∀ p ∈ next, ∃ m, o.load p = .ok m ∧ g'.member? p = some m
  settled : ∀ p ∈ frontier, ∀ m, g.member? p = some m →
    o.Resolvable m ∧ g'.member? p = some (o.settled m)
  kept : ∀ q ∈ g.paths, q ∉ frontier → g'.member? q = g.member? q
  mem_edges : ∀ e, e ∈ g'.edges ↔ e ∈ g.edges ∨
    ∃ m, e.1 ∈ frontier ∧ o.moduleAt e.1 = .ok m ∧ o.Uses m e.2
  uses_contained : ∀ p ∈ frontier, ∀ m, o.moduleAt p = .ok m →
    ∀ q, o.Uses m q → g'.contains q = true

/-- A round that succeeds advances the graph: it resolves the frontier and loads the files it
uses. -/
theorem advanced_of_round {files : List Path} (hlaw : o.Lawful files) {g g' : Graph}
    {frontier next : List Path} (h : o.Grown g frontier)
    (hround : o.round g frontier = .ok (g', next)) : o.Advanced g frontier g' next := by
  obtain ⟨g₁, requests, loaded, hresolve, hnext, hload, hg'⟩ := o.round_ok hround
  have hresolved := Graph.resolveRound_ok h.frontier_distinct hresolve
  have hnew := Graph.newPaths_spec g₁ (requests.map Prod.snd)
  rw [← hnext] at hnew
  obtain ⟨hloaded, hmodules⟩ := Graph.mapM_load_ok hlaw.load_path hload
  have hfresh : ∀ m ∈ loaded, g₁.contains m.path = false := fun m hm =>
    hnew.fresh m.path (hloaded ▸ List.mem_map.2 ⟨m, hm, rfl⟩)
  obtain ⟨hadded, hedges⟩ := Graph.foldl_add (hloaded ▸ hnew.distinct) hfresh
  have hmembers : g'.members = g₁.members ++ loaded := by
    rw [hg', Graph.members_foldl_addEdge, hadded]
  have hpaths : g'.paths = g.paths ++ next := by
    rw [Graph.paths, hmembers, List.map_append, hloaded, ← hresolved.paths_eq, Graph.paths]
  have hknown : ∀ p ∈ g.paths, g₁.contains p = true := by
    intro p hp
    rw [Graph.contains_congr hresolved.paths_eq]
    exact Graph.contains_iff.2 ⟨p, hp, Path.same_self p⟩
  refine ⟨hpaths, hnew.distinct, ?_, ?_, ?_, ?_, ?_, ?_, ?_⟩
  · intro p hp q hq
    rw [Bool.eq_false_iff]
    intro hsame
    have hcontains := hnew.fresh p hp
    rw [Graph.contains_congr hresolved.paths_eq, Graph.contains_iff.2 ⟨q, hq, hsame⟩] at hcontains
    cases hcontains
  · intro p hp
    obtain ⟨e, he, rfl⟩ := List.mem_map.1 (hnew.mem_asked p hp)
    exact h.reached_of_request hresolved he
  · intro p hp
    rw [← hloaded] at hp
    obtain ⟨m, hm, rfl⟩ := List.mem_map.1 hp
    exact ⟨m, hmodules m hm,
      Graph.member?_append_new hmembers (hloaded ▸ hnew.distinct) hm (hfresh m hm)⟩
  · intro p hp m hm
    have hold : p ∈ g.paths := h.frontier_mem p hp
    obtain ⟨hresolvable, hsettled⟩ := hresolved.settled p hp m hm
    rw [← h.path_eq hold hm] at hresolvable hsettled
    refine ⟨hresolvable, ?_⟩
    rw [Graph.member?_append_old hmembers (hknown p hold), ← h.path_eq hold hm]
    exact hsettled
  · intro q hq hfrontier
    rw [Graph.member?_append_old hmembers (hknown q hq)]
    refine hresolved.kept q fun p hp => ?_
    rw [Bool.eq_false_iff]
    intro hsame
    exact hfrontier (h.distinct.eq_of_same (h.frontier_mem p hp) hq hsame ▸ hp)
  · intro e
    rw [← h.mem_requests hresolved, hg', ← hresolved.edges_eq, ← hedges]
    have hspelling := h.eq_of_sameEdge hlaw hresolved
    rw [← hresolved.edges_eq, ← hedges] at hspelling
    exact Graph.mem_foldl_addEdge hspelling
  · intro p hp m hmodule q hq
    have hrequest : (p, q) ∈ requests := (h.mem_requests hresolved _).2 ⟨m, hp, hmodule, hq⟩
    -- What is asked for was there, or is one of the new paths.
    rcases hnew.complete q (List.mem_map.2 ⟨(p, q), hrequest, rfl⟩) with hold | ⟨p', hp', hsame⟩
    · rw [Graph.contains_congr hresolved.paths_eq] at hold
      obtain ⟨p', hp', hsame⟩ := Graph.contains_iff.1 hold
      exact Graph.contains_iff.2 ⟨p', hpaths ▸ List.mem_append_left _ hp', hsame⟩
    · exact Graph.contains_iff.2 ⟨p', hpaths ▸ List.mem_append_right _ hp', hsame⟩

namespace Advanced

variable {g g' : Graph} {frontier next : List Path}

/-- A path of the graph before the round is not one of the new paths. -/
theorem not_mem_next (h : o.Advanced g frontier g' next) {p : Path} (hp : p ∈ g.paths) :
    p ∉ next := by
  intro hn
  have hdiffers := h.next_new p hn p hp
  rw [Path.same_self] at hdiffers
  cases hdiffers

/-- No file gets lost. -/
theorem contains_mono (h : o.Advanced g frontier g' next) {q : Path} (hq : g.contains q = true) :
    g'.contains q = true := by
  obtain ⟨p, hp, hsame⟩ := Graph.contains_iff.1 hq
  exact Graph.contains_iff.2 ⟨p, h.paths_eq ▸ List.mem_append_left _ hp, hsame⟩

/-- **A round keeps the invariant.** -/
theorem grown (h : o.Grown g frontier) (hround : o.Advanced g frontier g' next) :
    o.Grown g' next := by
  refine ⟨?_, ?_, ?_, ?_, hround.next_distinct, ?_, ?_, ?_⟩
  · rw [hround.paths_eq, List.head?_append, h.root_first]
    rfl
  · rw [hround.paths_eq]
    exact List.pairwise_append.2
      ⟨h.distinct, hround.next_distinct, fun q hq p hp => hround.next_new p hp q hq⟩
  · intro p hp
    rw [hround.paths_eq] at hp
    exact (List.mem_append.1 hp).elim (h.reached p) (hround.next_reached p)
  · intro p hp
    rw [hround.paths_eq]
    exact List.mem_append_right _ hp
  · intro p hp
    obtain ⟨m, hm, hfound⟩ := hround.loaded p hp
    exact ⟨m, (h.moduleAt_of_new (hround.next_new p hp)).trans hm, hfound⟩
  · intro p hp hp'
    rw [hround.paths_eq] at hp
    have hold : p ∈ g.paths := (List.mem_append.1 hp).resolve_right hp'
    by_cases hfrontier : p ∈ frontier
    · -- A module of the frontier is settled by this round.
      obtain ⟨m, hmodule, hm⟩ := h.fresh p hfrontier
      obtain ⟨hresolvable, hsettled⟩ := hround.settled p hfrontier m hm
      exact ⟨m, hmodule, hresolvable, hsettled, hround.uses_contained p hfrontier m hmodule⟩
    · -- All others stay as they were.
      obtain ⟨m, hmodule, hresolvable, hm, huses⟩ := h.complete p hold hfrontier
      exact ⟨m, hmodule, hresolvable, (hround.kept p hold hfrontier).trans hm,
        fun q hq => hround.contains_mono (huses q hq)⟩
  · intro e
    -- The modules that were the frontier are complete now: their imports are the edges of this
    -- round.
    rw [hround.mem_edges, h.mem_edges, hround.paths_eq]
    constructor
    · rintro (⟨m, hpath, -, hmodule, huses⟩ | ⟨m, hfrontier, hmodule, huses⟩)
      · exact ⟨m, List.mem_append_left _ hpath, hround.not_mem_next hpath, hmodule, huses⟩
      · have hpath := h.frontier_mem _ hfrontier
        exact ⟨m, List.mem_append_left _ hpath, hround.not_mem_next hpath, hmodule, huses⟩
    · rintro ⟨m, hpath, hn, hmodule, huses⟩
      have hold := (List.mem_append.1 hpath).resolve_right hn
      by_cases hfrontier : e.1 ∈ frontier
      · exact .inr ⟨m, hfrontier, hmodule, huses⟩
      · exact .inl ⟨m, hold, hfrontier, hmodule, huses⟩

end Advanced

/-- **A round that fails** meets a path reached without a module whose used imports are resolved. -/
theorem failing_of_round {g : Graph} {frontier : List Path} (h : o.Grown g frontier) {f : Failure}
    (hround : o.round g frontier = .error f) : ∃ p, o.Reached p ∧ ¬o.Sound p := by
  rcases o.round_error hround with hround | ⟨g₁, requests, hresolve, hload⟩
  · -- Resolving failed, at a module of the frontier. It is as loaded, so its path is not sound.
    obtain ⟨p, hp, m, hm, hfails⟩ := Graph.resolveRound_error h.frontier_distinct hround
    refine ⟨p, h.reached p (h.frontier_mem p hp), ?_⟩
    rintro ⟨m', hmodule', hresolvable⟩
    obtain ⟨m'', hmodule, hm'⟩ := h.fresh p hp
    obtain rfl : m = m'' := Option.some.inj (hm.symm.trans hm')
    obtain rfl : m = m' := Except.ok.inj (hmodule.symm.trans hmodule')
    rw [Resolvable, h.path_eq (h.frontier_mem p hp) hm] at hresolvable
    exact hfails hresolvable
  · -- Loading failed, at a path that was asked for and is not that of a module at hand.
    have hresolved := Graph.resolveRound_ok h.frontier_distinct hresolve
    have hnew := Graph.newPaths_spec g₁ (requests.map Prod.snd)
    obtain ⟨p, hp, hfails⟩ := Graph.mapM_load_error hload
    obtain ⟨e, he, rfl⟩ := List.mem_map.1 (hnew.mem_asked p hp)
    refine ⟨e.2, h.reached_of_request hresolved he, ?_⟩
    rintro ⟨m, hmodule, -⟩
    have hother : ∀ q ∈ g.paths, q.same e.2 = false := by
      intro q hq
      rw [Bool.eq_false_iff]
      intro hsame
      have hcontains := hnew.fresh e.2 hp
      rw [Graph.contains_congr hresolved.paths_eq, Graph.contains_iff.2 ⟨q, hq, hsame⟩] at hcontains
      cases hcontains
    rw [h.moduleAt_of_new hother] at hmodule
    exact hfails m hmodule

/-! ### The graph at the end -/

section Finished

variable {files : List Path} {g : Graph}

/-- With nothing left to do, every path reached has its module in the graph. -/
theorem contains_of_reached (hlaw : o.Lawful files) (h : o.Grown g []) {p : Path}
    (hp : o.Reached p) : g.contains p = true := by
  induction hp with
  | root => exact Graph.contains_iff.2 ⟨_, h.root_mem, Path.same_self _⟩
  | imported hp hmodule huses ih =>
    obtain ⟨p', hp', hsame⟩ := Graph.contains_iff.1 ih
    obtain ⟨m', hmodule', -, -, hall⟩ := h.complete p' hp' List.not_mem_nil
    -- The member may be filed under another spelling of the path; its module is the same.
    rw [moduleAt_congr hlaw (h.reached p' hp') hp hsame, hmodule] at hmodule'
    obtain rfl := Except.ok.inj hmodule'
    exact hall _ huses

/-- With nothing left to do, every path reached is sound. -/
theorem sound_of_reached (hlaw : o.Lawful files) (h : o.Grown g []) {p : Path}
    (hp : o.Reached p) : o.Sound p := by
  obtain ⟨p', hp', hsame⟩ := Graph.contains_iff.1 (contains_of_reached hlaw h hp)
  obtain ⟨m, hmodule, hresolvable, -, -⟩ := h.complete p' hp' List.not_mem_nil
  rw [moduleAt_congr hlaw (h.reached p' hp') hp hsame] at hmodule
  exact ⟨m, hmodule, hresolvable⟩

/-- **A graph with nothing left to do is the bundle.** -/
theorem isBundle_of_grown (hlaw : o.Lawful files) (h : o.Grown g []) : o.IsBundle g := by
  have hmem : ∀ m ∈ g.members, m.path ∈ g.paths := fun m hm => List.mem_map.2 ⟨m, hm, rfl⟩
  -- With nothing in the frontier every module is complete.
  have hloaded : ∀ m ∈ g.members, ∃ m₀, o.moduleAt m.path = .ok m₀ ∧ o.Resolvable m₀ ∧
      m = o.settled m₀ := by
    intro m hm
    obtain ⟨m₀, hmodule, hresolvable, hfound, -⟩ :=
      h.complete m.path (hmem m hm) List.not_mem_nil
    have hself : g.member? m.path = some m :=
      h.distinct.member?_iff.2 ⟨hm, Path.same_self _⟩
    exact ⟨m₀, hmodule, hresolvable, Option.some.inj (hself.symm.trans hfound)⟩
  refine ⟨h.root_first, h.distinct, g.indexed, fun p i => h.distinct.position?_iff,
    fun p m => h.distinct.member?_iff, ?_, hloaded, ?_⟩
  · intro q
    rw [Graph.contains_iff]
    constructor
    · rintro ⟨p, hp, hsame⟩
      exact ⟨p, h.reached p hp, hsame⟩
    · rintro ⟨p, hp, hsame⟩
      obtain ⟨p', hp', hsame'⟩ := Graph.contains_iff.1 (contains_of_reached hlaw h hp)
      exact ⟨p', hp', Path.same_trans hsame' hsame⟩
  · intro e
    rw [h.mem_edges]
    constructor
    · rintro ⟨m₀, hpath, -, hmodule, huses⟩
      obtain ⟨m, hm, heq⟩ := List.mem_map.1 hpath
      obtain ⟨m₁, hmodule₁, -, rfl⟩ := hloaded m hm
      rw [heq, hmodule] at hmodule₁
      obtain rfl := Except.ok.inj hmodule₁
      exact ⟨_, hm, heq.symm, uses_settled.2 huses⟩
    · rintro ⟨m, hm, heq, huses⟩
      obtain ⟨m₀, hmodule, -, rfl⟩ := hloaded m hm
      exact ⟨m₀, heq ▸ hmem _ hm, List.not_mem_nil, heq ▸ hmodule, uses_settled.1 huses⟩

end Finished

/-! ### The rounds come to an end -/

/-- The paths of the graph are that of the root and those of files. -/
theorem Grown.length_paths_le {files : List Path} (hlaw : o.Lawful files) {g : Graph}
    {frontier : List Path} (h : o.Grown g frontier) : g.paths.length ≤ files.length + 1 := by
  have hsubset : g.paths ⊆ o.root.path :: files := by
    intro p hp
    rcases (h.reached p hp).root_or_resolved with rfl | ⟨p', s, hs⟩
    · exact List.mem_cons_self
    · exact List.mem_cons_of_mem _ (hlaw.resolve_mem _ _ _ hs)
  exact h.distinct.nodup.length_le_of_subset hsubset

/-- **The bound on the rounds is never met.** Each round but the last adds a module, so after as
many rounds as there are files nothing is new, and the result is that of the unbounded rounds. -/
theorem runs_grow {files : List Path} (hlaw : o.Lawful files) {n : Nat} {g : Graph}
    {frontier : List Path} (h : o.Grown g frontier)
    (hn : frontier = [] ∨ files.length + 2 ≤ n + g.paths.length) :
    o.Runs g frontier (Graph.grow o.resolve o.load n g frontier) := by
  induction n generalizing g frontier with
  | zero =>
    -- No round is left. With a frontier there were more modules than there are files.
    have hlength := h.length_paths_le hlaw
    obtain rfl : frontier = [] := hn.resolve_right (by omega)
    rw [Graph.grow]
    exact .done g
  | succ n ih =>
    by_cases hfrontier : frontier = []
    · rw [hfrontier, Graph.grow]
      exact .done g
    · have hn : files.length + 2 ≤ n + 1 + g.paths.length := hn.resolve_left hfrontier
      rw [o.grow_succ hfrontier]
      cases hround : o.round g frontier with
      | error f => exact .failed hfrontier hround
      | ok r =>
        obtain ⟨g', next⟩ := r
        have hadvanced := advanced_of_round hlaw h hround
        refine .next hfrontier hround (ih (hadvanced.grown h) ?_)
        -- Unless nothing is new, the graph has grown by at least one module.
        by_cases hnext : next = []
        · exact .inl hnext
        · have hpos := List.length_pos_iff.2 hnext
          rw [hadvanced.paths_eq, List.length_append]
          omega

/-- What a run comes to: the bundle, or a failure that some path reached is the reason for. -/
theorem outcome_of_runs {files : List Path} (hlaw : o.Lawful files) {g : Graph}
    {frontier : List Path} {r : Except Failure Graph} (h : o.Grown g frontier)
    (hruns : o.Runs g frontier r) :
    (∃ g', r = .ok g' ∧ o.IsBundle g' ∧ ∀ p, o.Reached p → o.Sound p) ∨
      (∃ f, r = .error f ∧ ∃ p, o.Reached p ∧ ¬o.Sound p) := by
  -- Along the rounds, each of which keeps what the graph has grown by.
  induction hruns with
  | done g =>
    exact .inl ⟨g, rfl, isBundle_of_grown hlaw h, fun p hp => sound_of_reached hlaw h hp⟩
  | failed _ hround => exact .inr ⟨_, rfl, failing_of_round h hround⟩
  | next _ hround _ ih => exact ih ((advanced_of_round hlaw h hround).grown h)

end Origin

/-! ### Bundles of files -/

/-- A specifier is resolved to the path of a location where a file stands. -/
theorem resolve_ok {fs : Files} {importer q : Path} {s : String}
    (h : resolve fs importer s = .ok q) :
    ∃ l, q = Files.pathOf l ∧ fs.Direct l ∧ l ∈ fs.entries.map Prod.fst := by
  unfold resolve at h
  split at h
  · cases h
  · next found hfound =>
    -- Whichever candidate it was, the path found is that of a file.
    have hfile : fs.isFile found = true := by
      obtain ⟨candidate, -, hmodule⟩ := List.exists_of_findSome?_eq_some hfound
      have hfileAt : ∀ c p, fileAt? fs c = some p → fs.isFile p = true :=
        fun c p hp => List.find?_some hp
      rcases Option.or_eq_some_iff.1 hmodule with hmodule | ⟨-, hmodule⟩
      · exact hfileAt _ _ hmodule
      · unfold directoryAt? at hmodule
        split at hmodule
        · rcases Option.or_eq_some_iff.1 hmodule with hmain | ⟨-, hindex⟩
          · obtain ⟨main, -, hmain⟩ := Option.bind_eq_some_iff.1 hmain
            exact hfileAt _ _ hmain
          · exact hfileAt _ _ hindex
        · cases hmodule
    split at h
    · next path hcanonical =>
      cases h
      unfold Files.canonical at hcanonical
      unfold Files.isFile at hfile
      split at hfile
      · next l text hfind =>
        rw [hfind] at hcanonical
        cases hcanonical
        obtain ⟨hdirect, hget⟩ := Files.find_ok hfind
        refine ⟨l, rfl, hdirect, ?_⟩
        unfold Files.get? at hget
        split at hget
        · cases hget
        · obtain ⟨before, after, hentries, -⟩ := List.lookup_eq_some_iff.1 hget
          rw [hentries]
          exact List.mem_map.2 ⟨_, List.mem_append_right _ List.mem_cons_self, rfl⟩
      · cases hfile
    · cases h

/-- A module that is loaded is what its source is lowered and optimized to. -/
theorem load_ok {fs : Files} {p : Path} {m : Member} (h : load fs p = .ok m) :
    ∃ source l, fs.read p = .ok source ∧ Lowered.optimized (some p) source = .ok l ∧
      m = ⟨p, l.tree, l.table⟩ := by
  unfold load at h
  split at h
  · cases h
  · next source hread =>
    obtain ⟨l, hl, rfl⟩ := map_eq_ok.1 h
    exact ⟨source, l, hread, hl, rfl⟩

/-- What the bundle of a lowered module is grown from: the files, and the module as its root. -/
def Origin.ofFiles (fs : Files) (file : Path) (l : Lowered) : Origin where
  resolve := Bundle.resolve fs
  load := Bundle.load fs
  root := ⟨(fs.canonical file).toOption.getD file, l.tree, l.table⟩

/-- Resolving and loading in a snapshot obey the laws of an origin, with its entries as files. -/
theorem Origin.lawful_ofFiles (fs : Files) (file : Path) (l : Lowered) :
    (ofFiles fs file l).Lawful (fs.entries.map fun e => Files.pathOf e.1) where
  load_path _ _ h := by
    obtain ⟨source, l, -, -, rfl⟩ := load_ok h
    rfl
  resolve_mem _ _ q h := by
    obtain ⟨l, rfl, -, hl⟩ := resolve_ok h
    obtain ⟨e, he, rfl⟩ := List.mem_map.1 hl
    exact List.mem_map.2 ⟨e, he, rfl⟩
  resolve_eq _ _ q _ _ q' h h' hsame := by
    obtain ⟨l, rfl, hdirect, -⟩ := resolve_ok h
    obtain ⟨l', rfl, hdirect', -⟩ := resolve_ok h'
    -- Locations that are found are direct, and those are told apart by their paths.
    rw [Files.eq_of_same_pathOf hdirect.proper hdirect'.proper hsame]

/-- There are rounds enough for the bundle of a module. -/
theorem Origin.runs_build (fs : Files) (file : Path) (l : Lowered) :
    let o := ofFiles fs file l
    o.Runs (.single o.root) [o.root.path] (build fs file l) := by
  intro o
  refine runs_grow (lawful_ofFiles fs file l) grown_root (.inr ?_)
  have hone : (Graph.single (ofFiles fs file l).root).paths.length = 1 := rfl
  rw [List.length_map, hone]
  exact Nat.le_succ _

/-- What is built from a snapshot is a bundle. -/
theorem isBundle_build {fs : Files} {file : Path} {l : Lowered} {g : Graph}
    (h : build fs file l = .ok g) : (Origin.ofFiles fs file l).IsBundle g := by
  rcases Origin.outcome_of_runs (Origin.lawful_ofFiles fs file l) Origin.grown_root
    (Origin.runs_build fs file l) with ⟨g', hg', hbundle, -⟩ | ⟨f, hf, -⟩
  · rw [h] at hg'
    exact Except.ok.inj hg' ▸ hbundle
  · rw [h] at hf
    cases hf

/-- **A bundle is the closure of its root under used imports.** The rounds come to an end, whatever
the imports are. They succeed if and only if every module that is reached can be loaded and resolves
all its used imports, and then the graph is the bundle. -/
theorem build_closure (fs : Files) (file : Path) (l : Lowered) :
    let o := Origin.ofFiles fs file l
    o.Runs (.single o.root) [o.root.path] (build fs file l) ∧
      ((∃ g, build fs file l = .ok g) ↔ ∀ p, o.Reached p → o.Sound p) ∧
      ∀ g, build fs file l = .ok g → o.IsBundle g := by
  intro o
  have hruns := Origin.runs_build fs file l
  refine ⟨hruns, ?_, fun g hg => isBundle_build hg⟩
  -- Growing ends with a graph where every reached file is sound, or with a failure over one that is
  -- not.
  rcases Origin.outcome_of_runs (Origin.lawful_ofFiles fs file l) Origin.grown_root hruns with
    ⟨g, hg, -, hsound⟩ | ⟨f, hf, p, hp, hfails⟩
  · exact ⟨fun _ => hsound, fun _ => ⟨g, hg⟩⟩
  · refine ⟨?_, fun h => absurd (h p hp) hfails⟩
    rintro ⟨g, hg⟩
    rw [hf] at hg
    cases hg

/-- A module that imports the root back, and itself. -/
theorem build_closure_cycle :
    let file : Path := ⟨"/app/main.jsx"⟩
    let main := "import Card from './Card'; export default () => <Card />;"
    let card := "import Self from './Card.jsx'; import Top from '../app/main';
      export default () => <b><Self /><Top /></b>;"
    let fs : Files := { entries := [(["app"], .directory), (["app", "main.jsx"], .file (some main)),
      (["app", "Card.jsx"], .file (some card))] }
    ∃ l g, Lowered.optimized (some file) main = .ok l ∧ build fs file l = .ok g ∧
      g.paths = [file, ⟨"/app/Card.jsx"⟩] ∧
      g.edges = [(⟨"/app/Card.jsx"⟩, ⟨"/app/Card.jsx"⟩), (⟨"/app/Card.jsx"⟩, file),
        (file, ⟨"/app/Card.jsx"⟩)] ∧
      (Origin.ofFiles fs file l).IsBundle g := by
  intro file main card fs
  have hrun : (Lowered.optimized (some file) main).toOption.any (fun l =>
      (build fs file l).toOption.any fun g =>
        decide (g.paths = [file, ⟨"/app/Card.jsx"⟩] ∧
          g.edges = [(⟨"/app/Card.jsx"⟩, ⟨"/app/Card.jsx"⟩), (⟨"/app/Card.jsx"⟩, file),
            (file, ⟨"/app/Card.jsx"⟩)])) = true := by
    decide +kernel
  -- The paths and edges are read off the run; that they are the bundle is the theorem.
  obtain ⟨l, hl, hrun⟩ := exists_ok_of_any hrun
  obtain ⟨g, hg, hrun⟩ := exists_ok_of_any hrun
  obtain ⟨hpaths, hedges⟩ := of_decide_eq_true hrun
  exact ⟨l, g, hl, hg, hpaths, hedges, (build_closure fs file l).2.2 g hg⟩

end Stencil.Bundle
