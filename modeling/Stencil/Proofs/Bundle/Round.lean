import Stencil.Bundle.Graph
import Stencil.Proofs.Outcome

/-!
# The parts of a round

A bundle grows in rounds. Each part of a round is described by what it does to the look-ups of the
graph and to its edges, so that nothing later on has to look at the lists again:

* `resolveTable_ok` — resolving a table fills in where its used imports lead, and nothing else;
* `ResolvedRound`, `resolveRound_ok` — resolving the modules of a list of paths settles these
  modules, keeps all others, and asks for exactly the modules that they use;
* `newPaths_spec` — the new paths are those asked for that are not there yet, each of them once;
* `mapM_load_ok`, `foldl_add` — the modules at the new paths are loaded and come last;
* `mem_foldl_addEdge` — the edges asked for are added to the edges.

Paths are compared by their components throughout, so two spellings of one path count as one.
-/

namespace Stencil

/-- The dependency with the path that its specifier is resolved to, if some element is made with
it. -/
def Dependency.settled (resolve : String → Except Failure Path) (d : Dependency) : Dependency :=
  if d.instantiated then
    match resolve d.source with
    | .ok path => { d with path := some path }
    | .error _ => d
  else d

/-- The table with the paths of the imports that make elements. -/
def Table.settled (resolve : String → Except Failure Path) (t : Table) : Table :=
  { t with dependencies := t.dependencies.mapValues fun _ d => d.settled resolve }

/-- The import makes elements, and its specifier is resolved to the path. -/
def Dependency.LeadsTo (resolve : String → Except Failure Path) (d : Dependency)
    (q : Path) : Prop :=
  d.instantiated = true ∧ resolve d.source = .ok q

/-- Some import of the table that makes elements is resolved to the path. -/
def Table.Uses (resolve : String → Except Failure Path) (t : Table) (q : Path) : Prop :=
  ∃ d ∈ t.dependencies.values, d.LeadsTo resolve q

/-- All the imports of the table that make elements are resolved. -/
def Table.Resolvable (resolve : String → Except Failure Path) (t : Table) : Prop :=
  ∀ d ∈ t.dependencies.values, d.instantiated = true → ∃ q, resolve d.source = .ok q

section Settled

variable {resolve : String → Except Failure Path}

/-- A used import that resolves gets the path that its source leads to. -/
theorem Dependency.settled_of_ok {d : Dependency} {q : Path} (hd : d.instantiated = true)
    (hq : resolve d.source = .ok q) : d.settled resolve = { d with path := some q } := by
  rw [Dependency.settled, if_pos hd, hq]

/-- An import that is not used stays as it is. -/
theorem Dependency.settled_of_unused {d : Dependency} (hd : d.instantiated = false) :
    d.settled resolve = d := by
  rw [Dependency.settled, if_neg (Bool.eq_false_iff.1 hd)]

/-- Settling changes the path alone, so the import is as used and as resolved as before. -/
theorem Dependency.leadsTo_settled {d : Dependency} {q : Path} :
    (d.settled resolve).LeadsTo resolve q ↔ d.LeadsTo resolve q := by
  unfold Dependency.settled
  split
  · split <;> exact Iff.rfl
  · exact Iff.rfl

/-- The settled imports are those of the table, settled. -/
theorem Table.mem_values_settled {t : Table} {d : Dependency} :
    d ∈ (t.settled resolve).dependencies.values
      ↔ ∃ d₀ ∈ t.dependencies.values, d = d₀.settled resolve := by
  rw [Table.settled, Dict.values, Dict.entries_mapValues, List.map_map, List.mem_map, Dict.values]
  constructor
  · rintro ⟨e, he, rfl⟩
    exact ⟨e.2, List.mem_map.2 ⟨e, he, rfl⟩, rfl⟩
  · rintro ⟨_, hd₀, rfl⟩
    obtain ⟨e, he, rfl⟩ := List.mem_map.1 hd₀
    exact ⟨e, he, rfl⟩

/-- Settling changes neither marks nor sources, so the table uses the same files. -/
theorem Table.uses_settled {t : Table} {q : Path} :
    (t.settled resolve).Uses resolve q ↔ t.Uses resolve q := by
  constructor
  · rintro ⟨d, hd, hleads⟩
    obtain ⟨d₀, hd₀, rfl⟩ := Table.mem_values_settled.1 hd
    exact ⟨d₀, hd₀, Dependency.leadsTo_settled.1 hleads⟩
  · rintro ⟨d₀, hd₀, hleads⟩
    exact ⟨_, Table.mem_values_settled.2 ⟨d₀, hd₀, rfl⟩, Dependency.leadsTo_settled.2 hleads⟩

end Settled

namespace Bundle.Graph

/-! ### Resolving a table -/

section Table

variable {resolve : String → Except Failure Path}

/-- One entry and the rest: a used import is resolved first. -/
theorem resolveEntries_cons (name : String) (d : Dependency) (rest : List (String × Dependency)) :
    resolveEntries resolve ((name, d) :: rest)
      = (if d.instantiated then (resolve d.source).map fun path => { d with path := some path }
          else .ok d) >>= fun d' =>
        resolveEntries resolve rest >>= fun rest' => .ok ((name, d') :: rest') := by
  rw [resolveEntries]
  split <;> rfl

/-- Where all entries resolve, each of them is settled. -/
theorem resolveEntries_ok {es es' : List (String × Dependency)}
    (h : resolveEntries resolve es = .ok es') :
    es' = es.map (fun e => (e.1, e.2.settled resolve)) ∧
      ∀ e ∈ es, e.2.instantiated = true → ∃ q, resolve e.2.source = .ok q := by
  induction es generalizing es' with
  | nil =>
    cases h
    exact ⟨rfl, fun e he => absurd he List.not_mem_nil⟩
  | cons e rest ih =>
    obtain ⟨name, d⟩ := e
    rw [resolveEntries_cons] at h
    obtain ⟨d', hd', h⟩ := bind_eq_ok.1 h
    obtain ⟨rest', hrest', h⟩ := bind_eq_ok.1 h
    cases h
    obtain ⟨hmap, hall⟩ := ih hrest'
    rw [List.map_cons, ← hmap]
    -- A used entry goes through only if its specifier is resolved; an unused one always does.
    by_cases hd : d.instantiated = true
    · rw [if_pos hd] at hd'
      cases hq : resolve d.source with
      | error f =>
        rw [hq] at hd'
        cases hd'
      | ok q =>
        rw [hq] at hd'
        cases hd'
        rw [Dependency.settled_of_ok hd hq]
        exact ⟨rfl, List.forall_mem_cons.2 ⟨fun _ => ⟨q, hq⟩, hall⟩⟩
    · rw [if_neg hd] at hd'
      cases hd'
      rw [Dependency.settled_of_unused (Bool.eq_false_iff.2 hd)]
      exact ⟨rfl, List.forall_mem_cons.2 ⟨fun h => absurd h hd, hall⟩⟩

/-- Where resolving fails, some used import does not resolve. -/
theorem resolveEntries_error {es : List (String × Dependency)} {f : Failure}
    (h : resolveEntries resolve es = .error f) :
    ∃ e ∈ es, e.2.instantiated = true ∧ ∀ q, resolve e.2.source ≠ .ok q := by
  induction es with
  | nil => cases h
  | cons e rest ih =>
    obtain ⟨name, d⟩ := e
    rw [resolveEntries_cons] at h
    rcases bind_eq_error.1 h with h | ⟨d', -, h⟩
    · -- The first entry fails, so it is used and its specifier is not resolved.
      by_cases hd : d.instantiated = true
      · rw [if_pos hd] at h
        refine ⟨(name, d), List.mem_cons_self, hd, fun q hq => ?_⟩
        rw [hq] at h
        cases h
      · rw [if_neg hd] at h
        cases h
    · rcases bind_eq_error.1 h with h | ⟨rest', -, h⟩
      · obtain ⟨e, he, hfails⟩ := ih h
        exact ⟨e, List.mem_cons_of_mem _ he, hfails⟩
      · cases h

/-- **Resolving a table** fills in the paths of its used imports. -/
theorem resolveTable_ok {t t' : Table} (h : resolveTable resolve t = .ok t') :
    t' = t.settled resolve ∧ t.Resolvable resolve := by
  obtain ⟨es, hes, h⟩ := bind_eq_ok.1 h
  cases h
  obtain ⟨rfl, hall⟩ := resolveEntries_ok hes
  constructor
  · -- The keys are those of the table, so the dictionary of the entries has just these entries.
    have hdict : Dict.ofList (t.dependencies.entries.map fun e => (e.1, e.2.settled resolve))
        = t.dependencies.mapValues fun _ d => d.settled resolve :=
      Dict.ext (Dict.entries_ofList
        (t.dependencies.mapValues fun _ d => d.settled resolve).sorted)
    rw [hdict, Table.settled]
  · intro d hd hused
    obtain ⟨e, he, rfl⟩ := List.mem_map.1 hd
    exact hall e he hused

/-- So a table that fails to resolve is not resolvable. -/
theorem resolveTable_error {t : Table} {f : Failure} (h : resolveTable resolve t = .error f) :
    ¬t.Resolvable resolve := by
  rcases bind_eq_error.1 h with h | ⟨es, -, h⟩
  · obtain ⟨e, he, hused, hfails⟩ := resolveEntries_error h
    intro hall
    obtain ⟨q, hq⟩ := hall e.2 (List.mem_map.2 ⟨e, he, rfl⟩) hused
    exact hfails q hq
  · cases h

/-- A resolved table leads to the modules it uses. -/
theorem mem_targets_settled {t : Table} (h : t.Resolvable resolve) {q : Path} :
    q ∈ targets (t.settled resolve) ↔ t.Uses resolve q := by
  rw [targets, List.mem_filterMap]
  constructor
  · rintro ⟨d, hd, hq⟩
    obtain ⟨d₀, hd₀, rfl⟩ := Table.mem_values_settled.1 hd
    -- Paths are filled in for used imports only, and there the path is the resolved one.
    by_cases hused : d₀.instantiated = true
    · obtain ⟨q', hq'⟩ := h d₀ hd₀ hused
      rw [Dependency.settled_of_ok hused hq', if_pos hused] at hq
      obtain rfl : q' = q := Option.some.inj hq
      exact ⟨d₀, hd₀, hused, hq'⟩
    · rw [Dependency.settled_of_unused (Bool.eq_false_iff.2 hused), if_neg hused] at hq
      cases hq
  · rintro ⟨d₀, hd₀, hused, hq⟩
    refine ⟨_, Table.mem_values_settled.2 ⟨d₀, hd₀, rfl⟩, ?_⟩
    rw [Dependency.settled_of_ok hused hq]
    exact if_pos hused

end Table

/-! ### Look-ups -/

/-- The paths of the modules, in the order in which they were added. -/
def paths (g : Graph) : List Path :=
  g.members.map Member.path

/-- The index gives the first position of a path. -/
theorem position?_eq_findIdx? (g : Graph) (p : Path) :
    g.position? p = g.members.findIdx? (·.path.same p) := by
  rw [position?, g.indexed]
  change ((g.members.map Member.path).zipIdx.find? fun e => e.1.same p).map (fun e => e.2) = _
  exact (List.findIdx?_eq_fst_find?_zipIdx (p := fun q : Path => q.same p)).symm.trans
    List.findIdx?_map

/-- A look-up through the index finds what a search of the modules finds. -/
theorem member?_eq_find? (g : Graph) (p : Path) :
    g.member? p = g.members.find? (·.path.same p) := by
  rw [member?, position?_eq_findIdx?, List.find?_eq_bind_findIdx?_getElem?]

/-- A graph contains the files that it has a member at. -/
theorem contains_eq_isSome_member? (g : Graph) (p : Path) :
    g.contains p = (g.member? p).isSome := by
  rw [contains, position?_eq_findIdx?, List.findIdx?_isSome, member?_eq_find?,
    List.isSome_find?]

/-- At the position of a path stands a module with this path. -/
theorem exists_of_position? {g : Graph} {p : Path} {i : Nat} (h : g.position? p = some i) :
    ∃ m, g.members[i]? = some m ∧ m.path.same p = true := by
  rw [position?_eq_findIdx?, List.findIdx?_eq_some_iff_getElem] at h
  obtain ⟨hi, hsame, -⟩ := h
  exact ⟨g.members[i], List.getElem?_eq_getElem hi, hsame⟩

/-- The member at a path is one of the members, and its path is that file. -/
theorem member?_eq_some {g : Graph} {p : Path} {m : Member} (h : g.member? p = some m) :
    m ∈ g.members ∧ m.path.same p = true := by
  rw [member?_eq_find?] at h
  exact ⟨List.mem_of_find?_eq_some h, List.find?_some (p := fun m : Member => m.path.same p) h⟩

/-- A graph contains the files whose paths it lists. -/
theorem contains_iff {g : Graph} {p : Path} :
    g.contains p = true ↔ ∃ q ∈ g.paths, q.same p = true := by
  rw [contains_eq_isSome_member?, member?_eq_find?, List.find?_isSome, paths]
  constructor
  · rintro ⟨m, hm, hsame⟩
    exact ⟨m.path, List.mem_map.2 ⟨m, hm, rfl⟩, hsame⟩
  · rintro ⟨q, hq, hsame⟩
    obtain ⟨m, hm, rfl⟩ := List.mem_map.1 hq
    exact ⟨m, hm, hsame⟩

/-- What the graph contains is a matter of its paths. -/
theorem contains_congr {g g' : Graph} (h : g'.paths = g.paths) (p : Path) :
    g'.contains p = g.contains p := by
  rw [Bool.eq_iff_iff, contains_iff, contains_iff, h]

/-- Giving a member another table leaves the paths. -/
theorem paths_setTable (g : Graph) (p : Path) (t : Table) : (g.setTable p t).paths = g.paths := by
  unfold setTable
  split
  · rfl
  · exact paths_modify g.members _ t

/-- It leaves the edges. -/
theorem edges_setTable (g : Graph) (p : Path) (t : Table) : (g.setTable p t).edges = g.edges := by
  unfold setTable
  split <;> rfl

/-- The module of a path is looked up where it was, and there the table is replaced. -/
theorem member?_setTable {g : Graph} {p : Path} {i : Nat} (h : g.position? p = some i) (t : Table)
    (q : Path) : (g.setTable p t).member? q = (g.position? q).bind fun j =>
      g.members[j]?.map fun m => if i = j then { m with table := t } else m := by
  unfold setTable
  rw [h]
  refine congrArg (Option.bind _) (funext fun j => ?_)
  exact List.getElem?_modify _ i g.members j

/-- The member at the path has the new table. -/
theorem member?_setTable_same {g : Graph} {p : Path} {m : Member} (h : g.member? p = some m)
    (t : Table) : (g.setTable p t).member? p = some { m with table := t } := by
  obtain ⟨i, hi, hm⟩ := Option.bind_eq_some_iff.1 h
  rw [member?_setTable hi, hi, Option.bind_some, hm, Option.map_some, if_pos rfl]

/-- All other members keep theirs. -/
theorem member?_setTable_other {g : Graph} {p q : Path} (h : p.same q = false) (t : Table) :
    (g.setTable p t).member? q = g.member? q := by
  cases hi : g.position? p with
  | none => rw [setTable, hi]
  | some i =>
    rw [member?_setTable hi, member?]
    cases hj : g.position? q with
    | none => rfl
    | some j =>
      -- The module at one position has one path, so the positions are different.
      have hne : i ≠ j := by
        rintro rfl
        obtain ⟨m, hm, hp⟩ := exists_of_position? hi
        obtain ⟨n, hn, hq⟩ := exists_of_position? hj
        obtain rfl : m = n := Option.some.inj (hm.symm.trans hn)
        rw [Path.same_comm] at hp
        rw [Path.same_trans hp hq] at h
        cases h
      simp only [Option.bind_some, if_neg hne, Option.map_id']

/-! ### Different paths -/

/-- No two of the paths are the same. -/
def Distinct (ps : List Path) : Prop :=
  ps.Pairwise fun p q => p.same q = false

/-- Things with different paths are equal if their paths are the same. -/
theorem eq_of_pairwise {α : Type} (path : α → Path) {as : List α}
    (h : as.Pairwise fun a b => (path a).same (path b) = false) {a b : α} (ha : a ∈ as)
    (hb : b ∈ as) (hsame : (path a).same (path b) = true) : a = b := by
  induction as with
  | nil => cases ha
  | cons c rest ih =>
    obtain ⟨hc, hrest⟩ := List.pairwise_cons.1 h
    -- The head is apart from all behind it, so a pair of one path lies on one side.
    rcases List.mem_cons.1 ha with rfl | ha' <;> rcases List.mem_cons.1 hb with rfl | hb'
    · rfl
    · rw [hc b hb'] at hsame
      cases hsame
    · rw [Path.same_comm, hc a ha'] at hsame
      cases hsame
    · exact ih hrest ha' hb'

/-- Distinct paths to one file are one path. -/
theorem Distinct.eq_of_same {ps : List Path} (h : Distinct ps) {p q : Path} (hp : p ∈ ps)
    (hq : q ∈ ps) (hsame : p.same q = true) : p = q :=
  eq_of_pairwise id h hp hq hsame

/-- So no path stands twice among them. -/
theorem Distinct.nodup {ps : List Path} (h : Distinct ps) : ps.Nodup := by
  refine List.Pairwise.imp ?_ h
  rintro p q hpq rfl
  rw [Path.same_self] at hpq
  cases hpq

/-- The index has each module at its position, under every spelling of its path. -/
theorem Distinct.position?_iff {g : Graph} (h : Distinct g.paths) {p : Path} {i : Nat} :
    g.position? p = some i ↔ ∃ m, g.members[i]? = some m ∧ m.path.same p = true := by
  refine ⟨exists_of_position?, ?_⟩
  rintro ⟨m, hm, hsame⟩
  obtain ⟨hi, rfl⟩ := List.getElem?_eq_some_iff.1 hm
  rw [position?_eq_findIdx?, List.findIdx?_eq_some_iff_getElem]
  refine ⟨hi, hsame, fun j hj hsame' => ?_⟩
  -- An earlier module has another path.
  have hother := List.pairwise_iff_getElem.1 (List.pairwise_map.1 h) j i (Nat.lt_trans hj hi) hi hj
  rw [Path.same_comm] at hsame
  exact Bool.false_ne_true (hother.symm.trans (Path.same_trans hsame' hsame))

/-- A search finds the one module with a spelling of the path. -/
theorem Distinct.find?_iff {ms : List Member} (h : Distinct (ms.map Member.path)) {p : Path}
    {m : Member} : ms.find? (·.path.same p) = some m ↔ m ∈ ms ∧ m.path.same p = true := by
  refine ⟨fun hm => ⟨List.mem_of_find?_eq_some hm,
    List.find?_some (p := fun m : Member => m.path.same p) hm⟩, ?_⟩
  rintro ⟨hm, hsame⟩
  cases hfound : ms.find? (·.path.same p) with
  | none => exact absurd hsame (List.find?_eq_none.1 hfound m hm)
  | some n =>
    -- What is found is at the same path, so by distinctness it is this member.
    have hn : n ∈ ms := List.mem_of_find?_eq_some hfound
    have hsame' : n.path.same p = true :=
      List.find?_some (p := fun m : Member => m.path.same p) hfound
    rw [Path.same_comm] at hsame
    rw [eq_of_pairwise Member.path (List.pairwise_map.1 h) hn hm (Path.same_trans hsame' hsame)]

theorem Distinct.member?_iff {g : Graph} (h : Distinct g.paths) {p : Path} {m : Member} :
    g.member? p = some m ↔ m ∈ g.members ∧ m.path.same p = true := by
  rw [member?_eq_find?]
  exact h.find?_iff

/-! ### Resolving the modules of a round -/

variable {resolve : Path → String → Except Failure Path}

/-- What resolving the modules of some paths makes of a graph: the graph after it, and the imports
that were found. -/
structure ResolvedRound (resolve : Path → String → Except Failure Path) (g : Graph)
    (ps : List Path) (g' : Graph) (requests : List (Path × Path)) : Prop where
  paths_eq : g'.paths = g.paths
  edges_eq : g'.edges = g.edges
  settled : ∀ p ∈ ps, ∀ m, g.member? p = some m →
    m.table.Resolvable (resolve p) ∧
      g'.member? p = some { m with table := m.table.settled (resolve p) }
  kept : ∀ q, (∀ p ∈ ps, p.same q = false) → g'.member? q = g.member? q
  mem_requests : ∀ e, e ∈ requests ↔
    ∃ m, e.1 ∈ ps ∧ g.member? e.1 = some m ∧ m.table.Uses (resolve e.1) e.2

/-- A round over distinct paths resolves the table of each and asks for the files they use; the
induction is on the paths, and no step disturbs the tables of the others. -/
theorem resolveRound_ok {ps : List Path} (hps : Distinct ps) {g g' : Graph}
    {requests : List (Path × Path)} (h : resolveRound resolve g ps = .ok (g', requests)) :
    ResolvedRound resolve g ps g' requests := by
  induction ps generalizing g g' requests with
  | nil =>
    cases h
    exact ⟨rfl, rfl, fun p hp => absurd hp List.not_mem_nil, fun _ _ => rfl, fun e =>
      ⟨fun he => absurd he List.not_mem_nil, fun ⟨_, he, _⟩ => absurd he List.not_mem_nil⟩⟩
  | cons p rest ih =>
    obtain ⟨hp, hrest⟩ := List.pairwise_cons.1 hps
    rw [resolveRound] at h
    cases hm : g.member? p with
    | none =>
      rw [hm] at h
      have hround := ih hrest h
      refine ⟨hround.paths_eq, hround.edges_eq, ?_, ?_, ?_⟩
      · intro q hq m hqm
        rcases List.mem_cons.1 hq with rfl | hq
        · rw [hm] at hqm
          cases hqm
        · exact hround.settled q hq m hqm
      · exact fun q hq => hround.kept q fun p' hp' => hq p' (List.mem_cons_of_mem _ hp')
      · intro e
        rw [hround.mem_requests]
        constructor
        · rintro ⟨m, he, hem, huses⟩
          exact ⟨m, List.mem_cons_of_mem _ he, hem, huses⟩
        · rintro ⟨m, he, hem, huses⟩
          rcases List.mem_cons.1 he with heq | he
          · rw [heq, hm] at hem
            cases hem
          · exact ⟨m, he, hem, huses⟩
    | some m =>
      rw [hm] at h
      obtain ⟨table, htable, h⟩ := bind_eq_ok.1 h
      obtain ⟨⟨g₁, requests₁⟩, hround, h⟩ := bind_eq_ok.1 h
      cases h
      obtain ⟨rfl, hresolvable⟩ := resolveTable_ok htable
      have hround := ih hrest hround
      -- The rest of the round does not come back to `p`, and `p` does not disturb the rest.
      have hother : ∀ q ∈ rest, (g.setTable p (m.table.settled (resolve p))).member? q
          = g.member? q := fun q hq => member?_setTable_other (hp q hq) _
      refine ⟨hround.paths_eq.trans (paths_setTable g p _),
        hround.edges_eq.trans (edges_setTable g p _), ?_, ?_, ?_⟩
      · intro q hq n hqn
        rcases List.mem_cons.1 hq with rfl | hq
        · rw [hm] at hqn
          obtain rfl : m = n := Option.some.inj hqn
          refine ⟨hresolvable, ?_⟩
          rw [hround.kept q fun p' hp' => (Path.same_comm p' q).trans (hp p' hp')]
          exact member?_setTable_same hm _
        · exact hround.settled q hq n ((hother q hq).trans hqn)
      · intro q hq
        rw [hround.kept q fun p' hp' => hq p' (List.mem_cons_of_mem _ hp')]
        exact member?_setTable_other (hq p List.mem_cons_self) _
      · intro e
        rw [List.mem_append, List.mem_map, hround.mem_requests]
        constructor
        · rintro (⟨target, htarget, rfl⟩ | ⟨n, he, hen, huses⟩)
          · exact ⟨m, List.mem_cons_self, hm, (mem_targets_settled hresolvable).1 htarget⟩
          · exact ⟨n, List.mem_cons_of_mem _ he, (hother _ he).symm.trans hen, huses⟩
        · rintro ⟨n, he, hen, huses⟩
          rcases List.mem_cons.1 he with heq | he
          · rw [heq] at hen huses
            obtain rfl : m = n := Option.some.inj (hm.symm.trans hen)
            exact .inl ⟨e.2, (mem_targets_settled hresolvable).2 huses, by rw [← heq]⟩
          · exact .inr ⟨n, he, (hother _ he).trans hen, huses⟩

/-- A round fails only over a table that is not resolvable. -/
theorem resolveRound_error {ps : List Path} (hps : Distinct ps) {g : Graph} {f : Failure}
    (h : resolveRound resolve g ps = .error f) :
    ∃ p ∈ ps, ∃ m, g.member? p = some m ∧ ¬m.table.Resolvable (resolve p) := by
  induction ps generalizing g with
  | nil => cases h
  | cons p rest ih =>
    obtain ⟨hp, hrest⟩ := List.pairwise_cons.1 hps
    rw [resolveRound] at h
    cases hm : g.member? p with
    | none =>
      rw [hm] at h
      obtain ⟨q, hq, hfails⟩ := ih hrest h
      exact ⟨q, List.mem_cons_of_mem _ hq, hfails⟩
    | some m =>
      rw [hm] at h
      rcases bind_eq_error.1 h with h | ⟨table, -, h⟩
      · exact ⟨p, List.mem_cons_self, m, hm, resolveTable_error h⟩
      · rcases bind_eq_error.1 h with h | ⟨_, -, h⟩
        · obtain ⟨q, hq, n, hn, hfails⟩ := ih hrest h
          -- Settling one module leaves the modules at the other paths alone.
          rw [member?_setTable_other (hp q hq)] at hn
          exact ⟨q, List.mem_cons_of_mem _ hq, n, hn, hfails⟩
        · cases h

/-! ### New paths -/

/-- What `newPaths` makes of the paths `asked`. -/
structure NewPaths (g : Graph) (asked new : List Path) : Prop where
  distinct : Distinct new
  fresh : ∀ p ∈ new, g.contains p = false
  mem_asked : ∀ p ∈ new, p ∈ asked
  complete : ∀ q ∈ asked, g.contains q = true ∨ ∃ p ∈ new, p.same q = true

/-- The new paths are the files that were asked for and are not there, each of them once. -/
theorem newPaths_spec (g : Graph) (asked : List Path) : NewPaths g asked (g.newPaths asked) := by
  -- The paths seen so far are the new ones among those already asked for.
  suffices hfold : ∀ rest before seen, NewPaths g before seen →
      NewPaths g (before ++ rest) (rest.foldl
        (fun seen p => if g.contains p || seen.any (·.same p) then seen else seen ++ [p]) seen) from
    hfold asked [] [] ⟨List.Pairwise.nil, fun p hp => absurd hp List.not_mem_nil,
      fun p hp => absurd hp List.not_mem_nil, fun q hq => absurd hq List.not_mem_nil⟩
  intro rest
  induction rest with
  | nil =>
    intro before seen h
    rw [List.append_nil, List.foldl_nil]
    exact h
  | cons p rest ih =>
    intro before seen h
    rw [List.foldl_cons, List.append_cons]
    apply ih
    by_cases hknown : g.contains p = true ∨ ∃ q ∈ seen, q.same p = true
    · have hcond : (g.contains p || seen.any (·.same p)) = true := by
        rw [Bool.or_eq_true, List.any_eq_true]
        exact hknown
      rw [if_pos hcond]
      refine ⟨h.distinct, h.fresh, fun q hq => List.mem_append_left _ (h.mem_asked q hq), ?_⟩
      intro q hq
      rcases List.mem_append.1 hq with hq | hq
      · exact h.complete q hq
      · rw [List.mem_singleton.1 hq]
        exact hknown
    · have hcond : ¬(g.contains p || seen.any (·.same p)) = true := by
        rw [Bool.or_eq_true, List.any_eq_true]
        exact hknown
      rw [if_neg hcond]
      obtain ⟨hnew, hunseen⟩ := not_or.1 hknown
      refine ⟨?_, ?_, ?_, ?_⟩
      · refine List.pairwise_append.2 ⟨h.distinct, List.pairwise_singleton _ _, ?_⟩
        intro q hq r hr
        rw [List.mem_singleton.1 hr, Bool.eq_false_iff]
        exact fun hsame => hunseen ⟨q, hq, hsame⟩
      · intro q hq
        rcases List.mem_append.1 hq with hq | hq
        · exact h.fresh q hq
        · rw [List.mem_singleton.1 hq]
          exact Bool.eq_false_iff.2 hnew
      · intro q hq
        rcases List.mem_append.1 hq with hq | hq
        · exact List.mem_append_left _ (h.mem_asked q hq)
        · exact List.mem_append_right _ hq
      · intro q hq
        rcases List.mem_append.1 hq with hq | hq
        · refine (h.complete q hq).imp_right ?_
          rintro ⟨r, hr, hsame⟩
          exact ⟨r, List.mem_append_left _ hr, hsame⟩
        · rw [List.mem_singleton.1 hq]
          exact .inr ⟨p, List.mem_append_right _ (List.mem_singleton.2 rfl), Path.same_self p⟩

/-! ### Loading -/

section Load

variable {load : Path → Except Failure Member}

/-- Files that load one after the other give a member each, in that order. -/
theorem mapM_load_ok (hpath : ∀ p m, load p = .ok m → m.path = p) {ps : List Path}
    {ms : List Member} (h : ps.mapM load = .ok ms) :
    ms.map Member.path = ps ∧ ∀ m ∈ ms, load m.path = .ok m := by
  induction ps generalizing ms with
  | nil =>
    cases h
    exact ⟨rfl, fun m hm => absurd hm List.not_mem_nil⟩
  | cons p rest ih =>
    rw [List.mapM_cons] at h
    obtain ⟨m, hm, h⟩ := bind_eq_ok.1 h
    obtain ⟨others, hothers, h⟩ := bind_eq_ok.1 h
    cases h
    obtain ⟨hmap, hload⟩ := ih hothers
    -- A loaded file knows the path that it was loaded from.
    have hp : m.path = p := hpath p m hm
    refine ⟨by rw [List.map_cons, hp, hmap], List.forall_mem_cons.2 ⟨?_, hload⟩⟩
    rw [hp]
    exact hm

/-- Where loading stops, some file does not load. -/
theorem mapM_load_error {ps : List Path} {f : Failure} (h : ps.mapM load = .error f) :
    ∃ p ∈ ps, ∀ m, load p ≠ .ok m := by
  induction ps with
  | nil => cases h
  | cons p rest ih =>
    rw [List.mapM_cons] at h
    -- The first file fails, or one of the others does.
    rcases bind_eq_error.1 h with h | ⟨m, -, h⟩
    · refine ⟨p, List.mem_cons_self, fun m hm => ?_⟩
      rw [hm] at h
      cases h
    · rcases bind_eq_error.1 h with h | ⟨_, -, h⟩
      · obtain ⟨q, hq, hfails⟩ := ih h
        exact ⟨q, List.mem_cons_of_mem _ hq, hfails⟩
      · cases h

end Load

/-- Adding a module whose path is new. -/
theorem add_of_new {g : Graph} {m : Member} (h : g.contains m.path = false) :
    (g.add m).members = g.members ++ [m] ∧ (g.add m).edges = g.edges := by
  unfold add
  split
  · next hknown => exact absurd (h.symm.trans hknown) Bool.false_ne_true
  · exact ⟨rfl, rfl⟩

/-- New modules with different paths are all added, in their order. -/
theorem foldl_add {g : Graph} {ms : List Member} (hdistinct : Distinct (ms.map Member.path))
    (hnew : ∀ m ∈ ms, g.contains m.path = false) :
    (ms.foldl add g).members = g.members ++ ms ∧ (ms.foldl add g).edges = g.edges := by
  induction ms generalizing g with
  | nil => exact ⟨(List.append_nil _).symm, rfl⟩
  | cons m rest ih =>
    rw [List.map_cons] at hdistinct
    obtain ⟨hm, hrest⟩ := List.pairwise_cons.1 hdistinct
    obtain ⟨hmembers, hedges⟩ := add_of_new (hnew m List.mem_cons_self)
    -- Adding `m` does not make the path of a later module known, since that is another one.
    have hstill : ∀ n ∈ rest, (g.add m).contains n.path = false := by
      intro n hn
      rw [Bool.eq_false_iff, Ne, contains_iff, paths, hmembers, List.map_append]
      rintro ⟨q, hq, hsame⟩
      rcases List.mem_append.1 hq with hq | hq
      · exact Bool.eq_false_iff.1 (hnew n (List.mem_cons_of_mem _ hn))
          (contains_iff.2 ⟨q, hq, hsame⟩)
      · rw [List.map_singleton, List.mem_singleton] at hq
        rw [hq, hm n.path (List.mem_map.2 ⟨n, hn, rfl⟩)] at hsame
        cases hsame
    obtain ⟨hmembers', hedges'⟩ := ih hrest hstill
    rw [List.foldl_cons, hmembers', hedges', hmembers, hedges, List.append_assoc]
    exact ⟨rfl, rfl⟩

/-- A module that was there is still found. -/
theorem member?_append_old {g g' : Graph} {ms : List Member} (hg' : g'.members = g.members ++ ms)
    {p : Path} (h : g.contains p = true) : g'.member? p = g.member? p := by
  rw [contains_eq_isSome_member?, member?_eq_find?] at h
  rw [member?_eq_find?, hg', List.find?_append, Option.or_of_isSome h, member?_eq_find?]

/-- A new module is found under its path. -/
theorem member?_append_new {g g' : Graph} {ms : List Member} (hg' : g'.members = g.members ++ ms)
    (hdistinct : Distinct (ms.map Member.path)) {m : Member} (hm : m ∈ ms)
    (hnew : g.contains m.path = false) : g'.member? m.path = some m := by
  rw [contains_eq_isSome_member?, member?_eq_find?, Option.isSome_eq_false_iff] at hnew
  rw [member?_eq_find?, hg', List.find?_append, Option.or_of_isNone hnew]
  exact hdistinct.find?_iff.2 ⟨hm, Path.same_self _⟩

/-! ### Edges -/

/-- An inserted edge comes in, and no other. -/
theorem mem_insertEdge {a e : Path × Path} {es : List (Path × Path)} (h : e ∈ insertEdge a es) :
    e = a ∨ e ∈ es := by
  induction es with
  | nil => exact .inl (List.mem_singleton.1 h)
  | cons f rest ih =>
    rw [insertEdge] at h
    -- The edge goes in front, is there already, or goes further on.
    split at h
    · exact List.mem_cons.1 h
    · split at h
      · exact .inr h
      · rcases List.mem_cons.1 h with rfl | h
        · exact .inr List.mem_cons_self
        · exact (ih h).imp_right (List.mem_cons_of_mem _)

/-- No edge gets lost. -/
theorem subset_insertEdge (a : Path × Path) (es : List (Path × Path)) : es ⊆ insertEdge a es := by
  induction es with
  | nil => exact List.nil_subset _
  | cons f rest ih =>
    rw [insertEdge]
    split
    · exact List.subset_cons_self _ _
    · split
      · exact List.Subset.refl _
      · exact List.cons_subset_cons f ih

/-- An edge is put in unless another spelling of it is there. -/
theorem exists_sameEdge_insertEdge (a : Path × Path) (es : List (Path × Path)) :
    a ∈ insertEdge a es ∨ ∃ f ∈ es, sameEdge a f = true := by
  induction es with
  | nil => exact .inl List.mem_cons_self
  | cons f rest ih =>
    rw [insertEdge]
    -- An edge that is there already may be spelled differently, and is kept as it is.
    split
    · exact .inl List.mem_cons_self
    · split
      · next hsame => exact .inr ⟨f, List.mem_cons_self, hsame⟩
      · rcases ih with h | ⟨f', hf', hsame⟩
        · exact .inl (List.mem_cons_of_mem _ h)
        · exact .inr ⟨f', List.mem_cons_of_mem _ hf', hsame⟩

/-- Edges do not touch the members. -/
theorem members_foldl_addEdge (g : Graph) (requests : List (Path × Path)) :
    (requests.foldl (fun g edge => g.addEdge edge.1 edge.2) g).members = g.members := by
  induction requests generalizing g with
  | nil => rfl
  | cons e rest ih => rw [List.foldl_cons, ih, addEdge]

/-- All requests become edges, if no two edges are spellings of one. -/
theorem mem_foldl_addEdge {g : Graph} {requests : List (Path × Path)}
    (hspelling : ∀ e ∈ requests, ∀ f ∈ g.edges ++ requests, sameEdge e f = true → e = f)
    {e : Path × Path} :
    e ∈ (requests.foldl (fun g edge => g.addEdge edge.1 edge.2) g).edges
      ↔ e ∈ g.edges ∨ e ∈ requests := by
  induction requests generalizing g with
  | nil => exact ⟨.inl, fun h => h.resolve_right List.not_mem_nil⟩
  | cons a rest ih =>
    have hedges : ∀ f, f ∈ (g.addEdge a.1 a.2).edges ↔ f = a ∨ f ∈ g.edges := by
      intro f
      refine ⟨mem_insertEdge, ?_⟩
      rintro (rfl | hf)
      · rcases exists_sameEdge_insertEdge f g.edges with h | ⟨f', hf', hsame⟩
        · exact h
        · have heq : f = f' :=
            hspelling f List.mem_cons_self f' (List.mem_append_left _ hf') hsame
          rw [heq]
          exact subset_insertEdge _ g.edges hf'
      · exact subset_insertEdge a g.edges hf
    -- The edge just added was one of the requests, so no second spelling comes in with it.
    have hrest : ∀ e ∈ rest, ∀ f ∈ (g.addEdge a.1 a.2).edges ++ rest,
        sameEdge e f = true → e = f := by
      intro e he f hf hsame
      refine hspelling e (List.mem_cons_of_mem _ he) f ?_ hsame
      rw [List.mem_append, List.mem_cons]
      rcases List.mem_append.1 hf with hf | hf
      · exact ((hedges f).1 hf).elim (fun h => .inr (.inl h)) .inl
      · exact .inr (.inr hf)
    rw [List.foldl_cons, ih hrest, hedges, List.mem_cons]
    constructor
    · rintro ((h | h) | h)
      · exact .inr (.inl h)
      · exact .inl h
      · exact .inr (.inr h)
    · rintro (h | h | h)
      · exact .inl (.inr h)
      · exact .inl (.inl h)
      · exact .inr h

end Bundle.Graph

end Stencil
