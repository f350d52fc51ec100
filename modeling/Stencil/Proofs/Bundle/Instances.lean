import Stencil.Proofs.Lower.Marks

/-!
# No instance escapes its bundle

An element whose tag is rooted in an import needs the module that the import leads to. Each element
marks its import when it is lowered, wherever it stands and whether the import is declared before it
or after it, so the marks of a table cover its elements (`Table.MarksInstances`). The passes make no
element, so the marks still cover all of them (`MarksInstances.optimize`), and a bundle follows what
is marked in all of its modules.

The main theorem is `instances_bundled`: in every module of a bundle, the imports that elements are
rooted in are resolved, and they lead to modules of the bundle along its edges.
-/

namespace Stencil

open Lower (tagRoot)

/-! ### Marks -/

/-- Every import that the tag of some element is rooted in is marked as making elements. -/
def Table.MarksInstances (t : Table) : Prop :=
  ∀ c ∈ t.components.values, ∀ tag ∈ Node.tagsOfList c.body, ∀ d,
    t.dependencies.get? (tagRoot tag) = some d → d.instantiated = true

/-- The elements of a component are those of a candidate, and they have marked their imports when
they were made. -/
theorem marksInstances_ofSource {file : Option Path} {source : String} {l : Lowered}
    (h : Lowered.ofSource file source = .ok l) : l.table.MarksInstances := by
  obtain ⟨m, -, hm, htable, -, -⟩ := Lowered.ofSource_ok h
  intro c hc tag htag d hd
  rw [htable] at hc hd
  obtain ⟨k, hk, hbody⟩ := Lower.Harvest.exists_candidate_of_mem hc
  rw [hbody] at htag
  exact (Lower.instantiated_iff hm hd).2 ⟨k, hk, tag, htag, rfl⟩

namespace Table.MarksInstances

variable {t : Table}

/-- Optimizing a table keeps its marks: it takes tags away and adds none. -/
theorem optimize (h : t.MarksInstances) : t.optimize.MarksInstances := by
  intro c hc tag htag d hd
  obtain ⟨-, c₀, hc₀, rfl⟩ := Dict.mem_values_mapValues hc
  exact h c₀ hc₀ tag ((tags_optimize c₀).subset htag) d hd

/-- So it does, however often. -/
theorem iterate (h : t.MarksInstances) (runs : Nat) : (Table.optimize^[runs] t).MarksInstances := by
  induction runs with
  | zero => exact h
  | succ runs ih =>
    rw [Function.iterate_succ_apply']
    exact ih.optimize

end Table.MarksInstances

/-! ### Bundles -/

namespace Bundle

/-- A loaded file marks the imports that it uses. -/
theorem marksInstances_load {fs : Files} {p : Path} {m : Member} (h : load fs p = .ok m) :
    m.table.MarksInstances := by
  obtain ⟨source, l, -, hl, rfl⟩ := load_ok h
  obtain ⟨l₀, hl₀, -, htable⟩ := Lowered.optimized_ok hl
  change l.table.MarksInstances
  rw [htable]
  exact (marksInstances_ofSource hl₀).optimize

namespace Origin

variable {o : Origin} {files : List Path}

/-- A run that succeeds ends with a graph that has nothing left to do. -/
theorem grown_of_runs (hlaw : o.Lawful files) {g : Graph} {frontier : List Path}
    {r : Except Failure Graph} (h : o.Grown g frontier) (hruns : o.Runs g frontier r) {g' : Graph}
    (hr : r = .ok g') : o.Grown g' [] := by
  induction hruns with
  | done g =>
    cases hr
    exact h
  | failed _ _ => cases hr
  | next _ hround _ ih => exact ih ((advanced_of_round hlaw h hround).grown h) hr

/-- Every module of a bundle comes as it was loaded, and an import that makes elements is resolved
to a module of the bundle, with an edge to it. -/
theorem followed_of_grown {g : Graph} (h : o.Grown g []) {m : Member} (hm : m ∈ g.members) :
    ∃ m₀, o.moduleAt m.path = .ok m₀ ∧ m.table = m₀.table.settled (o.resolve m.path) ∧
      ∀ d ∈ m₀.table.dependencies.values, d.instantiated = true →
        ∃ p, o.resolve m.path d.source = .ok p ∧ g.contains p = true ∧ (m.path, p) ∈ g.edges := by
  -- With nothing in the frontier every module is complete, and the one that is looked up under the
  -- path of `m` is `m` itself.
  have hpath : m.path ∈ g.paths := List.mem_map.2 ⟨m, hm, rfl⟩
  obtain ⟨m₀, hmodule, hresolvable, hfound, hall⟩ := h.complete m.path hpath List.not_mem_nil
  have hself : g.member? m.path = some m := h.distinct.member?_iff.2 ⟨hm, Path.same_self _⟩
  have hsettled : m = o.settled m₀ := Option.some.inj (hself.symm.trans hfound)
  have hpath₀ : m₀.path = m.path := by
    rw [hsettled]
    rfl
  refine ⟨m₀, hmodule, ?_, fun d hd hinstantiated => ?_⟩
  · rw [← hpath₀]
    exact congrArg Member.table hsettled
  · obtain ⟨p, hp⟩ := hresolvable d hd hinstantiated
    have huses : o.Uses m₀ p := ⟨d, hd, hinstantiated, hp⟩
    have hedge : (m.path, p) ∈ g.edges :=
      (h.mem_edges _).2 ⟨m₀, hpath, List.not_mem_nil, hmodule, huses⟩
    exact ⟨p, hpath₀ ▸ hp, hall p huses, hedge⟩

end Origin

/-- What is built was grown from its root until nothing was left on the frontier. -/
theorem grown_build {fs : Files} {file : Path} {l : Lowered} {g : Graph}
    (h : build fs file l = .ok g) : (Origin.ofFiles fs file l).Grown g [] :=
  Origin.grown_of_runs (Origin.lawful_ofFiles fs file l) Origin.grown_root
    (Origin.runs_build fs file l) h

/-- The modules of a bundle mark their instances if its root does. -/
theorem marksInstances_moduleAt {fs : Files} {file : Path} {l : Lowered} {p : Path} {m : Member}
    (hroot : l.table.MarksInstances) (h : (Origin.ofFiles fs file l).moduleAt p = .ok m) :
    m.table.MarksInstances := by
  unfold Origin.moduleAt at h
  split at h
  · cases h
    exact hroot
  · exact marksInstances_load h

/-- **No instance escapes its bundle.** In the table of a source, lowered and run through the passes
any number of times, every import that an element is rooted in is marked as making elements. If the
bundle of this module can be built, then for every element of all its modules the import that the
element is rooted in is marked and resolved, to a module of the bundle that there is an edge to. -/
theorem instances_bundled {identity : Option Path} {source : String} {l : Lowered}
    (h : Lowered.ofSource identity source = .ok l) (runs : Nat) :
    (Table.optimize^[runs] l.table).MarksInstances ∧
      ∀ fs file g,
        build fs file ⟨Node.optimize^[runs] l.tree, Table.optimize^[runs] l.table⟩ = .ok g →
        ∀ m ∈ g.members, ∀ c ∈ m.table.components.values, ∀ tag ∈ Node.tagsOfList c.body, ∀ d,
          m.table.dependencies.get? (tagRoot tag) = some d →
          d.instantiated = true ∧ ∃ p, d.path = some p ∧ resolve fs m.path d.source = .ok p ∧
            g.contains p = true ∧ (m.path, p) ∈ g.edges := by
  have hmarks : (Table.optimize^[runs] l.table).MarksInstances :=
    (marksInstances_ofSource h).iterate runs
  refine ⟨hmarks, fun fs file g hg m hm c hc tag htag d hd => ?_⟩
  obtain ⟨m₀, hmodule, htable, hfollowed⟩ := Origin.followed_of_grown (grown_build hg) hm
  -- Settling the imports leaves the components as they are, and the marks as well.
  rw [htable] at hc hd
  have hsettled : ((m₀.table.settled (resolve fs m.path)).dependencies.get? (tagRoot tag))
      = (m₀.table.dependencies.get? (tagRoot tag)).map (·.settled (resolve fs m.path)) :=
    Dict.get?_mapValues _ _ _
  obtain ⟨d₀, hd₀, rfl⟩ := Option.map_eq_some_iff.1 (hsettled.symm.trans hd)
  have hinstantiated : d₀.instantiated = true :=
    marksInstances_moduleAt hmarks hmodule c hc tag htag d₀ hd₀
  obtain ⟨p, hp, hcontains, hedge⟩ :=
    hfollowed d₀ (Dict.mem_values_iff.2 ⟨_, hd₀⟩) hinstantiated
  have hpath : d₀.settled (resolve fs m.path) = { d₀ with path := some p } :=
    Dependency.settled_of_ok hinstantiated hp
  rw [hpath]
  exact ⟨hinstantiated, p, rfl, hp, hcontains, hedge⟩

/-- An element of a part of an import, made by an early return in a loop before the import is
declared. -/
theorem instances_bundled_dotted :
    let file : Path := ⟨"/app/List.jsx"⟩
    let list := "export default (\x7b items \x7d) => <ul>\x7bitems.map((item) => \x7b
        if (item.bare) return <Row.Bare />;
        return <li />;
      \x7d)\x7d</ul>; import Row from './Row';"
    let row := "export default () => <li />;"
    let fs : Files := { entries := [(["app"], .directory), (["app", "List.jsx"], .file (some list)),
      (["app", "Row.jsx"], .file (some row))] }
    ∃ l g m c d, Lowered.ofSource (some file) list = .ok l ∧
      build fs file ⟨l.tree.optimize, l.table.optimize⟩ = .ok g ∧ m ∈ g.members ∧
      c ∈ m.table.components.values ∧ "Row.Bare" ∈ Node.tagsOfList c.body ∧
      m.table.dependencies.get? "Row" = some d ∧ d.instantiated = true ∧
      ∃ p, d.path = some p ∧ resolve fs m.path d.source = .ok p ∧ g.contains p = true ∧
        (m.path, p) ∈ g.edges := by
  intro file list row fs
  have hrun : (Lowered.ofSource (some file) list).toOption.any (fun l =>
      (build fs file ⟨l.tree.optimize, l.table.optimize⟩).toOption.any fun g =>
        g.members.any fun m => m.table.components.values.any fun c =>
          decide ("Row.Bare" ∈ Node.tagsOfList c.body) &&
            (m.table.dependencies.get? "Row").isSome) = true := by
    decide +kernel
  obtain ⟨l, hl, hrun⟩ := exists_ok_of_any hrun
  obtain ⟨g, hg, hrun⟩ := exists_ok_of_any hrun
  obtain ⟨m, hm, hrun⟩ := List.any_eq_true.1 hrun
  obtain ⟨c, hc, hrun⟩ := List.any_eq_true.1 hrun
  obtain ⟨htag, hsome⟩ := Bool.and_eq_true_iff.1 hrun
  obtain ⟨d, hd⟩ := Option.isSome_iff_exists.1 hsome
  -- A tag with a member is looked up by its first part.
  have hroot : tagRoot "Row.Bare" = "Row" := by decide
  have hbundled := (instances_bundled hl 1).2 fs file g hg m hm c hc "Row.Bare"
    (of_decide_eq_true htag) d (hroot ▸ hd)
  exact ⟨l, g, m, c, d, hl, hg, hm, hc, of_decide_eq_true htag, hd, hbundled⟩

end Bundle

end Stencil
