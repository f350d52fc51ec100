import Mathlib.Data.List.Sort
import Stencil.Proofs.Bundle.Closure

/-!
# Linking modules in one table

A bundle links its modules through one table: the components of all the modules by name, and their
imports by the name they are bound to. A module has scopes of its own, and `Graph.meant?` says what
a tag stands for there. The two need not agree, since an import of one module is an import of all:
an element of a module can end up with a component that another module imports under its tag
(`not_linksLexically_captured_tag`), and no warning is given.

Merging without warnings does keep a good deal, though:

* the components of the merged table are those of the modules, if no two modules are of one file
  (`mergeAll_component`);
* an import that is resolved stays resolved to its file, whatever is merged over it
  (`exists_path_of_mergeAll`);
* so a look-up in a file finds what the module at its path exports, if the components that are filed
  under the path are those of the module (`find?_merged`).

The components of a bundle are so filed (`filedAt_build`), except that those of the root are filed
under the path that the root is given by. The main theorem is `resolve?_merged`: a tag stands for
what the module means by it, unless another module imports the tag and this one does not, or does so
under another exported name. What the module gives no meaning falls back to whichever component has
that name.
-/

namespace Stencil

/-! ### Dictionaries -/

namespace Dict

variable {α : Type}

/-- After inserting sorted entries a key has its new value, or the old one. -/
theorem get?_foldl_insert {es : List (String × α)} (h : es.Pairwise fun a b => a.1 < b.1)
    (d : Dict α) (key : String) :
    (es.foldl (fun d e => d.insert e.1 e.2) d).get? key = (es.lookup key).or (d.get? key) := by
  induction es generalizing d with
  | nil => rfl
  | cons e rest ih =>
    obtain ⟨hhead, hrest⟩ := List.pairwise_cons.1 h
    rw [List.foldl_cons, ih hrest, get?_insert, lookup_cons_eq_ite]
    by_cases hkey : key = e.1
    · -- All further keys are larger than this one.
      have hnone : rest.lookup key = none := by
        rw [List.lookup_eq_none_iff]
        intro e' he'
        exact bne_iff_ne.2 fun heq => String.lt_irrefl _ (heq ▸ hkey ▸ hhead e' he')
      rw [if_pos hkey, if_pos hkey, hnone, Option.none_or, Option.some_or]
    · rw [if_neg hkey, if_neg hkey]

/-- A value is then one of the inserted ones, or was there before. -/
theorem mem_values_foldl_insert {es : List (String × α)} {d : Dict α} {value : α}
    (h : value ∈ (es.foldl (fun d e => d.insert e.1 e.2) d).values) :
    value ∈ d.values ∨ ∃ e ∈ es, e.2 = value := by
  induction es generalizing d with
  | nil => exact .inl h
  | cons e rest ih =>
    rcases ih h with h | ⟨e', he', rfl⟩
    · obtain ⟨key, hkey⟩ := mem_values_iff.1 h
      -- After the first insertion a value is the inserted one or was there before.
      rw [get?_insert] at hkey
      split at hkey
      · exact .inr ⟨e, List.mem_cons_self, Option.some.inj hkey⟩
      · exact .inl (mem_values_iff.2 ⟨key, hkey⟩)
    · exact .inr ⟨e', List.mem_cons_of_mem _ he', rfl⟩

/-- The values of a mapped dictionary are values of the other one, mapped. -/
theorem mem_values_mapValues {β : Type} {f : String → α → β} {d : Dict α} {value : β}
    (h : value ∈ (d.mapValues f).values) : ∃ key, ∃ a ∈ d.values, f key a = value := by
  rw [values, entries_mapValues, List.map_map] at h
  obtain ⟨e, he, rfl⟩ := List.mem_map.1 h
  exact ⟨e.1, e.2, List.mem_map.2 ⟨e, he, rfl⟩, rfl⟩

/-- The first value that passes a check is that of the first such entry. -/
theorem find?_values (d : Dict α) (check : α → Bool) :
    d.values.find? check = (d.entries.filter fun x => check x.2).head?.map Prod.snd := by
  rw [values, List.find?_map, List.head?_filter]
  rfl

/-- The first value that passes a check depends on the entries that pass it, and on nothing else. -/
theorem find?_values_congr {d e : Dict α} {check check' : α → Bool}
    (h : ∀ key value, d.get? key = some value ∧ check value = true
      ↔ e.get? key = some value ∧ check' value = true) :
    d.values.find? check = e.values.find? check' := by
  have : Std.Irrefl fun a b : String × α => a.1 < b.1 := ⟨fun a => String.lt_irrefl a.1⟩
  have : Std.Antisymm fun a b : String × α => a.1 < b.1 :=
    ⟨fun _ _ hab hba => absurd hba (String.lt_asymm hab)⟩
  -- Both lists are sorted by their keys and have the same members, so they are the same list.
  have hfilter : d.entries.filter (fun x => check x.2)
      = e.entries.filter (fun x => check' x.2) := by
    refine List.Pairwise.eq_of_mem_iff (d.sorted.filter _) (e.sorted.filter _) fun x => ?_
    rw [List.mem_filter, List.mem_filter, ← get?_eq_some_iff, ← get?_eq_some_iff, h x.1 x.2]
  rw [find?_values, find?_values, hfilter]

end Dict

/-! ### Merging without warnings -/

namespace Table

section

variable {α β : Type} {add : Table → String → α → Table × List Warning}

/-- Adding entries one after the other collects the warnings in that order. -/
theorem addAll_cons (e : String × α) (rest : List (String × α)) (t : Table) :
    addAll add (e :: rest) t = ((addAll add rest (add t e.1 e.2).1).1,
      (add t e.1 e.2).2 ++ (addAll add rest (add t e.1 e.2).1).2) :=
  rfl

/-- What an addition leaves alone, all of them do. -/
theorem addAll_frame (view : Table → β) (hadd : ∀ t name a, view (add t name a).1 = view t)
    (es : List (String × α)) (t : Table) : view (addAll add es t).1 = view t := by
  induction es generalizing t with
  | nil => rfl
  | cons e rest ih => rw [addAll_cons, ih, hadd]

variable (view : Table → Dict α) (hadd : ∀ t name a, view (add t name a).1 = (view t).insert name a)

include hadd

/-- What is added ends up in the view of the table, later entries over earlier ones. -/
theorem addAll_view (es : List (String × α)) (t : Table) :
    view (addAll add es t).1 = es.foldl (fun d e => d.insert e.1 e.2) (view t) := by
  induction es generalizing t with
  | nil => rfl
  | cons e rest ih => rw [addAll_cons, ih, hadd, List.foldl_cons]

/-- Without a warning, each entry agrees with the one it takes the place of. -/
theorem addAll_silent {Agree : α → α → Prop}
    (hwarn : ∀ t name a b, (view t).get? name = some a → (add t name b).2 = [] → Agree a b)
    {es : List (String × α)} (hes : es.Pairwise fun a b => a.1 < b.1) {t : Table}
    (h : (addAll add es t).2 = []) {name : String} {a b : α} (ha : (view t).get? name = some a)
    (hb : (name, b) ∈ es) : Agree a b := by
  induction es generalizing t with
  | nil => cases hb
  | cons e rest ih =>
    obtain ⟨hhead, hrest⟩ := List.pairwise_cons.1 hes
    rw [addAll_cons, List.append_eq_nil_iff] at h
    rcases List.mem_cons.1 hb with heq | hb
    · subst heq
      exact hwarn t name a b ha h.1
    · -- The names behind the first entry are others, so it does not touch the entry for `name`.
      refine ih hrest h.2 ?_ hb
      rw [hadd, Dict.get?_insert, if_neg (String.ne_of_lt (hhead _ hb)).symm, ha]

end

/-- **A merge without warnings**: the second table wins where both have an entry, and what it wins
over is of the same file. -/
structure MergedSilently (t other r : Table) : Prop where
  component : ∀ name, r.components.get? name
    = (other.components.get? name).or (t.components.get? name)
  dependency : ∀ name, r.dependencies.get? name
    = (other.dependencies.get? name).or (t.dependencies.get? name)
  same_file : ∀ name a b, t.components.get? name = some a → other.components.get? name = some b →
    samePath a.file b.file = true
  same_path : ∀ name a b, t.dependencies.get? name = some a →
    other.dependencies.get? name = some b → a.path.isSome = true → samePath a.path b.path = true

/-- A component is replaced without a warning only by one of the same file. -/
theorem samePath_of_addComponent (t : Table) (name : String) (a b : Component)
    (ha : t.components.get? name = some a) (h : (t.addComponent name b).2 = []) :
    samePath a.file b.file = true := by
  simp only [addComponent, ha] at h
  by_contra hne
  rw [if_neg hne] at h
  cases h

/-- An import is replaced without a warning only by one that leads to the same file. -/
theorem samePath_of_addDependency (t : Table) (name : String) (a b : Dependency)
    (ha : t.dependencies.get? name = some a) (h : (t.addDependency name b).2 = [])
    (hpath : a.path.isSome = true) : samePath a.path b.path = true := by
  simp only [addDependency, ha, hpath, Bool.true_and] at h
  by_contra hne
  rw [Bool.not_eq_true] at hne
  rw [hne] at h
  cases h

/-- Merging without a warning gives a table that holds both. -/
theorem mergedSilently {t other : Table} (h : (t.merge other).2 = []) :
    MergedSilently t other (t.merge other).1 := by
  obtain ⟨hcomponents, hdependencies⟩ := List.append_eq_nil_iff.1 h
  -- The components are added first and the dependencies then, and neither changes the others.
  have hfirst : (addAll addComponent other.components.entries t).1.dependencies = t.dependencies :=
    addAll_frame Table.dependencies (fun _ _ _ => rfl) _ _
  have hlast : (t.merge other).1.components
      = (addAll addComponent other.components.entries t).1.components :=
    addAll_frame Table.components (fun _ _ _ => rfl) _ _
  constructor
  · intro name
    rw [hlast, addAll_view Table.components (fun _ _ _ => rfl),
      Dict.get?_foldl_insert other.components.sorted]
    rfl
  · intro name
    have hview : (t.merge other).1.dependencies = _ :=
      addAll_view Table.dependencies (fun _ _ _ => rfl) other.dependencies.entries _
    rw [hview, hfirst, Dict.get?_foldl_insert other.dependencies.sorted]
    rfl
  · intro name a b ha hb
    exact addAll_silent Table.components (fun _ _ _ => rfl) samePath_of_addComponent
      other.components.sorted hcomponents ha (Dict.get?_eq_some_iff.1 hb)
  · intro name a b ha hb
    exact addAll_silent Table.dependencies (fun _ _ _ => rfl) samePath_of_addDependency
      other.dependencies.sorted hdependencies (hfirst ▸ ha) (Dict.get?_eq_some_iff.1 hb)

/-! ### Merging many tables -/

/-- Merging tables one after the other collects the warnings in that order. -/
theorem mergeAll_cons (other : Table) (rest : List Table) (t : Table) :
    mergeAll (other :: rest) t = ((mergeAll rest (t.merge other).1).1,
      (t.merge other).2 ++ (mergeAll rest (t.merge other).1).2) :=
  rfl

/-- Two components under one name and of one file are one. -/
def Consistent (ts : List Table) : Prop :=
  ∀ t ∈ ts, ∀ u ∈ ts, ∀ name a b, t.components.get? name = some a →
    u.components.get? name = some b → samePath a.file b.file = true → a = b

/-- Tables among consistent ones are consistent. -/
theorem Consistent.mono {ts us : List Table} (h : Consistent ts) (hsubset : us ⊆ ts) :
    Consistent us :=
  fun t ht u hu => h t (hsubset ht) u (hsubset hu)

/-- Where consistent tables merge without warnings, the result has the components of both. -/
theorem MergedSilently.component_iff {t other r : Table} (h : MergedSilently t other r)
    (hconsistent : Consistent [t, other]) {name : String} {c : Component} :
    r.components.get? name = some c
      ↔ t.components.get? name = some c ∨ other.components.get? name = some c := by
  rw [h.component, Option.or_eq_some_iff]
  constructor
  · rintro (hc | ⟨-, hc⟩)
    · exact .inr hc
    · exact .inl hc
  · rintro (hc | hc)
    · -- Where both tables have the name, there was no warning, so it is one component of one file.
      cases hother : other.components.get? name with
      | none => exact .inr ⟨rfl, hc⟩
      | some b =>
        have hsame := h.same_file name c b hc hother
        have heq := hconsistent t (by simp) other (by simp) name c b hc hother hsame
        exact .inl (congrArg some heq.symm)
    · exact .inl hc

/-- **The components of tables merged without warnings** are those of the tables. -/
theorem mergeAll_component {ts : List Table} {t : Table} (hconsistent : Consistent (t :: ts))
    (h : (mergeAll ts t).2 = []) {name : String} {c : Component} :
    (mergeAll ts t).1.components.get? name = some c
      ↔ ∃ u ∈ t :: ts, u.components.get? name = some c := by
  induction ts generalizing t with
  | nil => simp [mergeAll]
  | cons other rest ih =>
    rw [mergeAll_cons, List.append_eq_nil_iff] at h
    have hmerged := mergedSilently h.1
    have hboth (name : String) (c : Component) : (t.merge other).1.components.get? name = some c
        ↔ t.components.get? name = some c ∨ other.components.get? name = some c :=
      hmerged.component_iff (hconsistent.mono (by simp))
    -- The first two tables, merged, have no component that neither of them has.
    have horigin (u : Table) (hu : u ∈ (t.merge other).1 :: rest) (name : String) (c : Component)
        (hc : u.components.get? name = some c) :
        ∃ v ∈ t :: other :: rest, v.components.get? name = some c := by
      rcases List.mem_cons.1 hu with rfl | hu
      · rcases (hboth name c).1 hc with hc | hc
        · exact ⟨t, by simp, hc⟩
        · exact ⟨other, by simp, hc⟩
      · exact ⟨u, by simp [hu], hc⟩
    have hnext : Consistent ((t.merge other).1 :: rest) := by
      intro u hu v hv name a b ha hb hsame
      obtain ⟨u', hu', ha⟩ := horigin u hu name a ha
      obtain ⟨v', hv', hb⟩ := horigin v hv name b hb
      exact hconsistent u' hu' v' hv' name a b ha hb hsame
    rw [mergeAll_cons, ih hnext h.2]
    constructor
    · rintro ⟨u, hu, hc⟩
      exact horigin u hu name c hc
    · rintro ⟨u, hu, hc⟩
      rcases List.mem_cons.1 hu with rfl | hu
      · exact ⟨_, List.mem_cons_self, (hboth name c).2 (.inl hc)⟩
      · rcases List.mem_cons.1 hu with rfl | hu
        · exact ⟨_, List.mem_cons_self, (hboth name c).2 (.inr hc)⟩
        · exact ⟨u, List.mem_cons_of_mem _ hu, hc⟩

/-- An import of merged tables is that of one of the tables. -/
theorem mergeAll_dependency {ts : List Table} {t : Table} (h : (mergeAll ts t).2 = [])
    {name : String} {d : Dependency} (hd : (mergeAll ts t).1.dependencies.get? name = some d) :
    ∃ u ∈ t :: ts, u.dependencies.get? name = some d := by
  induction ts generalizing t with
  | nil => exact ⟨t, List.mem_cons_self, hd⟩
  | cons other rest ih =>
    rw [mergeAll_cons, List.append_eq_nil_iff] at h
    obtain ⟨u, hu, hd⟩ := ih h.2 hd
    -- It is the import of a later table or of the first two merged, where the second one wins.
    rcases List.mem_cons.1 hu with rfl | hu
    · rw [(mergedSilently h.1).dependency, Option.or_eq_some_iff] at hd
      rcases hd with hd | ⟨-, hd⟩
      · exact ⟨other, by simp, hd⟩
      · exact ⟨t, by simp, hd⟩
    · exact ⟨u, by simp [hu], hd⟩

/-- **A resolved import stays resolved to its file** in tables merged without warnings. -/
theorem exists_path_of_mergeAll {ts : List Table} {t : Table} (h : (mergeAll ts t).2 = [])
    {u : Table} (hu : u ∈ t :: ts) {name : String} {d : Dependency} {p : Path}
    (hd : u.dependencies.get? name = some d) (hp : d.path = some p) :
    ∃ d' q, (mergeAll ts t).1.dependencies.get? name = some d' ∧ d'.path = some q
      ∧ q.same p = true := by
  induction ts generalizing t u d p with
  | nil =>
    rw [List.mem_singleton] at hu
    subst hu
    exact ⟨d, p, hd, hp, Path.same_self p⟩
  | cons other rest ih =>
    rw [mergeAll_cons, List.append_eq_nil_iff] at h
    have hmerged := mergedSilently h.1
    rw [mergeAll_cons]
    rcases List.mem_cons.1 hu with rfl | hu
    · cases hother : other.dependencies.get? name with
      | none =>
        refine ih h.2 List.mem_cons_self ?_ hp
        rw [hmerged.dependency, hother, hd, Option.none_or]
      | some e =>
        -- The import of `other` wins, and it is resolved to the same file.
        have hsame := hmerged.same_path name d e hd hother (hp ▸ rfl)
        rw [hp] at hsame
        cases he : e.path with
        | none => rw [he] at hsame; cases hsame
        | some r =>
          rw [he] at hsame
          have hget : (u.merge other).1.dependencies.get? name = some e := by
            rw [hmerged.dependency, hother, Option.some_or]
          obtain ⟨d', q, hd', hq, hqr⟩ := ih h.2 List.mem_cons_self hget he
          exact ⟨d', q, hd', hq, Path.same_trans hqr (Path.same_comm r p ▸ hsame)⟩
    · rcases List.mem_cons.1 hu with rfl | hu
      · refine ih h.2 List.mem_cons_self ?_ hp
        rw [hmerged.dependency, hd, Option.some_or]
      · exact ih h.2 (List.mem_cons_of_mem _ hu) hd hp

end Table

/-! ### What the modules mean -/

namespace Bundle.Graph

/-- What the module at a path exports under the name that the dependency imports. -/
def exported? (g : Graph) (path : Path) (d : Dependency) : Option Component :=
  (g.member? path).bind fun m => m.table.components.values.find? d.asksFor

/-- The component of that name, by the modules. -/
def declared? (g : Graph) (name : String) : Option Component :=
  g.members.findSome? fun m => m.table.component? name

/-- **The component that a module means by a tag**: if it imports the tag as a component, what the
module exports that stands at the path of the import, and otherwise its own component. -/
def meant? (g : Graph) (m : Member) (tag : String) : Option Component :=
  match (m.table.dependencies.get? tag).bind fun d => d.path.map fun path => (d, path) with
  | some (d, path) => g.exported? path d
  | none => m.table.component? tag

/-- The elements in the components of each module stand for what the module means by them. -/
def LinksLexically (g : Graph) : Prop :=
  ∀ m ∈ g.members, ∀ c ∈ m.table.components.values, ∀ tag ∈ Node.tagsOfList c.body,
    g.merged.1.resolve? tag = g.meant? m tag

/-- The components of one file belong to one module. -/
def FromDifferentFiles (g : Graph) : Prop :=
  ∀ m ∈ g.members, ∀ n ∈ g.members, ∀ a ∈ m.table.components.values,
    ∀ b ∈ n.table.components.values, samePath a.file b.file = true → m = n

/-- The components that are recorded as created from the file at the path are those of the module
that stands there. -/
def FiledAt (g : Graph) (path : Path) : Prop :=
  ∀ m ∈ g.members, ∀ c ∈ m.table.components.values,
    samePath c.file (some path) = m.path.same path

/-- Whatever module imports the tag as a component, this one does, under the same exported name. -/
def SharesImports (g : Graph) (m : Member) (tag : String) : Prop :=
  ∀ n ∈ g.members, ∀ d ∈ n.table.dependencies.get? tag, d.path.isSome = true →
    ∃ e ∈ m.table.dependencies.get? tag, e.path.isSome = true ∧ e.imported = d.imported

instance (g : Graph) (m : Member) (tag : String) : Decidable (g.SharesImports m tag) :=
  inferInstanceAs (Decidable (∀ n ∈ g.members, ∀ d ∈ n.table.dependencies.get? tag,
    d.path.isSome = true → ∃ e ∈ m.table.dependencies.get? tag, e.path.isSome = true ∧
      e.imported = d.imported))

/-- **A tag can be captured**: a module that imports `Card` from one file makes the element `Card`
in another module stand for it, although that module has a component `Card` of its own. No warning
is given. -/
theorem not_linksLexically_captured_tag :
    let file : Path := ⟨"/app/main.jsx"⟩
    let main := "import Card from './Tile'; import Panel from './Panel';
      export default () => <p><Card /><Panel /></p>;"
    let tile := "export default () => <i />;"
    let panel := "const Card = () => <b />; export default () => <Card />;"
    let fs : Files := { entries := [(["app"], .directory), (["app", "main.jsx"], .file (some main)),
      (["app", "Tile.jsx"], .file (some tile)), (["app", "Panel.jsx"], .file (some panel))] }
    ∃ l g, Lowered.optimized (some file) main = .ok l ∧ build fs file l = .ok g ∧
      g.merged.2 = [] ∧ ¬ g.LinksLexically := by
  intro file main tile panel fs
  -- Some element gets a component of another file than its module means.
  have hrun : (Lowered.optimized (some file) main).toOption.any (fun l =>
      (build fs file l).toOption.any fun g =>
        g.merged.2.isEmpty && g.members.any fun m => m.table.components.values.any fun c =>
          (Node.tagsOfList c.body).any fun tag =>
            (g.merged.1.resolve? tag).map (·.file) != (g.meant? m tag).map (·.file)) = true := by
    decide +kernel
  obtain ⟨l, hl, hrun⟩ := exists_ok_of_any hrun
  obtain ⟨g, hg, hrun⟩ := exists_ok_of_any hrun
  obtain ⟨hsilent, hrun⟩ := Bool.and_eq_true_iff.1 hrun
  obtain ⟨m, hm, hrun⟩ := List.any_eq_true.1 hrun
  obtain ⟨c, hc, hrun⟩ := List.any_eq_true.1 hrun
  obtain ⟨tag, htag, hrun⟩ := List.any_eq_true.1 hrun
  refine ⟨l, g, hl, hg, List.isEmpty_iff.1 hsilent, fun hlinks => ?_⟩
  rw [hlinks m hm c hc tag htag, bne_self_eq_false] at hrun
  cases hrun

variable {g : Graph}

/-- A tag that is imported means what the file exports under that name. -/
theorem meant?_of_import {m : Member} {tag : String} {d : Dependency} {path : Path}
    (hd : m.table.dependencies.get? tag = some d) (hpath : d.path = some path) :
    g.meant? m tag = g.exported? path d := by
  rw [meant?, hd, Option.bind_some, hpath, Option.map_some]

/-- Any other tag means a component of the member itself. -/
theorem meant?_of_no_import {m : Member} {tag : String}
    (h : ∀ d, m.table.dependencies.get? tag = some d → d.path = none) :
    g.meant? m tag = m.table.component? tag := by
  rw [meant?]
  cases hd : m.table.dependencies.get? tag with
  | none => rfl
  | some d => rw [Option.bind_some, h d hd, Option.map_none]

section

variable (hfiles : g.FromDifferentFiles) (hsilent : g.merged.2 = [])

include hfiles hsilent

/-- **The components of a bundle that merges without warnings** are those of its modules. -/
theorem component_merged {name : String} {c : Component} :
    g.merged.1.components.get? name = some c
      ↔ ∃ m ∈ g.members, m.table.components.get? name = some c := by
  -- Two modules with components of one file are one module, and a table has one component for each
  -- name.
  have hconsistent : Table.Consistent (Table.empty :: g.members.map Member.table) := by
    intro t ht u hu name a b ha hb hsame
    rcases List.mem_cons.1 ht with rfl | ht
    · cases ha
    rcases List.mem_cons.1 hu with rfl | hu
    · cases hb
    obtain ⟨m, hm, rfl⟩ := List.mem_map.1 ht
    obtain ⟨n, hn, rfl⟩ := List.mem_map.1 hu
    have hmn : m = n := hfiles m hm n hn a (Dict.mem_values_iff.2 ⟨name, ha⟩) b
      (Dict.mem_values_iff.2 ⟨name, hb⟩) hsame
    subst hmn
    exact Option.some.inj (ha.symm.trans hb)
  rw [merged, Table.mergeAll_component hconsistent hsilent]
  constructor
  · rintro ⟨t, ht, hc⟩
    rcases List.mem_cons.1 ht with rfl | ht
    · cases hc
    · obtain ⟨m, hm, rfl⟩ := List.mem_map.1 ht
      exact ⟨m, hm, hc⟩
  · rintro ⟨m, hm, hc⟩
    exact ⟨m.table, List.mem_cons_of_mem _ (List.mem_map.2 ⟨m, hm, rfl⟩), hc⟩

/-- The merged table knows a name by the declaration of the first member that has one. -/
theorem component?_merged (name : String) : g.merged.1.component? name = g.declared? name := by
  -- Without warnings no name has two components, so the first one declared is the only one.
  cases hdeclared : g.declared? name with
  | none =>
    rw [declared?, List.findSome?_eq_none_iff] at hdeclared
    refine Option.eq_none_iff_forall_ne_some.2 fun c hc => ?_
    obtain ⟨m, hm, hc⟩ := (component_merged hfiles hsilent).1 hc
    exact Option.some_ne_none c (hc.symm.trans (hdeclared m hm))
  | some c =>
    obtain ⟨m, hm, hc⟩ := List.exists_of_findSome?_eq_some hdeclared
    exact (component_merged hfiles hsilent).2 ⟨m, hm, hc⟩

/-- Without a conflict that is the declaration of any member that has one. -/
theorem declared?_of_member {m : Member} (hm : m ∈ g.members) {name : String} {c : Component}
    (hc : m.table.component? name = some c) : g.declared? name = some c := by
  rw [← component?_merged hfiles hsilent]
  exact (component_merged hfiles hsilent).2 ⟨m, hm, hc⟩

end

section

variable {path : Path} (hdistinct : Distinct g.paths) (hfiled : g.FiledAt path)

include hdistinct hfiled

/-- A component that is imported from the path belongs to the module that stands there. -/
theorem member?_of_isImported {m : Member} (hm : m ∈ g.members) {c : Component}
    (hc : c ∈ m.table.components.values) {d : Dependency}
    (himported : Table.isImported d path c = true) : g.member? path = some m := by
  have hpath : m.path.same path = true :=
    (hfiled m hm c hc).symm.trans (Bool.and_eq_true_iff.1 himported).1
  exact hdistinct.member?_iff.2 ⟨hm, hpath⟩

omit hdistinct in
/-- Among the components of the module at the path all are filed there, so the file need not be
asked for. -/
theorem isImported_eq {m : Member} (hm : g.member? path = some m) (d : Dependency) {c : Component}
    (hc : c ∈ m.table.components.values) : Table.isImported d path c = d.asksFor c := by
  obtain ⟨hmem, hsame⟩ := member?_eq_some hm
  rw [Table.isImported, hfiled m hmem c hc, hsame, Bool.true_and]

/-- **A look-up in a file finds what the module at its path exports.** -/
theorem find?_merged (hfiles : g.FromDifferentFiles) (hsilent : g.merged.2 = []) (d : Dependency) :
    g.merged.1.components.values.find? (Table.isImported d path) = g.exported? path d := by
  have hmerged {name : String} {c : Component} : g.merged.1.components.get? name = some c
      ↔ ∃ m ∈ g.members, m.table.components.get? name = some c :=
    component_merged hfiles hsilent
  unfold exported?
  cases hm : g.member? path with
  | none =>
    -- Nothing stands at the path, so nothing is filed under it.
    rw [Option.bind_none, List.find?_eq_none]
    intro c hc himported
    obtain ⟨name, hname⟩ := Dict.mem_values_iff.1 hc
    obtain ⟨n, hn, hname⟩ := hmerged.1 hname
    have hvalue := Dict.mem_values_iff.2 ⟨name, hname⟩
    have hfound := member?_of_isImported hdistinct hfiled hn hvalue himported
    rw [hm] at hfound
    cases hfound
  | some m =>
    -- What is imported from the path is in the one module that stands there.
    refine Dict.find?_values_congr fun name a => ?_
    rw [hmerged]
    constructor
    · rintro ⟨⟨n, hn, hna⟩, himported⟩
      have hvalue := Dict.mem_values_iff.2 ⟨name, hna⟩
      have hfound := member?_of_isImported hdistinct hfiled hn hvalue himported
      obtain rfl : m = n := Option.some.inj (hm.symm.trans hfound)
      exact ⟨hna, isImported_eq hfiled hm d hvalue ▸ himported⟩
    · rintro ⟨hma, hasked⟩
      have hvalue := Dict.mem_values_iff.2 ⟨name, hma⟩
      exact ⟨⟨m, (member?_eq_some hm).1, hma⟩, (isImported_eq hfiled hm d hvalue).trans hasked⟩

end

/-! ### What the merged table makes of the imports -/

/-- An import of the merged table is one of a member. -/
theorem dependency_merged (hsilent : g.merged.2 = []) {tag : String} {d : Dependency}
    (hd : g.merged.1.dependencies.get? tag = some d) :
    ∃ n ∈ g.members, n.table.dependencies.get? tag = some d := by
  obtain ⟨t, ht, hd⟩ := Table.mergeAll_dependency hsilent hd
  rcases List.mem_cons.1 ht with rfl | ht
  · cases hd
  · obtain ⟨n, hn, rfl⟩ := List.mem_map.1 ht
    exact ⟨n, hn, hd⟩

/-- Whether an import leads to a file does not depend on how the file is spelled. -/
theorem isImported_congr {d e : Dependency} {p q : Path} (himported : d.imported = e.imported)
    (hsame : p.same q = true) : Table.isImported d p = Table.isImported e q := by
  have hpath (file : Option Path) : samePath file (some p) = samePath file (some q) := by
    rw [Bool.eq_iff_iff, samePath_iff, samePath_iff, Option.map_some, Option.map_some,
      Path.same_iff.1 hsame]
  funext c
  rw [Table.isImported, Table.isImported, hpath, Dependency.asksFor, Dependency.asksFor, himported]

/-- An import that the module shares with all others is looked up in its file. -/
theorem imported?_merged_of_import (hsilent : g.merged.2 = []) {m : Member} (hm : m ∈ g.members)
    {tag : String} (hshares : g.SharesImports m tag) {d : Dependency} {path : Path}
    (hd : m.table.dependencies.get? tag = some d) (hpath : d.path = some path) :
    g.merged.1.imported? tag
      = g.merged.1.components.values.find? (Table.isImported d path) := by
  -- The merged table has an import under the tag. It need not be this member's, but leads to the
  -- same file and asks for the same name.
  obtain ⟨e, q, he, hq, hsame⟩ := Table.exists_path_of_mergeAll hsilent
    (List.mem_cons_of_mem _ (List.mem_map.2 ⟨m, hm, rfl⟩)) hd hpath
  obtain ⟨n, hn, hne⟩ := dependency_merged hsilent he
  obtain ⟨d', hd', -, himported⟩ := hshares n hn e hne (hq ▸ rfl)
  have hdd' : d' = d := Option.some.inj (hd'.symm.trans hd)
  rw [hdd'] at himported
  rw [Table.imported?, merged, he, Option.bind_some, hq, Option.bind_some,
    isImported_congr himported.symm hsame]

/-- A tag that no module imports as a component is not looked up in a file. -/
theorem imported?_merged_of_no_import (hsilent : g.merged.2 = []) {m : Member} {tag : String}
    (hshares : g.SharesImports m tag)
    (hnone : ∀ d, m.table.dependencies.get? tag = some d → d.path = none) :
    g.merged.1.imported? tag = none := by
  refine Option.bind_eq_none_iff.2 fun e he => ?_
  obtain ⟨n, hn, hne⟩ := dependency_merged hsilent he
  cases hq : e.path with
  | none => rfl
  | some q =>
    -- An import that does resolve is shared with `m`, whose own does not.
    obtain ⟨d, hd, hpath, -⟩ := hshares n hn e hne (hq ▸ rfl)
    rw [hnone d hd] at hpath
    cases hpath

end Bundle.Graph

/-! ### Lowered sources -/

/-- What lowering a source comes to: the table of its declarations, and a tree that holds the
default component of this table. -/
theorem Lowered.ofSource_ok {file : Option Path} {source : String} {l : Lowered}
    (h : Lowered.ofSource file source = .ok l) :
    ∃ m c, Script.Module.parse? source = some m ∧ l.table = (Lower.harvest file m).table file ∧
      l.table.default? = some c ∧ l.tree = .root [c.node] := by
  unfold ofSource at h
  split at h
  · next m hm =>
    unfold ofModule ofTable at h
    split at h
    · next c hc =>
      cases h
      exact ⟨m, c, hm, rfl, hc, rfl⟩
    · cases h
  · cases h

/-- A source that is optimized was lowered first, and its tree and its table are optimized apart. -/
theorem Lowered.optimized_ok {file : Option Path} {source : String} {l : Lowered}
    (h : Lowered.optimized file source = .ok l) :
    ∃ l₀, Lowered.ofSource file source = .ok l₀ ∧ l.tree = l₀.tree.optimize ∧
      l.table = l₀.table.optimize := by
  unfold Lowered.optimized at h
  obtain ⟨l₀, hl₀, rfl⟩ := map_eq_ok.1 h
  exact ⟨l₀, hl₀, rfl, rfl⟩

/-! ### The files of a bundle -/

/-- Every component of a module is of the file that the module was lowered with. -/
theorem Lower.Harvest.file_of_mem {h : Harvest} {file : Option Path} {c : Component}
    (hc : c ∈ (h.components file).values) : c.file = file := by
  obtain ⟨name, c₀, hc₀, rfl⟩ := Dict.mem_values_mapValues hc
  -- The entry under a name is one of the candidates, and each of them is of the file.
  have hfile : c₀.file = file := by
    rcases Dict.mem_values_foldl_insert hc₀ with hnone | ⟨e, he, rfl⟩
    · cases hnone
    · obtain ⟨candidate, -, rfl⟩ := List.mem_map.1 he
      rfl
  unfold withRequired
  split
  · exact hfile
  · exact hfile

/-- The components of a module are of its file. -/
theorem Lowered.file_of_mem {file : Option Path} {source : String} {l : Lowered}
    (h : Lowered.optimized file source = .ok l) {c : Component}
    (hc : c ∈ l.table.components.values) : c.file = file := by
  obtain ⟨l₀, hl₀, -, htable⟩ := optimized_ok h
  obtain ⟨m, -, -, htable₀, -, -⟩ := ofSource_ok hl₀
  rw [htable] at hc
  -- Optimizing keeps the file, so it is the one that lowering gives to each component.
  obtain ⟨-, c₀, hc₀, rfl⟩ := Dict.mem_values_mapValues hc
  rw [htable₀] at hc₀
  have hfile : c₀.file = file := Lower.Harvest.file_of_mem hc₀
  exact hfile

namespace Bundle

theorem file_of_load {fs : Files} {p : Path} {m : Member} (h : load fs p = .ok m) {c : Component}
    (hc : c ∈ m.table.components.values) : c.file = some p := by
  obtain ⟨source, l, -, hl, rfl⟩ := load_ok h
  exact Lowered.file_of_mem hl hc

/-- A module at the file of the root, as it was spelled, is the root. -/
theorem same_root_of_same_file {fs : Files} {file : Path} {l : Lowered} {g : Graph}
    (hg : build fs file l = .ok g) {m : Member} (hm : m ∈ g.members)
    (hfile : m.path.same file = true) :
    m.path.same (Origin.ofFiles fs file l).root.path = true := by
  obtain ⟨p, hp, hpm⟩ := ((isBundle_build hg).contains_iff m.path).1
    (Graph.contains_iff.2 ⟨m.path, List.mem_map.2 ⟨m, hm, rfl⟩, Path.same_self _⟩)
  have hpfile : p.same file = true := Path.same_trans hpm hfile
  have hproot : p.same (Origin.ofFiles fs file l).root.path = true := by
    rcases hp.root_or_resolved with hroot | ⟨p', s, hs⟩
    · exact hroot ▸ Path.same_self _
    · -- A resolved path is canonical, and it is that of the file that it spells.
      obtain ⟨location, rfl, hdirect, -⟩ := resolve_ok hs
      change (Files.pathOf location).same ((fs.canonical file).toOption.getD file) = true
      cases hcanonical : fs.canonical file with
      | error cause => exact hpfile
      | ok q =>
        rw [Files.canonical_of_same hdirect (Path.same_comm file _ ▸ hpfile) hcanonical]
        exact Path.same_self _
  exact Path.same_trans (Path.same_comm p _ ▸ hpm) hproot

/-- Where the components of a module of a bundle are from: the file of the root as it was spelled,
or a path that is no spelling of it. -/
theorem file_of_build {fs : Files} {file : Path} {source : String} {l : Lowered} {g : Graph}
    (hl : Lowered.optimized (some file) source = .ok l) (hg : build fs file l = .ok g) {m : Member}
    (hm : m ∈ g.members) {c : Component} (hc : c ∈ m.table.components.values) :
    let root := (Origin.ofFiles fs file l).root.path
    (m.path.same root = true ∧ c.file = some file) ∨
      (m.path.same file = false ∧ c.file = some m.path) := by
  intro root
  -- Settling the imports leaves the components as they were loaded.
  obtain ⟨m₀, hmodule, -, hsettled⟩ := (isBundle_build hg).as_loaded m hm
  have hc₀ : c ∈ m₀.table.components.values := by
    rw [hsettled] at hc
    exact hc
  unfold Origin.moduleAt at hmodule
  split at hmodule
  · next hsame =>
    cases hmodule
    exact .inl ⟨hsame, Lowered.file_of_mem hl hc₀⟩
  · next hsame =>
    have hfile : m.path.same file = false :=
      Bool.eq_false_iff.2 fun h => hsame (same_root_of_same_file hg hm h)
    exact .inr ⟨hfile, file_of_load hmodule hc₀⟩

/-- **The modules of a bundle are of different files.** -/
theorem fromDifferentFiles_build {fs : Files} {file : Path} {source : String} {l : Lowered}
    {g : Graph} (hl : Lowered.optimized (some file) source = .ok l)
    (hg : build fs file l = .ok g) : g.FromDifferentFiles := by
  intro m hm n hn a ha b hb hsame
  have hdistinct := (isBundle_build hg).distinct
  refine Graph.eq_of_pairwise Member.path (List.pairwise_map.1 hdistinct) hm hn ?_
  have hsymm {p q : Path} (h : p.same q = true) : q.same p = true := Path.same_comm p q ▸ h
  -- A module is the root, by some spelling of its path, or its components are of the file at its
  -- path.
  rcases file_of_build hl hg hm ha with ⟨hmroot, hafile⟩ | ⟨hmfile, hafile⟩ <;>
    rcases file_of_build hl hg hn hb with ⟨hnroot, hbfile⟩ | ⟨hnfile, hbfile⟩ <;>
    rw [hafile, hbfile] at hsame
  · exact Path.same_trans hmroot (hsymm hnroot)
  · exact absurd (hsymm hsame) (ne_true_of_eq_false hnfile)
  · exact absurd hsame (ne_true_of_eq_false hmfile)
  · exact hsame

/-- **Where the modules of a bundle stand, their components are filed**, if only the root is given
by a spelling of its canonical path. Elsewhere than at the root they are in any case. -/
theorem filedAt_build {fs : Files} {file : Path} {source : String} {l : Lowered} {g : Graph}
    (hl : Lowered.optimized (some file) source = .ok l) (hg : build fs file l = .ok g) {p : Path}
    (hp : g.contains p = true)
    (hroot : (Origin.ofFiles fs file l).root.path.same file = true ∨
      (Origin.ofFiles fs file l).root.path.same p = false) : g.FiledAt p := by
  intro m hm c hc
  rcases file_of_build hl hg hm hc with ⟨hmroot, hfile⟩ | ⟨-, hfile⟩
  · rw [hfile]
    change file.same p = m.path.same p
    rcases hroot with hspelled | helsewhere
    · exact Path.same_congr (Path.same_trans (Path.same_comm file _ ▸ hspelled)
        (Path.same_comm m.path _ ▸ hmroot)) p
    · -- The root is elsewhere, so its file is: a module at its file would be the root.
      rw [Path.same_congr hmroot p, helsewhere]
      refine Bool.eq_false_iff.2 fun hsame => ?_
      obtain ⟨q, hq, hqp⟩ := Graph.contains_iff.1 hp
      obtain ⟨n, hn, rfl⟩ := List.mem_map.1 hq
      have hnfile : n.path.same file = true :=
        Path.same_trans hqp (Path.same_comm file p ▸ hsame)
      have hnroot := same_root_of_same_file hg hn hnfile
      rw [Path.same_comm] at hnroot
      rw [Path.same_trans hnroot hqp] at helsewhere
      cases helsewhere
  · rw [hfile]
    rfl

namespace Graph

/-- **Linking without warnings.** Let the modules have different paths and different files, and let
them merge without warnings. Let a module `m` import a tag from where the components are filed, if
it imports the tag as a component at all, and let every module that does share the import with `m`.
Then the tag stands for what `m` means by it, and otherwise for the component of that name, if some
module has one. -/
theorem resolve?_merged {g : Graph} (hdistinct : Distinct g.paths) (hfiles : g.FromDifferentFiles)
    (hsilent : g.merged.2 = []) {m : Member} (hm : m ∈ g.members) {tag : String}
    (hfiled : ∀ d ∈ m.table.dependencies.get? tag, ∀ path ∈ d.path, g.FiledAt path)
    (hshares : g.SharesImports m tag) :
    g.merged.1.resolve? tag = (g.meant? m tag).or (g.declared? tag) := by
  -- An import comes before a component of the same name, in the merged table and for `m`.
  rw [Table.resolve?, component?_merged hfiles hsilent]
  by_cases himport : ∃ d path, m.table.dependencies.get? tag = some d ∧ d.path = some path
  · obtain ⟨d, path, hd, hpath⟩ := himport
    rw [imported?_merged_of_import hsilent hm hshares hd hpath,
      find?_merged hdistinct (hfiled d hd path hpath) hfiles hsilent, meant?_of_import hd hpath]
  · have hnone (d : Dependency) (hd : m.table.dependencies.get? tag = some d) : d.path = none :=
      Option.eq_none_iff_forall_ne_some.2 fun path hpath => himport ⟨d, path, hd, hpath⟩
    rw [imported?_merged_of_no_import hsilent hshares hnone, meant?_of_no_import hnone,
      Option.none_or]
    -- Without the import the tag is looked up by name, first of all in `m` itself.
    cases hown : m.table.component? tag with
    | none => rw [Option.none_or]
    | some c => rw [declared?_of_member hfiles hsilent hm hown, Option.some_or]

/-- Two modules that import one file under one name, by two spellings. The file of the root is given
by a relative path. -/
theorem resolve?_merged_shared_alias :
    let file : Path := ⟨"main.jsx"⟩
    let main := "import Card from './Tile'; import Panel from './Panel';
      export default () => <p><Card /><Panel /></p>;"
    let tile := "export default () => <i />;"
    let panel := "import Card from './Tile.jsx'; export default () => <Card />;"
    let fs : Files := {
      entries := [(["app"], .directory), (["app", "main.jsx"], .file (some main)),
        (["app", "Tile.jsx"], .file (some tile)), (["app", "Panel.jsx"], .file (some panel))]
      current := ⟨"/app"⟩ }
    ∃ l g m, Lowered.optimized (some file) main = .ok l ∧ build fs file l = .ok g ∧
      Distinct g.paths ∧ g.FromDifferentFiles ∧ g.merged.2 = [] ∧
      m ∈ g.members ∧ m.path = ⟨"/app/Panel.jsx"⟩ ∧
      (∀ d ∈ m.table.dependencies.get? "Card", ∀ path ∈ d.path, g.FiledAt path) ∧
      g.SharesImports m "Card" ∧
      (g.merged.1.resolve? "Card").map (·.file) = some (some ⟨"/app/Tile.jsx"⟩) ∧
      g.merged.1.resolve? "Card" = (g.meant? m "Card").or (g.declared? "Card") := by
  intro file main tile panel fs
  have hrun : (Lowered.optimized (some file) main).toOption.any (fun l =>
      (build fs file l).toOption.any fun g => g.members.any fun m =>
        decide (g.merged.2 = [] ∧ m.path = ⟨"/app/Panel.jsx"⟩ ∧ g.SharesImports m "Card" ∧
          g.contains ⟨"/app/Tile.jsx"⟩ = true ∧
          (∀ d ∈ m.table.dependencies.get? "Card", ∀ path ∈ d.path, path = ⟨"/app/Tile.jsx"⟩) ∧
          (g.merged.1.resolve? "Card").map (·.file) = some (some ⟨"/app/Tile.jsx"⟩))) = true := by
    decide +kernel
  obtain ⟨l, hl, hrun⟩ := exists_ok_of_any hrun
  obtain ⟨g, hg, hrun⟩ := exists_ok_of_any hrun
  obtain ⟨m, hm, hrun⟩ := List.any_eq_true.1 hrun
  obtain ⟨hsilent, hpath, hshares, hcontains, hleads, hfile⟩ := of_decide_eq_true hrun
  have hdistinct : Distinct g.paths := (isBundle_build hg).distinct
  have hfiles : g.FromDifferentFiles := fromDifferentFiles_build hl hg
  -- The import leads to another module than the root, which is spelled otherwise than there.
  have helsewhere : ((fs.canonical file).toOption.getD file).same ⟨"/app/Tile.jsx"⟩ = false := by
    decide +kernel
  have hfiled : ∀ d ∈ m.table.dependencies.get? "Card", ∀ path ∈ d.path, g.FiledAt path := by
    intro d hd path hp
    obtain rfl := hleads d hd path hp
    exact filedAt_build hl hg hcontains (.inr helsewhere)
  exact ⟨l, g, m, hl, hg, hdistinct, hfiles, hsilent, hm, hpath, hfiled, hshares, hfile,
    resolve?_merged hdistinct hfiles hsilent hm hfiled hshares⟩

end Graph

end Bundle

end Stencil
