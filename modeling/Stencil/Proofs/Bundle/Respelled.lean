import Stencil.Proofs.Bundle.Linked
import Stencil.Proofs.Bundle.Rerooted
import Stencil.Proofs.Layout.Agreement
import Stencil.Proofs.Outcome

/-!
# Compiling a file under two spellings of its path

The root of a bundle stands at its canonical path, but its components are of the file as it was
spelled. An import is looked up by its canonical path, so an import that leads back to the root
finds nothing if the spelling is not that path: the template depends on the spelling
(`compile_back_import_differs`).

There is a second way in which the spelling can show. A default export without a name is named after
its file, and if the path is spelled without a slash, a tag can be spelled like this name.

Apart from these two the spelling does not matter, relative paths and links included. Let `f` and
`g` lead to one file.

* The bundles differ in the root alone, and so do the linked tables: `Table.Relinked` says what
  becomes of the components and of the imports.
* If neither an import nor a tag tells the spellings apart (`Lowered.Indifferent`), then every tag
  of an element stands for the same component in both tables, up to its name and its file
  (`Relinked.resolve?`).
* Names and files do not get into a layout, so the templates are the same.

The main theorem is `compile_respelled`.
-/

namespace Stencil

open Lower (anonymousName)

/-! ### Merged tables -/

namespace Table

/-- The second table is laid over the first. -/
theorem dependencies_merge (t other : Table) :
    (t.merge other).1.dependencies
      = other.dependencies.entries.foldl (fun d e => d.insert e.1 e.2) t.dependencies := by
  have hfirst : (addAll addComponent other.components.entries t).1.dependencies = t.dependencies :=
    addAll_frame Table.dependencies (fun _ _ _ => rfl) _ _
  have hview : (t.merge other).1.dependencies = _ :=
    addAll_view Table.dependencies (fun _ _ _ => rfl) other.dependencies.entries _
  rw [hview, hfirst]

/-- Of the tables that have an entry, the last one counts. -/
theorem get?_mergeAll {α : Type} (view : Table → Dict α)
    (hview : ∀ t u, view (merge t u).1
      = (view u).entries.foldl (fun d e => d.insert e.1 e.2) (view t))
    (ts : List Table) (t : Table) (key : String) :
    (view (mergeAll ts t).1).get? key
      = (ts.reverse.findSome? fun u => (view u).get? key).or ((view t).get? key) := by
  induction ts generalizing t with
  | nil => rfl
  | cons u ts ih =>
    -- The table merged later wins, on both sides: its entry stands before that of the rest.
    have hmerge : (view (merge t u).1).get? key = ((view u).get? key).or ((view t).get? key) := by
      rw [hview, Dict.get?_foldl_insert (view u).sorted]
      rfl
    rw [mergeAll_cons, ih, hmerge, List.reverse_cons, List.findSome?_append, Option.or_assoc,
      List.findSome?_singleton]

end Table

namespace Bundle

/-- The entry of the last of the modules that have one. -/
def latest? {α : Type} (view : Table → Dict α) (ms : List Member) (key : String) : Option α :=
  ms.reverse.findSome? fun m => (view m.table).get? key

/-- The latest declaration of a name is one of a member. -/
theorem exists_of_latest? {α : Type} {view : Table → Dict α} {ms : List Member} {key : String}
    {a : α} (h : latest? view ms key = some a) :
    ∃ m ∈ ms, (view m.table).get? key = some a := by
  obtain ⟨m, hm, ha⟩ := List.exists_of_findSome?_eq_some h
  exact ⟨m, List.mem_reverse.1 hm, ha⟩

/-- The root comes first, so it has a say where no other module does. -/
theorem Graph.get?_merged {α : Type} {view : Table → Dict α}
    (hview : ∀ t u, view (Table.merge t u).1
      = (view u).entries.foldl (fun d e => d.insert e.1 e.2) (view t))
    (hempty : view Table.empty = Dict.empty) {g : Graph} {m₀ : Member} {ms : List Member}
    (hmembers : g.members = m₀ :: ms) (key : String) :
    (view g.merged.1).get? key = (latest? view ms key).or ((view m₀.table).get? key) := by
  -- Later members win, so the merge looks from the last one back to the root.
  unfold merged latest?
  rw [Table.get?_mergeAll view hview, hmembers, hempty, Dict.get?_empty, Option.or_none,
    List.map_cons, List.reverse_cons, List.findSome?_append, List.findSome?_singleton,
    ← List.map_reverse, List.findSome?_map]
  rfl

end Bundle

/-! ### Linked tables -/

/-- What an import is looked up by. -/
def Dependency.aim (d : Dependency) : Option Path × Option String :=
  (d.path, d.imported)

/-- **The tables of a bundle under two spellings** `f` and `g` of the file at `root`. -/
structure Table.Relinked (f g root : Path) (t t' : Table) : Prop where
  component : ∀ name, t'.components.get? (respelling f g name)
    = (t.components.get? name).map (·.respell f g)
  dependency : ∀ name, (t'.dependencies.get? name).map Dependency.aim
    = (t.dependencies.get? name).map Dependency.aim
  /-- A component is one of the root, or it is of another file and its name stays as it is. -/
  origin : ∀ name c, t.components.get? name = some c →
    (c.file = some f ∧ Declarable f name) ∨
      ∃ q, c.file = some q ∧ q.same root = false ∧ respelling f g name = name
  /-- Of the paths that imports lead to, the spellings are those of the root alone. -/
  leads : ∀ d ∈ t.dependencies.values, ∀ p, d.path = some p →
    f.same p = true ∨ g.same p = true → p = root

/-- The import does not tell the spellings apart: if it leads back to the root, then both spellings
are those of its path or neither is, and it does not ask for the name that a default export without
a name gets from them. -/
def Dependency.Indifferent (f g root : Path) (d : Dependency) : Prop :=
  d.path = some root → f.same root = g.same root ∧ d.imported ≠ some (anonymousName (some f)) ∧
    d.imported ≠ some (anonymousName (some g))

instance (f g root : Path) (d : Dependency) : Decidable (d.Indifferent f g root) :=
  inferInstanceAs (Decidable (d.path = some root → f.same root = g.same root ∧
    d.imported ≠ some (anonymousName (some f)) ∧ d.imported ≠ some (anonymousName (some g))))

/-- **Nothing in a bundle tells the spellings apart**: no import does, and no tag is a name that a
default export without a name gets from them. -/
structure Lowered.Indifferent (f g root : Path) (b : Lowered) : Prop where
  imports : ∀ d ∈ b.table.dependencies.values, d.Indifferent f g root
  tags : ∀ tag ∈ b.tree.tags ++ b.table.tags,
    tag ≠ anonymousName (some f) ∧ tag ≠ anonymousName (some g)

instance (f g root : Path) (b : Lowered) : Decidable (b.Indifferent f g root) :=
  decidable_of_iff ((∀ d ∈ b.table.dependencies.values, d.Indifferent f g root) ∧
    ∀ tag ∈ b.tree.tags ++ b.table.tags,
      tag ≠ anonymousName (some f) ∧ tag ≠ anonymousName (some g))
    ⟨fun h => ⟨h.1, h.2⟩, fun h => ⟨h.imports, h.tags⟩⟩

section Relinked

variable {f g root : Path} {t t' : Table}

/-- An import that asks for none of the two generated names asks for a component under both
spellings or under neither. -/
theorem Dependency.asksFor_respell {d : Dependency}
    (hf : d.imported ≠ some (anonymousName (some f)))
    (hg : d.imported ≠ some (anonymousName (some g))) (c : Component) :
    d.asksFor (c.respell f g) = d.asksFor c := by
  unfold Dependency.asksFor
  cases himported : d.imported with
  | none => exact c.isDefault_respell
  | some name =>
    have hname : respelling f g name = name :=
      respelling_of_ne (fun heq => hf (heq ▸ himported)) fun heq => hg (heq ▸ himported)
    have hiff : respelling f g c.signature.name = name ↔ c.signature.name = name := by
      nth_rewrite 1 [← hname]
      exact (respelling f g).injective.eq_iff
    have hbeq : (respelling f g c.signature.name == name) = (c.signature.name == name) := by
      rw [Bool.eq_iff_iff, beq_iff_eq, beq_iff_eq, hiff]
    -- A component of another file is not renamed at all.
    by_cases hfile : c.file = some f
    · rw [Component.respell_of_file hfile]
      exact hbeq
    · rw [Component.respell_of_file_ne hfile]

/-- A component is what an import leads to under both spellings or under neither. -/
theorem isImported_respell {d : Dependency} {p : Path} (hpath : d.path = some p)
    (hleads : f.same p = true ∨ g.same p = true → p = root) (hd : d.Indifferent f g root)
    (c : Component) :
    Table.isImported d p (c.respell f g) = Table.isImported d p c := by
  by_cases hfile : c.file = some f
  · have hfile' : (c.respell f g).file = some g := by
      rw [Component.respell_of_file hfile]
    rw [Table.isImported, Table.isImported, hfile, hfile']
    change (g.same p && _) = (f.same p && _)
    by_cases hp : p = root
    · -- The import leads back, so the spellings match alike, and its name is neither of the two.
      obtain ⟨hsame, hnotf, hnotg⟩ := hd (hp ▸ hpath)
      rw [hp, hsame, Dependency.asksFor_respell hnotf hnotg c]
    · -- Neither spelling is one of the path.
      have hf : f.same p = false := Bool.eq_false_iff.2 fun h => hp (hleads (.inl h))
      have hg : g.same p = false := Bool.eq_false_iff.2 fun h => hp (hleads (.inr h))
      rw [hf, hg, Bool.false_and, Bool.false_and]
  · rw [Component.respell_of_file_ne hfile]

namespace Table.Relinked

variable (h : t.Relinked f g root t')

include h

/-- A look-up in a file finds components of this file only, so their names keep their order. -/
theorem find?_imported {d : Dependency} {p : Path} (hpath : d.path = some p)
    (hleads : f.same p = true ∨ g.same p = true → p = root) (hd : d.Indifferent f g root) :
    t'.components.values.find? (isImported d p)
      = (t.components.values.find? (isImported d p)).map (·.respell f g) := by
  refine Dict.find?_values_rename h.component
    (fun c _ => isImported_respell hpath hleads hd c) ?_
  intro j a k b ha hca hb hcb hlt
  have hfile {c : Component} (hc : isImported d p c = true) : samePath c.file (some p) = true :=
    (Bool.and_eq_true_iff.1 hc).1
  -- What is found in the file of the root is not found in another file.
  have hmixed {c c' : Component} {q : Path} (hc : isImported d p c = true)
      (hc' : isImported d p c' = true) (hcf : c.file = some f) (hcq : c'.file = some q) :
      q.same root = true := by
    have hcp := hfile hc
    have hcp' := hfile hc'
    rw [hcf] at hcp
    rw [hcq] at hcp'
    exact hleads (.inl hcp) ▸ hcp'
  rcases h.origin j a ha with ⟨haf, hj⟩ | ⟨q, haq, hq, hj⟩
  · rcases h.origin k b hb with ⟨-, hk⟩ | ⟨q, hbq, hq, -⟩
    · exact respelling_lt hj hk hlt
    · exact absurd (hmixed hca hcb haf hbq) (Bool.eq_false_iff.1 hq)
  · rcases h.origin k b hb with ⟨hbf, -⟩ | ⟨-, -, -, hk⟩
    · exact absurd (hmixed hcb hca hbf haq) (Bool.eq_false_iff.1 hq)
    · rwa [hj, hk]

/-- A tag is imported under both spellings, and means the respelled component. -/
theorem imported? (himports : ∀ d ∈ t.dependencies.values, d.Indifferent f g root)
    (tag : String) :
    t'.imported? tag = (t.imported? tag).map (·.respell f g) := by
  have haim := h.dependency tag
  unfold Table.imported?
  cases hd : t.dependencies.get? tag with
  | none =>
    rw [hd, Option.map_none, Option.map_eq_none_iff] at haim
    rw [haim]
    rfl
  | some d =>
    rw [hd, Option.map_some, Option.map_eq_some_iff] at haim
    obtain ⟨d', hd', haim⟩ := haim
    -- The import leads to the file it led to, and asks it for the same name; only the key changes.
    obtain ⟨hpath, himported⟩ := Prod.mk.inj haim
    rw [hd', Option.bind_some, Option.bind_some, hpath]
    cases hp : d.path with
    | none => rfl
    | some p =>
      have hmem : d ∈ t.dependencies.values := Dict.mem_values_iff.2 ⟨tag, hd⟩
      have hsame : isImported d' p = isImported d p :=
        Bundle.Graph.isImported_congr himported (Path.same_self p)
      rw [Option.bind_some, Option.bind_some, hsame]
      exact h.find?_imported hp (h.leads d hmem p hp) (himports d hmem)

/-- **What a tag stands for under two spellings.** -/
theorem resolve? (himports : ∀ d ∈ t.dependencies.values, d.Indifferent f g root)
    {tag : String} (htag : respelling f g tag = tag) :
    t'.resolve? tag = (t.resolve? tag).map (·.respell f g) := by
  have hcomponent : t'.component? tag = (t.component? tag).map (·.respell f g) := by
    have hget := h.component tag
    rwa [htag] at hget
  unfold Table.resolve?
  rw [h.imported? himports, hcomponent, Option.map_or]

end Table.Relinked

end Relinked

/-! ### Bundles -/

/-- Different files give different names to a default export without one. -/
theorem Lower.anonymousName_injective {p q : Path}
    (h : anonymousName (some p) = anonymousName (some q)) : p = q := by
  -- The names have one beginning, and the path is the rest.
  have htext : p.text.toList = q.text.toList := by
    have hlist := congrArg String.toList h
    unfold anonymousName at hlist
    rw [String.toList_append, String.toList_append] at hlist
    exact List.append_cancel_left hlist
  obtain ⟨text⟩ := p
  obtain ⟨text'⟩ := q
  exact congrArg Path.mk (String.toList_injective htext)

/-- A settled import has the path that its source leads to. -/
theorem Dependency.path_settled {resolve : String → Except Failure Path} {d : Dependency}
    {p : Path} (hnone : d.path = none) (h : (d.settled resolve).path = some p) :
    resolve d.source = .ok p := by
  unfold Dependency.settled at h
  -- Only a used import that resolves gets a path.
  split at h
  · split at h
    · next q hq =>
      cases h
      exact hq
    · rw [hnone] at h
      cases h
  · rw [hnone] at h
    cases h

namespace Bundle

section Members

variable {fs : Files} {f root : Path} {source : String} {l : Lowered} {G : Graph}
  (hf : fs.canonical f = .ok root) (hl : Lowered.optimized (some f) source = .ok l)
  (hG : build fs f l = .ok G)

include hf in
/-- The root of a bundle is the lowered module at the path it was given. -/
theorem root_ofFiles : (Origin.ofFiles fs f l).root = ⟨root, l.tree, l.table⟩ := by
  unfold Origin.ofFiles
  rw [hf]
  rfl

include hf hG in
/-- A module of a bundle is the root, or it was loaded from its path. -/
theorem source_of_member {m : Member} (hm : m ∈ G.members) :
    (m.path.same root = true ∧ m.table = l.table.settled (resolve fs m.path)) ∨
      (m.path.same root = false ∧ ∃ s l₀, Lowered.optimized (some m.path) s = .ok l₀ ∧
        m.table = l₀.table.settled (resolve fs m.path)) := by
  obtain ⟨m₀, hmodule, -, hsettled⟩ := (isBundle_build hG).as_loaded m hm
  have hpath : m₀.path = m.path := by
    rw [hsettled]
    rfl
  have htable : m.table = m₀.table.settled (resolve fs m.path) := by
    rw [← hpath]
    exact congrArg Member.table hsettled
  unfold Origin.moduleAt at hmodule
  rw [root_ofFiles hf] at hmodule
  -- A path that is the root is answered with the module at hand, any other one is loaded.
  split at hmodule
  · next hsame =>
    cases hmodule
    exact .inl ⟨hsame, htable⟩
  · next hsame =>
    obtain ⟨s, l₀, -, hl₀, rfl⟩ := load_ok hmodule
    exact .inr ⟨Bool.eq_false_iff.2 hsame, s, l₀, hl₀, htable⟩

include hf hl hG in
/-- The components of a module that is not the root are of its own file, which is not `f`. -/
theorem component_of_other {m : Member} (hm : m ∈ G.members) (hother : m.path.same root = false)
    {name : String} {c : Component} (hc : m.table.components.get? name = some c) :
    c.file = some m.path ∧ Declarable m.path name ∧ m.path.same f = false := by
  have hnot : ¬m.path.same root = true := Bool.eq_false_iff.1 hother
  have hfile := file_of_build hl hG hm (Dict.mem_values_iff.2 ⟨name, hc⟩)
  rw [root_ofFiles hf] at hfile
  obtain ⟨hdiffers, hfile⟩ := hfile.resolve_left fun h => hnot h.1
  -- A member that is not the root was loaded from a source of its own.
  rcases source_of_member hf hG hm with ⟨hroot, -⟩ | ⟨-, s, l₀, hl₀, htable⟩
  · exact absurd hroot hnot
  · rw [htable] at hc
    exact ⟨hfile, Lowered.declarable hl₀ hc, hdiffers⟩

include hf hG in
/-- The root comes first, and no other module has its path. -/
theorem members_of_build : ∃ m₀ ms, G.members = m₀ :: ms ∧ m₀.path = root ∧
    m₀.table = l.table.settled (resolve fs root) ∧ ∀ m ∈ ms, m.path.same root = false := by
  have hbundle := isBundle_build hG
  have hfirst := hbundle.root_first
  have hdistinct := hbundle.distinct
  rw [root_ofFiles hf] at hfirst
  unfold Graph.paths at hfirst hdistinct
  cases hmembers : G.members with
  | nil =>
    rw [hmembers] at hfirst
    cases hfirst
  | cons m₀ ms =>
    rw [hmembers] at hfirst hdistinct
    have hpath : m₀.path = root := Option.some.inj hfirst
    have hothers : ∀ m ∈ ms, m.path.same root = false := by
      intro m hm
      rw [Path.same_comm, ← hpath]
      exact (List.pairwise_cons.1 hdistinct).1 m.path (List.mem_map.2 ⟨m, hm, rfl⟩)
    refine ⟨m₀, ms, rfl, hpath, ?_, hothers⟩
    have hm₀ : m₀ ∈ G.members := hmembers ▸ List.mem_cons_self
    -- The first member has the path of the root, so its table is not one that was loaded.
    rcases source_of_member hf hG hm₀ with ⟨-, htable⟩ | ⟨hnot, -⟩
    · rw [htable, hpath]
    · rw [hpath, Path.same_self] at hnot
      cases hnot

include hf hl hG in
/-- An import of a bundle is resolved to a path that is spelled in one way. -/
theorem eq_root_of_same {m : Member} (hm : m ∈ G.members) {d : Dependency}
    (hd : d ∈ m.table.dependencies.values) {p : Path} (hp : d.path = some p) {q : Path}
    (hq : fs.canonical q = .ok root) (hsame : q.same p = true) : p = root := by
  -- The path of `m` came out of resolving a specifier, whichever kind of module `m` is.
  have hresolved : ∃ s, resolve fs m.path s = .ok p := by
    rcases source_of_member hf hG hm with ⟨-, htable⟩ | ⟨-, s, l₀, hl₀, htable⟩
    · rw [htable] at hd
      obtain ⟨d₀, hd₀, rfl⟩ := Table.mem_values_settled.1 hd
      exact ⟨_, Dependency.path_settled (Lowered.unresolved hl hd₀) hp⟩
    · rw [htable] at hd
      obtain ⟨d₀, hd₀, rfl⟩ := Table.mem_values_settled.1 hd
      exact ⟨_, Dependency.path_settled (Lowered.unresolved hl₀ hd₀) hp⟩
  obtain ⟨s, hs⟩ := hresolved
  obtain ⟨location, rfl, hdirect, -⟩ := resolve_ok hs
  exact (Files.canonical_of_same hdirect hsame hq).symm

end Members

section Spellings

variable {fs : Files} {f g root : Path} {source : String} {l l' : Lowered} {G : Graph}
  (hf : fs.canonical f = .ok root) (hg : fs.canonical g = .ok root)
  (hl : Lowered.optimized (some f) source = .ok l)
  (hl' : Lowered.optimized (some g) source = .ok l') (h : l.Respelled f g l')
  (hG : build fs f l = .ok G)

include hf hg hl hl' h hG

/-- What a module other than the root declares is of another file than the root under both
spellings, and so is its name. -/
theorem respelling_of_other {m : Member} (hm : m ∈ G.members) (hother : m.path.same root = false)
    {name : String} {c : Component} (hc : m.table.components.get? name = some c) :
    c.file = some m.path ∧ c.file ≠ some f ∧ respelling f g name = name := by
  -- Both bundles hold the table of `m`, so its components are of the file of `m` under either
  -- spelling.
  have hG' : build fs g l' = .ok (G.reroot root g l') := by
    rw [build_rerooted hf hg h, hG]
    rfl
  have hm' : m ∈ (G.reroot root g l').members :=
    List.mem_map.2 ⟨m, hm, Graph.rerootMember_of_not_root hother⟩
  obtain ⟨hfile, hname, hnotf⟩ := component_of_other hf hl hG hm hother hc
  obtain ⟨-, -, hnotg⟩ := component_of_other hg hl' hG' hm' hother hc
  have hne {p : Path} (hp : m.path.same p = false) : m.path ≠ p := by
    rintro rfl
    rw [Path.same_self] at hp
    cases hp
  refine ⟨hfile, fun hcf => hne hnotf (Option.some.inj (hfile.symm.trans hcf)), ?_⟩
  rcases hname with hname | rfl
  · exact respelling_of_isWord hname
  · exact respelling_of_ne (fun heq => hne hnotf (Lower.anonymousName_injective heq))
      fun heq => hne hnotg (Lower.anonymousName_injective heq)

/-- **The linked tables of a module under two spellings of its file.** -/
theorem relinked_build : G.merged.1.Relinked f g root (G.reroot root g l').merged.1 := by
  obtain ⟨m₀, ms, hmembers, hpath, htable, hothers⟩ := members_of_build hf hG
  have hmem : ∀ m ∈ ms, m ∈ G.members := fun m hm => hmembers ▸ List.mem_cons_of_mem _ hm
  -- The other bundle has another root and otherwise the same modules.
  obtain ⟨m₁, (hmembers' : (G.reroot root g l').members = m₁ :: ms), hcomponents',
    hdependencies'⟩ := Graph.exists_members_reroot hmembers hpath hothers
  have hother {name : String} {c : Component}
      (hc : latest? Table.components ms name = some c) :
      ∃ q, c.file = some q ∧ q.same root = false ∧ c.file ≠ some f ∧
        respelling f g name = name := by
    obtain ⟨m, hm, hc⟩ := exists_of_latest? hc
    obtain ⟨hfile, hne, hname⟩ :=
      respelling_of_other hf hg hl hl' h hG (hmem m hm) (hothers m hm) hc
    exact ⟨m.path, hfile, hothers m hm, hne, hname⟩
  have hcomponent (name : String) :=
    Graph.get?_merged Table.components_merge rfl hmembers name
  have hcomponent' (name : String) :=
    Graph.get?_merged Table.components_merge rfl hmembers' name
  have hdependency (name : String) :=
    Graph.get?_merged Table.dependencies_merge rfl hmembers name
  have hdependency' (name : String) :=
    Graph.get?_merged Table.dependencies_merge rfl hmembers' name
  have hroot : m₀.table.components = l.table.components := by
    rw [htable]
    rfl
  constructor
  · -- The root answers with its own components renamed, the others answer as before.
    intro name
    have hfixed : latest? Table.components ms (respelling f g name)
        = latest? Table.components ms name := by
      refine Dict.get?_of_fixed (fun key hkey => ?_) name
      obtain ⟨c, hc⟩ := Option.isSome_iff_exists.1 hkey
      obtain ⟨-, -, -, -, hname⟩ := hother hc
      exact hname
    have hkept : (latest? Table.components ms name).map (·.respell f g)
        = latest? Table.components ms name := by
      cases hc : latest? Table.components ms name with
      | none => rfl
      | some c =>
        obtain ⟨-, -, -, hne, -⟩ := hother hc
        exact congrArg some (Component.respell_of_file_ne hne)
    rw [hcomponent', hcomponent, Option.map_or, hfixed, hkept, hcomponents', h.table.component,
      hroot]
  · -- The imports of the root differ in where they are required from, which no look-up reads.
    intro name
    rw [hdependency', hdependency, Option.map_or, Option.map_or, hdependencies',
      Dict.get?_mapValues, Option.map_map]
    rfl
  · -- Each component is of the module that declares it.
    intro name c hc
    rw [hcomponent, Option.or_eq_some_iff, hroot] at hc
    rcases hc with hc | ⟨-, hc⟩
    · obtain ⟨q, hfile, hq, -, hname⟩ := hother hc
      exact .inr ⟨q, hfile, hq, hname⟩
    · have hfile : c.file = some f :=
        Lowered.file_of_mem hl (Dict.mem_values_iff.2 ⟨name, hc⟩)
      exact .inl ⟨hfile, Lowered.declarable hl hc⟩
  · -- Imports are resolved to canonical paths, and that of both spellings is the root's.
    intro d hd p hp hsame
    obtain ⟨name, hname⟩ := Dict.mem_values_iff.1 hd
    rw [hdependency, Option.or_eq_some_iff] at hname
    obtain ⟨m, hm, hmd⟩ : ∃ m ∈ G.members, d ∈ m.table.dependencies.values := by
      rcases hname with hname | ⟨-, hname⟩
      · obtain ⟨m, hm, hmd⟩ := exists_of_latest? hname
        exact ⟨m, hmem m hm, Dict.mem_values_iff.2 ⟨name, hmd⟩⟩
      · exact ⟨m₀, hmembers ▸ List.mem_cons_self, Dict.mem_values_iff.2 ⟨name, hname⟩⟩
    rcases hsame with hsame | hsame
    · exact eq_root_of_same hf hl hG hm hmd hp hf hsame
    · exact eq_root_of_same hf hl hG hm hmd hp hg hsame

/-- The layouts of the two roots by the two tables are the same. -/
theorem layout_respelled
    (hindifferent : (⟨l.tree.optimize, G.merged.1.optimize⟩ : Lowered).Indifferent f g root) :
    l'.tree.optimize.layout (G.reroot root g l').merged.1.optimize
      = l.tree.optimize.layout G.merged.1.optimize := by
  have hrelinked := relinked_build hf hg hl hl' h hG
  -- No tag that can come up is a generated name, so every one of them stands for the same
  -- component.
  have hagrees : l.tree.optimize.site.Agrees G.merged.1.optimize
      (G.reroot root g l').merged.1.optimize (Component.respell f g) := by
    intro tag htag
    have hfixed : respelling f g tag = tag := by
      rw [tags_site] at htag
      obtain ⟨hnotf, hnotg⟩ := hindifferent.tags tag htag
      exact respelling_of_ne hnotf hnotg
    rw [Table.resolve?_optimize, Table.resolve?_optimize,
      hrelinked.resolve? hindifferent.imports hfixed, Option.map_map, Option.map_map]
    exact congrArg (Option.map · _) (funext fun c => c.optimize_respell)
  -- The trees hold one component under two signatures, and only its body shows.
  have htree : l'.tree.optimize.layout (G.reroot root g l').merged.1.optimize
      = l.tree.optimize.layout (G.reroot root g l').merged.1.optimize := by
    obtain ⟨c, hc, hc'⟩ := h.tree
    rw [hc, hc', optimize_root_node, optimize_root_node, c.optimize_respell]
    unfold Component.node
    rw [Component.body_respell]
    exact layout_root_mixin _ _ _ _
  rw [htree]
  exact layout_of_agrees Component.body_respell Component.bind_respell hagrees

end Spellings

end Bundle

/-! ### Compiling -/

/-- What a module with a file compiles to: the layout of its tree by the linked table, printed. -/
theorem compile_result {fs : Files} {file : Path} {source : String} {l : Lowered} (o : Options)
    (hl : Lowered.optimized (some file) source = .ok l) :
    (compile fs { o with file := some file } source).result
      = Bundle.build fs file l >>= fun g =>
        (o.engine.print o.level
          (l.tree.optimize.layout g.merged.1.optimize)).result.map o.wrap := by
  unfold compile
  rw [hl, Outcome.ofExcept_ok_bind]
  unfold Lowered.bundled Bundle.link
  dsimp only
  -- Warnings of the merge do not matter to the result.
  cases Bundle.build fs file l with
  | error e => rfl
  | ok g => exact Outcome.result_bind_pure _ o.wrap

/-- **The template can depend on the spelling.** Here a module of the bundle imports the root back.
Under its canonical path the root is found and inlined, and under another spelling of the path the
element stays as it is. -/
theorem compile_back_import_differs :
    let f : Path := ⟨"/app/main.jsx"⟩
    let g : Path := ⟨"/app/lib/../main.jsx"⟩
    let main := "import Card from './lib/Card'; export default () => <p><Card /></p>;"
    let card := "import Main from '../main'; export default () => <div><Main /></div>;"
    let fs : Files := { entries := [(["app"], .directory), (["app", "lib"], .directory),
      (["app", "main.jsx"], .file (some main)), (["app", "lib", "Card.jsx"], .file (some card))] }
    fs.canonical f = .ok f ∧ fs.canonical g = .ok f ∧
      (compile fs { file := some f, engine := .ejs } main).result
        = .ok "<p>\n  <div>\n    <p>\n      <Card></Card>\n    </p>\n  </div>\n</p>\n" ∧
      (compile fs { file := some g, engine := .ejs } main).result
        = .ok "<p>\n  <div>\n    <Main></Main>\n  </div>\n</p>\n" := by
  -- Under the second spelling the module at the root is of a file that no import leads to.
  decide +kernel

/-- **The spelling of a file matters to imports that lead back to it, and to tags spelled like the
name that it gives to a default export.** Let two paths lead to one file. If neither an import nor a
tag of the bundle tells the two spellings apart, then compiling the source with the one and with the
other gives the same template, or fails for the same kind of reason. -/
theorem compile_respelled {fs : Files} {f g root : Path} (hf : fs.canonical f = .ok root)
    (hg : fs.canonical g = .ok root) (o : Options) (source : String)
    (hindifferent : ∀ l b, Lowered.optimized (some f) source = .ok l →
      (l.bundled fs (some f)).result = .ok b → b.Indifferent f g root) :
    (compile fs { o with file := some f } source).result.mapError Failure.code
      = (compile fs { o with file := some g } source).result.mapError Failure.code := by
  -- Both bundles fail alike, or the two linked tables lay out to the same text.
  rcases Lowered.optimized_respelled (f := f) (g := g) source with
    ⟨l, l', hl, hl', h⟩ | ⟨e, e', he, he', hcode⟩
  · rw [compile_result o hl, compile_result o hl', Bundle.build_rerooted hf hg h]
    cases hG : Bundle.build fs f l with
    | error e => rfl
    | ok G =>
      have hbundled : (l.bundled fs (some f)).result
          = .ok ⟨l.tree.optimize, G.merged.1.optimize⟩ := by
        unfold Lowered.bundled Bundle.link
        dsimp only
        rw [hG]
        rfl
      have hlayout :=
        Bundle.layout_respelled hf hg hl hl' h hG (hindifferent l _ hl hbundled)
      simp only [Except.map, bind, Except.bind, hlayout]
  · unfold compile
    rw [he, he']
    exact congrArg Except.error hcode

/-- The condition on tags is needed: this tag is the name that the path `main` gives to the default
export, and no name under any other spelling of the path. -/
example :
    let source := "export default () => <p><DefaultComponent:main /></p>;"
    let fs : Files := { entries := [(["main"], .file (some source))] }
    fs.canonical ⟨"main"⟩ = .ok ⟨"/main"⟩ ∧
      (compile fs { file := some ⟨"main"⟩, engine := .ejs } source).result
        = .ok "<p>\n  <p>\n    <DefaultComponent:main></DefaultComponent:main>\n  </p>\n</p>\n" ∧
      (compile fs { file := some ⟨"/main"⟩, engine := .ejs } source).result
        = .ok "<p>\n  <DefaultComponent:main></DefaultComponent:main>\n</p>\n" := by
  decide +kernel

/-- A default export without a name is imported back. Its file is spelled from the current
directory, and by way of a link. -/
theorem compile_respelled_back_import :
    let f : Path := ⟨"main.jsx"⟩
    let g : Path := ⟨"/app/parts/../main.jsx"⟩
    let main := "import Card from './lib/Card'; export default () => <p><Card /></p>;"
    let card := "import Main from '../main'; export default () => <div><Main /></div>;"
    let fs : Files := {
      entries := [(["app"], .directory), (["app", "lib"], .directory),
        (["app", "main.jsx"], .file (some main)), (["app", "lib", "Card.jsx"], .file (some card))]
      links := [(["app", "parts"], ⟨"lib"⟩)]
      current := ⟨"/app"⟩ }
    let o : Options := { engine := .ejs }
    fs.canonical f = .ok ⟨"/app/main.jsx"⟩ ∧ fs.canonical g = .ok ⟨"/app/main.jsx"⟩ ∧
      (compile fs { o with file := some f } main).result
        = .ok "<p>\n  <div>\n    <Main></Main>\n  </div>\n</p>\n" ∧
      (compile fs { o with file := some f } main).result.mapError Failure.code
        = (compile fs { o with file := some g } main).result.mapError Failure.code := by
  intro f g main card fs o
  have hf : fs.canonical f = .ok ⟨"/app/main.jsx"⟩ := by decide +kernel
  have hg : fs.canonical g = .ok ⟨"/app/main.jsx"⟩ := by decide +kernel
  have hrun : (Lowered.optimized (some f) main).toOption.all (fun l =>
      (l.bundled fs (some f)).result.toOption.all fun b =>
        decide (b.Indifferent f g ⟨"/app/main.jsx"⟩)) = true := by
    decide +kernel
  refine ⟨hf, hg, by decide +kernel, compile_respelled hf hg o main ?_⟩
  intro l b hl hbundled
  exact of_decide_eq_true (of_all_ok (of_all_ok hrun hl) hbundled)

end Stencil
