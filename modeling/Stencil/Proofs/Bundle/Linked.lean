import Stencil.Compile
import Stencil.Proofs.Bundle.Linking
import Stencil.Proofs.Optimize.Normal

/-!
# The components of a linked table

A module is optimized when it is loaded, and once more when the tables of its bundle are linked in
one. The second time changes nothing, and the reason is where the components of the linked table
come from:

* merging makes up no component, whether it warns or not (`Graph.mem_merged`);
* resolving imports changes no component, so those of a module of the bundle are those of a source
  that was lowered and optimized (`exists_source_of_merged`);
* what a component is optimized to depends on the component alone, and not on the table around it,
  so each of them stays as it is (`Component.optimize_of_optimized`).

The main theorem is `compile_bundle`: a bundle is generated from the tree of its root and the linked
table as they are.
-/

namespace Stencil

/-! ### Merging -/

namespace Table

/-- The second table is laid over the first. -/
theorem components_merge (t other : Table) :
    (t.merge other).1.components
      = other.components.entries.foldl (fun d e => d.insert e.1 e.2) t.components := by
  have hframe : (t.merge other).1.components
      = (addAll addComponent other.components.entries t).1.components :=
    addAll_frame Table.components (fun _ _ _ => rfl) _ _
  rw [hframe, addAll_view Table.components (fun _ _ _ => rfl)]

/-- A component of a merged table is one of either table. -/
theorem mem_merge {t other : Table} {c : Component}
    (h : c ∈ (t.merge other).1.components.values) :
    c ∈ t.components.values ∨ c ∈ other.components.values := by
  rw [components_merge] at h
  rcases Dict.mem_values_foldl_insert h with h | ⟨e, he, rfl⟩
  · exact .inl h
  · exact .inr (List.mem_map.2 ⟨e, he, rfl⟩)

/-- So it is for several tables. -/
theorem mem_mergeAll {ts : List Table} {t : Table} {c : Component}
    (h : c ∈ (mergeAll ts t).1.components.values) :
    c ∈ t.components.values ∨ ∃ u ∈ ts, c ∈ u.components.values := by
  induction ts generalizing t with
  | nil => exact .inl h
  | cons u ts ih =>
    rw [mergeAll_cons] at h
    -- The first table is merged before the others.
    rcases ih h with h | ⟨v, hv, hc⟩
    · rcases mem_merge h with hc | hc
      · exact .inl hc
      · exact .inr ⟨u, List.mem_cons_self, hc⟩
    · exact .inr ⟨v, List.mem_cons_of_mem _ hv, hc⟩

end Table

/-- A component of the merged graph is one of a member. -/
theorem Bundle.Graph.mem_merged {g : Graph} {c : Component}
    (h : c ∈ g.merged.1.components.values) :
    ∃ m ∈ g.members, c ∈ m.table.components.values := by
  rcases Table.mem_mergeAll h with hempty | ⟨t, ht, hc⟩
  · cases hempty
  · obtain ⟨m, hm, rfl⟩ := List.mem_map.1 ht
    exact ⟨m, hm, hc⟩

/-! ### Sources -/

namespace Bundle

/-- The bundle of the module with this source is made of the source `s` of the file `p`: it is the
root, or a module that the root reaches. -/
inductive MadeOf (fs : Files) (file : Path) (source : String) (g : Graph) : Path → String → Prop
  | root : MadeOf fs file source g file source
  | reached {m : Member} {s : String} :
    m ∈ g.members → fs.read m.path = .ok s → MadeOf fs file source g m.path s

/-- Linking succeeds with the merged table of the graph that was built. -/
theorem link_ok {fs : Files} {file : Path} {l : Lowered} {table : Table}
    (h : (link fs file l).result = .ok table) :
    ∃ g, build fs file l = .ok g ∧ table = g.merged.1 := by
  obtain ⟨g, hg, h⟩ := Outcome.result_bind_iff.1 h
  exact ⟨g, hg, (Except.ok.inj h).symm⟩

/-- **Every component of a bundle is one of a source that was lowered and optimized.** -/
theorem exists_source_of_merged {fs : Files} {file : Path} {source : String} {l : Lowered}
    {g : Graph} (hl : Lowered.optimized (some file) source = .ok l)
    (hg : build fs file l = .ok g) {c : Component} (hc : c ∈ g.merged.1.components.values) :
    ∃ p s l', MadeOf fs file source g p s ∧ Lowered.optimized (some p) s = .ok l' ∧
      c ∈ l'.table.components.values := by
  obtain ⟨m, hm, hc⟩ := Graph.mem_merged hc
  obtain ⟨m₀, hmodule, -, hsettled⟩ := (isBundle_build hg).as_loaded m hm
  -- Settling the imports of a module leaves its components alone.
  have hc₀ : c ∈ m₀.table.components.values := by
    rw [hsettled] at hc
    exact hc
  unfold Origin.moduleAt at hmodule
  split at hmodule
  · cases hmodule
    exact ⟨file, source, l, .root, hl, hc₀⟩
  · obtain ⟨s, l', hread, hl', rfl⟩ := load_ok hmodule
    exact ⟨m.path, s, l', .reached hm hread, hl', hc₀⟩

end Bundle

/-! ### Optimizing what is optimized -/

/-- A component of an optimized module is as it is optimized. -/
theorem Component.optimize_of_optimized {file : Option Path} {source : String} {l : Lowered}
    (h : Lowered.optimized file source = .ok l) {c : Component}
    (hc : c ∈ l.table.components.values) : c.optimize = c := by
  obtain ⟨l₀, -, -, htable⟩ := Lowered.optimized_ok h
  rw [htable] at hc
  obtain ⟨-, c₀, -, rfl⟩ := Dict.mem_values_mapValues hc
  exact optimize_optimize_component c₀

/-- A table is as it is optimized if all its components are. -/
theorem Table.optimize_of_forall {t : Table} (h : ∀ c ∈ t.components.values, c.optimize = c) :
    t.optimize = t := by
  -- Optimizing leaves the names and the imports as they are.
  have hentries : t.optimize.components.entries = t.components.entries := by
    change List.map (fun e => (e.1, e.2.optimize)) t.components.entries = t.components.entries
    refine (List.map_congr_left fun e he => ?_).trans (List.map_id _)
    rw [h e.2 (List.mem_map.2 ⟨e, he, rfl⟩)]
    rfl
  obtain ⟨components, dependencies⟩ := t
  change ({ components := _, dependencies } : Table) = { components := _, dependencies }
  congr 1
  exact Dict.ext hentries

/-- The attributes of what is optimized are settled: no folding is left that might not end. -/
theorem Component.ending_of_optimized {file : Option Path} {source : String} {l : Lowered}
    (h : Lowered.optimized file source = .ok l) {c : Component}
    (hc : c ∈ l.table.components.values) : ending.among c.signature.constants c.body := by
  have hnormal : normalForm.among c.signature.constants c.optimize.body :=
    normal_optimize_component c
  rw [optimize_of_optimized h hc] at hnormal
  exact normalForm_implies_ending.among _ _ hnormal

/-- **Optimizing a bundle changes nothing.** The tree of the root and the linked table are fixed by
a second run over them, which comes to an end, so compiling a module with its imports is generating
from the two as they are. -/
theorem compile_bundle {fs : Files} {file : Path} {source : String} {l : Lowered} {table : Table}
    (hl : Lowered.optimized (some file) source = .ok l)
    (hlink : (Bundle.link fs file l).result = .ok table) :
    l.tree.optimize = l.tree ∧ table.optimize = table ∧ ending.below Dict.empty l.tree ∧
      (∀ c ∈ table.components.values, ending.among c.signature.constants c.body) ∧
      ∀ o : Options, o.file = some file →
        compile fs o source = (do
          let table ← Bundle.link fs file l
          let body ← o.engine.generate o.level l.tree table
          pure (o.wrap body)) := by
  obtain ⟨l₀, -, htree, -⟩ := Lowered.optimized_ok hl
  have hroot : l.tree.optimize = l.tree := by
    rw [htree]
    exact optimize_optimize_node l₀.tree
  obtain ⟨g, hg, rfl⟩ := Bundle.link_ok hlink
  have hsource (c : Component) (hc : c ∈ g.merged.1.components.values) :=
    Bundle.exists_source_of_merged hl hg hc
  have htable : g.merged.1.optimize = g.merged.1 := by
    refine Table.optimize_of_forall fun c hc => ?_
    obtain ⟨p, s, l', -, hl', hc'⟩ := hsource c hc
    exact Component.optimize_of_optimized hl' hc'
  refine ⟨hroot, htable, ?_, fun c hc => ?_, fun o ho => ?_⟩
  -- Normal forms have nothing to fold, and folding is all that might not end.
  · rw [htree]
    exact normalForm_implies_ending.below Dict.empty _ (normal_optimize l₀.tree)
  · obtain ⟨p, s, l', -, hl', hc'⟩ := hsource c hc
    exact Component.ending_of_optimized hl' hc'
  · have hlinked : Bundle.link fs file l = .noted g.merged := by
      rw [Bundle.link, hg]
      rfl
    -- So the second run hands on the tree and the table, and adds no warning.
    have hbundled : l.bundled fs (some file) = .noted (⟨l.tree, g.merged.1⟩, g.merged.2) := by
      rw [Lowered.bundled, hlinked, Outcome.noted_bind, hroot, htable]
      exact congrArg (Outcome.mk · _) (List.append_nil _)
    rw [compile, ho, hl, Outcome.ofExcept_ok_bind, hbundled, hlinked, Outcome.noted_bind,
      Outcome.noted_bind]

/-- Two modules with a constant and a decided choice: the table that is linked holds them optimized,
and generating takes it as it is. -/
theorem compile_bundle_two_modules :
    let file : Path := ⟨"/app/main.jsx"⟩
    let main := "import C from './C';
      export default ({ a }) => <p>{true ? <C t={a} /> : <i />}</p>;"
    let card := "const k = 'dark'; export default ({ t }) => <b class={k}>{k && t}</b>;"
    let fs : Files := { entries := [(["app"], .directory), (["app", "main.jsx"], .file (some main)),
      (["app", "C.jsx"], .file (some card))] }
    let o : Options := { file := some file, engine := .pug }
    ∃ l table, Lowered.optimized (some file) main = .ok l ∧
      (Bundle.link fs file l).result = .ok table ∧ table.components.values.length = 2 ∧
      table.optimize = table ∧
      (compile fs o main).result
        = .ok "p\n  - var t = a\n  b(class=\"dark\")\n    = t\n" ∧
      compile fs o main = (do
        let table ← Bundle.link fs file l
        let body ← o.engine.generate o.level l.tree table
        pure (o.wrap body)) := by
  intro file main card fs o
  have hrun : (Lowered.optimized (some file) main).toOption.any (fun l =>
      (Bundle.link fs file l).result.toOption.any fun table =>
        table.components.values.length == 2) = true := by
    decide +kernel
  have htext : (compile fs o main).result.toOption.any (fun text =>
      text == "p\n  - var t = a\n  b(class=\"dark\")\n    = t\n") = true := by
    decide +kernel
  obtain ⟨l, hl, hrun⟩ := exists_ok_of_any hrun
  obtain ⟨table, hlink, hlength⟩ := exists_ok_of_any hrun
  obtain ⟨text, hresult, htext⟩ := exists_ok_of_any htext
  -- That optimizing the bundle again changes nothing is the theorem; the text only shows what was
  -- compiled.
  obtain ⟨-, htable, -, -, hcompile⟩ := compile_bundle hl hlink
  exact ⟨l, table, hl, hlink, beq_iff_eq.1 hlength, htable, beq_iff_eq.1 htext ▸ hresult,
    hcompile o rfl⟩

end Stencil
