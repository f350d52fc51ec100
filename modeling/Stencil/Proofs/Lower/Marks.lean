import Stencil.Proofs.Lower.Built
import Stencil.Proofs.Optimize.Tags

/-!
# What lowering marks

An element marks the import that its tag is rooted in when it is made, wherever that is: in a return
or under the test in front of one, in a branch of a choice, in a loop, or between the tags of a
fragment. What is not made marks nothing. So the marks of whatever is lowered are the roots of its
tags (`builds_marks`), by the recursion along the functions of lowering.

The imports are marked one name after the other (`get?_foldl_mark`), and all of them are known
before the first element is made. The main theorem is `instantiated_iff`: an import of a module is
marked exactly if an element of one of its candidates is rooted in it.
-/

namespace Stencil

namespace Lower

open Script (Module IsTagName)

/-- **Everything that is lowered marks the roots of its tags**, one for each element. -/
theorem builds_marks {Q : String → Prop} :
    Builds Q fun m => m.marks = (Node.tagsOfList m.nodes).map tagRoot where
  empty := rfl
  append {a b} ha hb := by
    change a.marks ++ b.marks = (Node.tagsOfList (a.nodes ++ b.nodes)).map tagRoot
    rw [Node.tagsOfList_append, List.map_append, ha, hb]
  text _ := rfl
  interpolation _ := rfl
  element {tag} attributes {inside} _ hinside := by
    change tagRoot tag :: inside.marks
      = (Node.tagsOfList [.element tag attributes inside.nodes]).map tagRoot
    rw [Node.tagsOfList_singleton, Node.tags, List.map_cons, hinside]
  condition test {a b} ha hb := by
    change a.marks ++ b.marks = (Node.tagsOfList
      [.condition test (Node.slotOf a.nodes) (Node.slotOf b.nodes)]).map tagRoot
    -- Siblings that are put into a slot keep their tags.
    rw [Node.tagsOfList_singleton, Node.tags, Node.tagsOfOption_slotOf, Node.tagsOfOption_slotOf,
      List.map_append, ha, hb]
  iteration loop {body} hbody := by
    change body.marks = (Node.tagsOfList [.iteration loop body.nodes]).map tagRoot
    rw [Node.tagsOfList_singleton, Node.tags, hbody]

/-! ### Marking imports -/

/-- Marking a name changes the import that is bound to it, and no other. -/
theorem get?_mark (dependencies : Dict Dependency) (name key : String) :
    (Harvest.mark dependencies name).get? key = (dependencies.get? key).map fun d =>
      { d with instantiated := d.instantiated || key == name } := by
  unfold Harvest.mark
  cases hname : dependencies.get? name with
  | none =>
    -- Nothing is bound to the name, so what is bound to the key has another one.
    cases hkey : dependencies.get? key with
    | none => rfl
    | some d =>
      have hne : key ≠ name := by
        rintro rfl
        rw [hname] at hkey
        cases hkey
      rw [Option.map_some, beq_false_of_ne hne, Bool.or_false]
  | some d =>
    change (dependencies.insert name { d with instantiated := true }).get? key = _
    rw [Dict.get?_insert]
    by_cases hkey : key = name
    · rw [if_pos hkey, hkey, hname, Option.map_some, BEq.rfl, Bool.or_true]
    · rw [if_neg hkey]
      cases dependencies.get? key with
      | none => rfl
      | some e => rw [Option.map_some, beq_false_of_ne hkey, Bool.or_false]

/-- The imports after marking names one after the other. -/
theorem get?_foldl_mark (names : List String) (dependencies : Dict Dependency) (key : String) :
    (names.foldl Harvest.mark dependencies).get? key = (dependencies.get? key).map fun d =>
      { d with instantiated := d.instantiated || names.contains key } := by
  induction names generalizing dependencies with
  | nil =>
    rw [List.foldl_nil]
    cases dependencies.get? key with
    | none => rfl
    | some d => rw [Option.map_some, List.contains_nil, Bool.or_false]
  | cons name rest ih =>
    -- Each name marks its own entry, so an entry is marked by all of them together if by one.
    rw [List.foldl_cons, ih, get?_mark, Option.map_map]
    refine congrArg (Option.map · _) (funext fun d => ?_)
    rw [Function.comp_apply, List.contains_cons, Bool.or_assoc]

/-- A change to the imports that leaves the marks alone can be made before marking or after it. -/
theorem foldl_mark_mapValues {change : Dependency → Dependency}
    (hchange : ∀ d, change { d with instantiated := true }
      = { change d with instantiated := true })
    (names : List String) (dependencies : Dict Dependency) :
    names.foldl Harvest.mark (dependencies.mapValues fun _ => change)
      = (names.foldl Harvest.mark dependencies).mapValues fun _ => change := by
  induction names generalizing dependencies with
  | nil => rfl
  | cons name rest ih =>
    -- One mark commutes with the change, whether or not the name is there.
    have hmark : Harvest.mark (dependencies.mapValues fun _ => change) name
        = (Harvest.mark dependencies name).mapValues fun _ => change := by
      unfold Harvest.mark
      rw [Dict.get?_mapValues]
      cases dependencies.get? name with
      | none => rfl
      | some d =>
        refine Eq.trans ?_ (Dict.mapValues_insert _ _ _ _).symm
        exact congrArg (Dict.insert _ name) (hchange d).symm
    rw [List.foldl_cons, List.foldl_cons, hmark, ih]

/-! ### Modules -/

/-- The table records the imports as they were collected, some of them with a mark. -/
theorem Harvest.get?_dependencies_table (h : Harvest) (file : Option Path) (key : String) :
    (h.table file).dependencies.get? key = (h.dependencies.get? key).map fun d =>
      { d with instantiated := d.instantiated || h.marks.contains key } :=
  get?_foldl_mark h.marks h.dependencies key

/-- The names that a module marks are the roots of the tags of its candidates. -/
theorem mem_marks_harvest {file : Option Path} {source : String} {m : Module}
    (h : Module.parse? source = some m) {name : String} :
    name ∈ (harvest file m).marks ↔ ∃ k ∈ (harvest file m).candidates,
      ∃ tag ∈ Node.tagsOfList (nest k.returns).nodes, tagRoot tag = name := by
  rw [Harvest.marks, List.mem_flatMap]
  refine exists_congr fun k => and_congr_right fun hk => ?_
  -- A candidate is a function of the script with the returns that it is read for.
  have hnamed := ((plain_harvest h).candidates k hk).function
  have hmarks := built_returned builds_marks hnamed (reads_harvest file m k hk)
  rw [hmarks, List.mem_map]

/-- **An import is marked exactly if an element is rooted in it**, wherever the element stands and
whether the import is declared before it or after it. -/
theorem instantiated_iff {file : Option Path} {source : String} {m : Module}
    (h : Module.parse? source = some m) {name : String} {d : Dependency}
    (hd : ((harvest file m).table file).dependencies.get? name = some d) :
    d.instantiated = true ↔ ∃ k ∈ (harvest file m).candidates,
      ∃ tag ∈ Node.tagsOfList (nest k.returns).nodes, tagRoot tag = name := by
  rw [← mem_marks_harvest h]
  rw [Harvest.get?_dependencies_table] at hd
  obtain ⟨d₀, hd₀, rfl⟩ := Option.map_eq_some_iff.1 hd
  -- Imports are collected without a mark.
  have hunmarked := (plain_harvest h).unmarked d₀ (Dict.mem_values_iff.2 ⟨name, hd₀⟩)
  rw [hunmarked, Bool.false_or]
  exact List.contains_iff_mem

end Lower

end Stencil
