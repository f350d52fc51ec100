import Mathlib.Data.List.Pairwise
import Stencil.Proofs.Engine.Scoping
import Stencil.Proofs.Lower.Built
import Stencil.Proofs.Lower.Mirror

/-!
# The names of props

A component that takes its props apart in an object pattern names them twice: each field has a key,
which is what a call passes, and a pattern, which binds the names that the body reads. Inlining
knows the keys alone. The names that it binds around a body are the keys that are spelled out,
children aside (`inlined_names`), whatever the fields bind. For a field that binds the name of its
key, with or without a default value, this is the same. A field that binds another name, or takes
its prop apart itself, leaves the body without its names (`renamed_prop_bound_by_key`).

* `BindsAround` — the lines around a body bind names: as parameters of a function, or by assignments
  in front;
* `Lower.Makes` — a component is what a candidate is lowered to;
* `Field.SpellsNames` — the key of a field is what the field binds.
-/

namespace Stencil

open Script (Field Param Pattern IsIdentifier fieldsNames mem_fieldsNames_iff)

/-! ### Names around a body -/

/-- The blocks bind these names around the blocks inside. -/
inductive BindsAround (inside : List Block) : List Block → List String → Prop
  | nothing : BindsAround inside inside []
  | parameters {names values : List String} :
    BindsAround inside [.enclosed (.scope names) inside (.scope values)] names
  | assignments {assigned : List (String × String)} :
    BindsAround inside
      (assigned.map (fun a => .part (.bound a.1 (some a.2))) ++ inside) (assigned.map Prod.fst)

/-- A scope binds the names of its bindings, in every engine. -/
theorem binds_around {e : Engine} {level : Nat} {bindings : List Binding} {body : List Piece}
    {call : List Block} (h : e.Writes level [.scope bindings body] call) :
    ∃ inner inside, e.Writes inner body inside ∧
      BindsAround inside call (bindings.map (·.name)) := by
  -- Pug and Liquid assign the bindings in front of the body, each in its own words.
  have hassigned (v : Vocabulary) (inside : List Block) :
      BindsAround inside (assignments v bindings ++ inside) (bindings.map (·.name)) := by
    let assigned : List (String × String) := bindings.map fun b => (b.name, v.binding b)
    have hbinds : BindsAround inside
        (assigned.map (fun a => .part (.bound a.1 (some a.2))) ++ inside) (assigned.map Prod.fst) :=
      .assignments
    rw [List.map_map, List.map_map] at hbinds
    rw [assignments, List.map_map]
    exact hbinds
  -- EJS takes them as parameters of a function around the body, and writes no function for none.
  cases e with
  | ejs =>
    rcases Ejs.writes_scope h with ⟨rfl, hbody⟩ | ⟨inside, hinside, rfl⟩
    · exact ⟨level, call, hbody, .nothing⟩
    · exact ⟨level + 1, inside, hinside, .parameters⟩
  | pug =>
    obtain ⟨inside, hinside, rfl⟩ := Pug.writes_scope h
    exact ⟨level, inside, hinside, hassigned _ inside⟩
  | liquid =>
    obtain ⟨inside, hinside, rfl⟩ := Liquid.writes_scope h
    exact ⟨level, inside, hinside, hassigned _ inside⟩

/-- A call binds the declared props, children aside. -/
theorem mem_map_name_bind {s : Signature} {attributes : List Attribute} {n : String} :
    n ∈ (s.bind attributes).map (·.name) ↔ n ≠ "children" ∧ n ∈ s.props.map (·.name) := by
  rw [Signature.bind, List.map_map]
  simp only [List.mem_map, List.mem_filter, Function.comp_apply, bne_iff_ne]
  constructor
  · rintro ⟨p, ⟨hp, hne⟩, rfl⟩
    exact ⟨hne, p, hp, rfl⟩
  · rintro ⟨hne, p, hp, rfl⟩
    exact ⟨p, ⟨hp, hne⟩, rfl⟩

/-! ### Components and their functions -/

namespace Lower

/-- The component is what the candidate is lowered to: under its name, with what it returns for a
body, and with the props that its function declares. -/
structure Makes (k : Candidate) (c : Component) : Prop where
  name : c.signature.name = k.name
  props : c.signature.props.map (·.name) = (props k.function).map (·.name)
  body : c.body = (nest k.returns).nodes

/-- Required props do not change what a candidate makes. -/
theorem Makes.withRequired {k : Candidate} {c : Component} (h : Makes k c)
    (required : Dict (List String)) (name : String) : Makes k (withRequired required name c) := by
  unfold Lower.withRequired
  split
  · refine ⟨h.name, ?_, h.body⟩
    rw [requireProps, List.map_map]
    exact h.props
  · exact h

/-- Every component of a module is made by one of its candidates. -/
theorem Harvest.exists_makes_of_mem {h : Harvest} {file : Option Path} {c : Component}
    (hc : c ∈ (h.components file).values) : ∃ k ∈ h.candidates, Makes k c := by
  obtain ⟨name, c₀, hc₀, rfl⟩ := Dict.mem_values_mapValues hc
  rcases Dict.mem_values_foldl_insert hc₀ with hnone | ⟨e, he, rfl⟩
  · cases hnone
  · obtain ⟨marked, hmarked, rfl⟩ := List.mem_map.1 he
    obtain ⟨k, hk, rfl⟩ := List.mem_map.1 hmarked
    -- Being marked as the default changes neither the name nor the function.
    have hmakes : Makes k
        (Candidate.component h.constants file
          { k with isDefault := k.isDefault || h.defaultName == some k.name }) := ⟨rfl, rfl, rfl⟩
    exact ⟨k, hk, hmakes.withRequired _ _⟩

end Lower

/-- The fields of the object pattern that is the only parameter of a function. -/
def Script.Function.soleFields? (f : Script.Function) : Option (List Field) :=
  match f.params with
  | [.mk _ (.object fields _) _] => some fields
  | _ => none

/-- A function with sole fields has one parameter, which is an object pattern. -/
theorem Script.Function.of_soleFields? {f : Script.Function} {fields : List Field}
    (h : f.soleFields? = some fields) :
    ∃ p rest, f.params = [p] ∧ p.pattern = .object fields rest := by
  unfold soleFields? at h
  split at h
  · next text _ rest value hparams =>
    cases h
    exact ⟨_, rest, hparams, rfl⟩
  · cases h

/-- A function that takes its props apart declares the keys that are spelled out. -/
theorem Lower.map_name_props {f : Script.Function} {fields : List Field}
    (h : f.soleFields? = some fields) : (props f).map (·.name) = fieldNames fields := by
  obtain ⟨p, rest, hparams, hpattern⟩ := Script.Function.of_soleFields? h
  unfold props
  rw [hparams, List.head?_cons, Option.map_some, hpattern]
  dsimp only
  rw [List.map_map]
  exact List.map_id _

/-- Optimizing leaves the signature. -/
theorem signature_iterate (c : Component) (n : Nat) :
    (Component.optimize^[n] c).signature = c.signature := by
  induction n with
  | zero => rfl
  | succ n ih => rw [Function.iterate_succ_apply', Component.optimize, ih]

/-! ### Fields -/

/-- The name that the key of a field spells out. -/
def Script.Field.spelled? : Field → Option String
  | .mk key _ => key.spelled?

/-- **The field binds what its key spells**, and nothing else. Nothing is asked about children. -/
def Script.Field.SpellsNames (f : Field) : Prop :=
  ∀ n, n ≠ "children" → (f.spelled? = some n ↔ n ∈ f.names)

instance (f : Field) : Decidable f.SpellsNames :=
  decidable_of_iff (∀ n ∈ f.spelled?.toList ++ f.names, n ≠ "children" →
    (f.spelled? = some n ↔ n ∈ f.names)) <| by
    constructor
    · intro h n hn
      by_cases hmem : n ∈ f.spelled?.toList ++ f.names
      · exact h n hmem hn
      · rw [List.mem_append, Option.mem_toList, not_or] at hmem
        exact iff_of_false hmem.1 hmem.2
    · exact fun h n _ => h n

/-- No two fields have a name in common, be it a key or a name they bind. -/
def Script.AreApart (fields : List Field) : Prop :=
  fields.Pairwise fun f g => ∀ n, (f.spelled? = some n ∨ n ∈ f.names) →
    ¬ (g.spelled? = some n ∨ n ∈ g.names)

/-- The names of fields are their keys, as they are spelled. -/
theorem Lower.mem_fieldNames_iff {fields : List Field} {n : String} :
    n ∈ fieldNames fields ↔ ∃ f ∈ fields, f.spelled? = some n := by
  rw [fieldNames, List.mem_filterMap]
  exact exists_congr fun f => by cases f; rfl

variable {fields : List Field}

/-- Fields that spell what they bind have the same names in either reading. -/
theorem mem_fieldNames_iff_of_spellsNames (h : ∀ f ∈ fields, f.SpellsNames) {n : String}
    (hn : n ≠ "children") : n ∈ Lower.fieldNames fields ↔ n ∈ fieldsNames fields := by
  rw [Lower.mem_fieldNames_iff, mem_fieldsNames_iff]
  exact exists_congr fun f => and_congr_right fun hf => h f hf n hn

/-- Where no two fields share a name, no field makes up for another one. -/
theorem spellsNames_of_mem_fieldNames_iff (hapart : Script.AreApart fields)
    (h : ∀ n, n ≠ "children" → (n ∈ Lower.fieldNames fields ↔ n ∈ fieldsNames fields)) :
    ∀ f ∈ fields, f.SpellsNames := by
  intro f hf n hn
  -- Two fields with a name in common are one field.
  have hsame {g : Field} (hg : g ∈ fields) (hfn : f.spelled? = some n ∨ n ∈ f.names)
      (hgn : g.spelled? = some n ∨ n ∈ g.names) : f = g := by
    by_contra hne
    have hsymm : Std.Symm fun f g : Field => ∀ n, (f.spelled? = some n ∨ n ∈ f.names) →
        ¬ (g.spelled? = some n ∨ n ∈ g.names) := ⟨fun _ _ h m hg hf => h m hf hg⟩
    exact hapart.forall hf hg hne n hfn hgn
  have hiff := h n hn
  rw [Lower.mem_fieldNames_iff, mem_fieldsNames_iff] at hiff
  constructor
  · intro hspelled
    obtain ⟨g, hg, hgn⟩ := hiff.1 ⟨f, hf, hspelled⟩
    obtain rfl := hsame hg (.inl hspelled) (.inr hgn)
    exact hgn
  · intro hname
    obtain ⟨g, hg, hgn⟩ := hiff.2 ⟨f, hf, hname⟩
    obtain rfl := hsame hg (.inr hname) (.inl hgn)
    exact hgn

/-! ### Inlined components -/

/-- **Inlining binds the keys of the props.** Every component of a lowered source, optimized or not,
is made of a function of the source. If its only parameter is an object pattern, then in every
engine the lines around an inlined body bind the keys that the fields of the pattern spell out,
children aside. If each field binds what its key spells, these are the names that the fields bind,
and they are identifiers. And where no two fields have a name in common, this is the only case in
which they are. -/
theorem inlined_names {file : Option Path} {source : String} {l : Lowered}
    (h : Lowered.ofSource file source = .ok l) {n : Nat} {c : Component}
    (hc : c ∈ (Table.optimize^[n] l.table).components.values) :
    ∃ m k c₀, Script.Module.parse? source = some m ∧ k ∈ (Lower.harvest file m).candidates ∧
      Lower.Makes k c₀ ∧ c = Component.optimize^[n] c₀ ∧
      ∀ fields, k.function.soleFields? = some fields →
        ∀ (e : Engine) level attributes body call,
          e.Writes level [.scope (c.signature.bind attributes) body] call →
          ∃ inner inside names, e.Writes inner body inside ∧ BindsAround inside call names ∧
            (∀ x, x ∈ names ↔ x ≠ "children" ∧ ∃ f ∈ fields, f.spelled? = some x) ∧
            ((∀ f ∈ fields, f.SpellsNames) →
              (∀ x, x ∈ names ↔ x ≠ "children" ∧ x ∈ fieldsNames fields) ∧
              ∀ x ∈ names, IsIdentifier x) ∧
            (Script.AreApart fields →
              (∀ x, x ∈ names ↔ x ≠ "children" ∧ x ∈ fieldsNames fields) →
              ∀ f ∈ fields, f.SpellsNames) := by
  obtain ⟨m, -, hm, htable, -, -⟩ := Lowered.ofSource_ok h
  obtain ⟨c₀, hc₀, rfl⟩ := Table.exists_iterate_of_mem hc
  rw [htable] at hc₀
  obtain ⟨k, hk, hmakes⟩ := Lower.Harvest.exists_makes_of_mem hc₀
  refine ⟨m, k, c₀, hm, hk, hmakes, rfl, ?_⟩
  intro fields hfields e level attributes body call hwrites
  obtain ⟨inner, inside, hinside, hbinds⟩ := binds_around hwrites
  -- What a call binds are the props of the signature, which optimizing keeps.
  have hnames (x : String) :
      x ∈ ((Component.optimize^[n] c₀).signature.bind attributes).map (·.name) ↔
        x ≠ "children" ∧ x ∈ Lower.fieldNames fields := by
    rw [mem_map_name_bind, signature_iterate, hmakes.props, Lower.map_name_props hfields]
  refine ⟨inner, inside, _, hinside, hbinds, ?_, ?_, ?_⟩
  · intro x
    rw [hnames, Lower.mem_fieldNames_iff]
  · intro hspells
    refine ⟨fun x => ?_, fun x hx => ?_⟩
    · rw [hnames]
      exact and_congr_right fun hx => mem_fieldNames_iff_of_spellsNames hspells hx
    · obtain ⟨hne, hx⟩ := (hnames x).1 hx
      rw [mem_fieldNames_iff_of_spellsNames hspells hne, mem_fieldsNames_iff] at hx
      -- What a field binds comes from a pattern of the parsed module, whose names are identifiers.
      obtain ⟨f, hf, hx⟩ := hx
      have hplain : k.Plain file := (Lower.plain_harvest hm).candidates k hk
      obtain ⟨p, rest, hparams, hpattern⟩ := Script.Function.of_soleFields? hfields
      have hsound : p.pattern.IsSound :=
        hplain.function.params p (hparams ▸ List.mem_singleton_self p)
      exact Script.Field.IsSound.object (hpattern ▸ hsound) f hf x hx
  · intro hapart heq
    refine spellsNames_of_mem_fieldNames_iff hapart fun x hx => ?_
    -- Children aside, binding the same names is having the same names among the fields.
    have hiff := (hnames x).symm.trans (heq x)
    simpa only [hx, ne_eq, not_false_eq_true, true_and] using hiff

/-- A component with a default value, a slot and a rest element. -/
theorem inlined_names_card :
    let source := "const Card = (\x7btitle, kind = 'h1', children, ...others\x7d) => <p>{title}</p>;
      export default () => <Card title='x' />;"
    ∃ l c, Lowered.ofSource none source = .ok l ∧
      c ∈ (Table.optimize^[1] l.table).components.values ∧
      c.signature.name = "Card" ∧ ∀ attributes body call,
        Engine.ejs.Writes 0 [.scope (c.signature.bind attributes) body] call →
        ∃ inner inside names, Engine.ejs.Writes inner body inside ∧
          BindsAround inside call names ∧ (∀ x, x ∈ names ↔ x = "title" ∨ x = "kind") ∧
          ∀ x ∈ names, IsIdentifier x := by
  intro source
  -- Both runs are evaluated: that the card is made, and what its pattern spells.
  have hrun : (Lowered.ofSource none source).toOption.any (fun l =>
      (Table.optimize^[1] l.table).components.values.any fun c => c.signature.name == "Card") =
      true := by
    decide +kernel
  have hfunctions : (Script.Module.parse? source).all (fun m =>
      (Lower.harvest none m).candidates.all fun k => k.name != "Card" ||
        k.function.soleFields?.any fun fields =>
          fields.map (·.spelled?) == [some "title", some "kind", some "children"] &&
            fields.all fun f => decide f.SpellsNames) = true := by
    decide +kernel
  obtain ⟨l, hl, hrun⟩ := exists_ok_of_any hrun
  obtain ⟨c, hc, hname⟩ := List.any_eq_true.1 hrun
  have hcard : c.signature.name = "Card" := eq_of_beq hname
  obtain ⟨m, k, c₀, hm, hk, hmakes, rfl, hbound⟩ := inlined_names hl hc
  refine ⟨l, _, hl, hc, hcard, fun attributes body call hwrites => ?_⟩
  rw [signature_iterate, hmakes.name] at hcard
  rw [hm, Option.all_some, List.all_eq_true] at hfunctions
  have hfunction := hfunctions k hk
  rw [hcard, bne_self_eq_false, Bool.false_or, Option.any_eq_true] at hfunction
  obtain ⟨fields, hfields, hchecked⟩ := hfunction
  rw [Bool.and_eq_true, beq_iff_eq, List.all_eq_true] at hchecked
  obtain ⟨hspelled, hspells⟩ := hchecked
  obtain ⟨inner, inside, names, hinside, hbinds, hnames, hsound, -⟩ :=
    hbound fields hfields .ejs 0 attributes body call hwrites
  have hall : ∀ f ∈ fields, f.SpellsNames := fun f hf => of_decide_eq_true (hspells f hf)
  refine ⟨inner, inside, names, hinside, hbinds, fun x => ?_, (hsound hall).2⟩
  -- Of the three keys all but `children` are bound.
  have hkeys : (∃ f ∈ fields, f.spelled? = some x) ↔ some x ∈ fields.map (·.spelled?) := by
    rw [List.mem_map]
  rw [hnames, hkeys, hspelled]
  simp only [List.mem_cons, List.not_mem_nil, or_false, Option.some.injEq]
  constructor
  · rintro ⟨hne, rfl | rfl | rfl⟩
    · exact .inl rfl
    · exact .inr rfl
    · exact absurd rfl hne
  · rintro (rfl | rfl)
    · exact ⟨by decide, .inl rfl⟩
    · exact ⟨by decide, .inr (.inl rfl)⟩

/-- **A prop that is renamed** is bound under its key. The body reads the name that the pattern
binds. -/
theorem renamed_prop_bound_by_key :
    let source := "const Card = ({ title: heading }) => <p>{heading}</p>;
      export default () => <Card title='x' />;"
    (Script.Module.parse? source).map (fun m => (Lower.harvest none m).candidates.map fun k =>
        (k.function.params.map fun p => p.pattern.names, (Lower.props k.function).map (·.name)))
      = some [([["heading"]], ["title"]), ([], [])] ∧
    (Lowered.ofSource none source).toOption.map (fun l =>
        (Engine.ejs.generate 0 l.tree l.table).result.toOption)
      = some (some
        "<% (function (title) \x7b %>\n  <p>\n    <%= heading %>\n  </p>\n<% \x7d)(\"x\"); %>\n") := by
  decide +kernel

end Stencil
