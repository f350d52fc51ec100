import Stencil.Layout.Piece
import Stencil.Lower.Attribute

/-!
# Props receive what the call passes

The name of a prop is looked at twice. Lowering gives every attribute of a markup literal its name
in the template, whether the literal is an element or the call of a component, and binding looks for
the declared names among the names that are left.

* `Lower.Passes` — the value that an attribute passes under its own name, read off the script alone;
* `Lower.IsBlankStyle` — the one attribute that passes nothing: a style object without styles;
* `Lower.attribute?_of_passes` — lowering keeps the name and the value that are passed, unless it
  leaves the attribute out or renames it;
* `Signature.mem_bind_iff` — binding gives every declared name the first value of that name.

The main theorem is `bind_lowered`. The first attribute of a name counts, and a style object without
styles counts as no attribute at all (`bind_blank_style`).
-/

namespace Stencil

namespace Lower

open Script (Expr)

/-- The name that an attribute is written under. -/
def name? : Script.Attribute → Option String
  | .flag name | .string name _ | .value name _ => some name
  | .spread _ => none

/-- A style object without styles. -/
def IsBlankStyle (a : Script.Attribute) : Prop :=
  ∃ e, a = .value "style" e ∧ styleText? e = some ""

/-- **What an attribute passes under its own name.** A style object of literals is passed as the
text of its styles. -/
inductive Passes : Script.Attribute → String → AttributeValue → Prop
  | flag {name : String} : Passes (.flag name) name (.flag true)
  | string {name text : String} : Passes (.string name text) name (.literal text)
  | styles {e : Expr} {text : String} : styleText? e = some text → text ≠ "" →
    Passes (.value "style" e) "style" (.literal text)
  | value {name : String} {e : Expr} : (name = "style" → styleText? e = none) →
    Passes (.value name e) name (.dynamic ⟨e.text⟩)

/-- Every attribute of a name passes a value, except for a style object without styles. -/
theorem exists_passes {a : Script.Attribute} {name : String} (hname : name? a = some name)
    (hblank : ¬IsBlankStyle a) : ∃ v, Passes a name v := by
  cases a with
  | flag n =>
    cases hname
    exact ⟨_, .flag⟩
  | string n text =>
    cases hname
    exact ⟨_, .string⟩
  | value n e =>
    cases hname
    -- Only under the name `style` is the value looked into.
    by_cases hstyle : name = "style"
    · subst hstyle
      cases htext : styleText? e with
      | none => exact ⟨_, .value fun _ => htext⟩
      | some text =>
        refine ⟨_, .styles htext fun hempty => hblank ⟨e, rfl, ?_⟩⟩
        rw [htext, hempty]
    · exact ⟨_, .value fun h => absurd h hstyle⟩
  | spread e => cases hname

/-- **Lowering keeps what is passed**, where the name neither means nothing nor changes. -/
theorem attribute?_of_passes {a : Script.Attribute} {name : String} {v : AttributeValue}
    (h : Passes a name v) (hignored : isIgnored name = false) (hkept : templateName name = name) :
    attribute? a = some ⟨name, v, false⟩ := by
  have hnot : ¬isIgnored name = true := by
    rw [hignored]
    exact Bool.false_ne_true
  cases h with
  | flag | string =>
    rw [attribute?, if_neg hnot, hkept]
    rfl
  | styles htext hne =>
    rw [attribute?, if_neg hnot, hkept, valueAttribute?, if_pos rfl, htext]
    split
    · next hempty => exact absurd (Option.some.inj hempty) hne
    · next styles _ hstyles =>
      cases hstyles
      rfl
    · next hnone => cases hnone
  -- Under any other name, or without styles in it, the value is passed as code.
  | @value _ e hstyle =>
    have hnone : (if name = "style" then styleText? e else none) = none := by
      split
      · next hname => exact hstyle hname
      · rfl
    rw [attribute?, if_neg hnot, hkept, valueAttribute?, hnone]
    rfl

end Lower

/-! ### Bindings -/

/-- A declared prop other than the children is bound to the first value under its name. -/
theorem Signature.mem_bind_iff {s : Signature} {p : PropDef} (hp : p ∈ s.props)
    (hchildren : p.name ≠ "children") {attributes : List Attribute}
    {value : Option AttributeValue} :
    ⟨p.name, value⟩ ∈ s.bind attributes ↔
      value = (attributes.find? (·.name == p.name)).map (·.value) := by
  rw [bind, List.mem_map]
  constructor
  · -- A binding of the name comes from a prop of that name, which need not be `p` itself.
    rintro ⟨q, -, hq⟩
    obtain ⟨hname, rfl⟩ := Binding.mk.inj hq
    rw [hname]
  · rintro rfl
    refine ⟨p, List.mem_filter.2 ⟨hp, ?_⟩, rfl⟩
    rw [bne_iff_ne]
    exact hchildren

/-- What comes to no attribute of a name does not count when the name is looked for. -/
theorem find?_filterMap_append {α : Type} {f : α → Option Attribute} {name : String}
    {before : List α} (h : ∀ b ∈ before, ∀ y, f b = some y → y.name ≠ name) (rest : List α) :
    ((before ++ rest).filterMap f).find? (·.name == name) =
      (rest.filterMap f).find? (·.name == name) := by
  -- What stands before has other names, so the search goes past it.
  have hnone : (before.filterMap f).find? (·.name == name) = none := by
    rw [List.find?_eq_none]
    intro y hy hname
    obtain ⟨b, hb, hfb⟩ := List.mem_filterMap.1 hy
    exact h b hb y hfb (eq_of_beq hname)
  rw [List.filterMap_append, List.find?_append, hnone, Option.none_or]

/-- The first attribute that is lowered under a name is the one that is found. -/
theorem find?_lowered {before after : List Script.Attribute} {a : Script.Attribute}
    {x : Attribute} (hx : Lower.attribute? a = some x)
    (hbefore : ∀ b ∈ before, ∀ y, Lower.attribute? b = some y → y.name ≠ x.name) :
    ((before ++ a :: after).filterMap Lower.attribute?).find? (·.name == x.name) = some x := by
  rw [find?_filterMap_append hbefore, List.filterMap_cons_some hx]
  exact List.find?_cons_of_pos (beq_self_eq_true x.name)

open Lower in
/-- **A declared prop receives what the call passes.** Take a prop other than the children whose
name is neither left out nor changed by lowering, and any call. The first attribute of that name is
the one that counts, and the prop is bound to what it passes and to nothing else. The prop is bound
to nothing only if no attribute of its name passes anything, that is, if the call has none but style
objects without styles. -/
theorem bind_lowered (s : Signature) (p : PropDef) (attributes : List Script.Attribute)
    (hp : p ∈ s.props) (hchildren : p.name ≠ "children") (hignored : isIgnored p.name = false)
    (hkept : templateName p.name = p.name) :
    (∀ before a after, attributes = before ++ a :: after → name? a = some p.name →
      ¬IsBlankStyle a →
      (∀ b ∈ before, ∀ y, attribute? b = some y → y.name ≠ p.name) →
      ∃ v, Passes a p.name v ∧ ∀ value,
        ⟨p.name, value⟩ ∈ s.bind (attributes.filterMap attribute?) ↔ value = some v) ∧
    (⟨p.name, none⟩ ∈ s.bind (attributes.filterMap attribute?) →
      ∀ a ∈ attributes, name? a = some p.name → p.name = "style" ∧ IsBlankStyle a) := by
  constructor
  · rintro before a after rfl hname hblank hbefore
    obtain ⟨v, hv⟩ := exists_passes hname hblank
    refine ⟨v, hv, fun value => ?_⟩
    have hx := attribute?_of_passes hv hignored hkept
    have hfound := @find?_lowered before after a _ hx hbefore
    rw [Signature.mem_bind_iff hp hchildren, hfound]
    rfl
  · intro hnone a ha hname
    rw [Signature.mem_bind_iff hp hchildren, eq_comm, Option.map_eq_none_iff,
      List.find?_eq_none] at hnone
    by_cases hblank : IsBlankStyle a
    · refine ⟨?_, hblank⟩
      obtain ⟨e, rfl, -⟩ := hblank
      exact (Option.some.inj hname).symm
    · -- It would pass a value, and lowering would keep it under the name of the prop.
      obtain ⟨v, hv⟩ := exists_passes hname hblank
      have hx := attribute?_of_passes hv hignored hkept
      exact absurd (beq_self_eq_true _) (hnone _ (List.mem_filterMap.2 ⟨a, ha, hx⟩))

/-- Two attributes of one name, and a style object without styles. -/
theorem bind_lowered_first_title :
    let s : Signature := { name := "Card", props := [⟨"title", false⟩, ⟨"style", false⟩] }
    let blank : Script.Attribute := .value "style" (.mk "\x7b\x7d" (.object []))
    let attributes : List Script.Attribute := [blank, .string "title" "first", .flag "title"]
    (∀ value, ⟨"title", value⟩ ∈ s.bind (attributes.filterMap Lower.attribute?) ↔
      value = some (.literal "first")) ∧
    ¬⟨"title", none⟩ ∈ s.bind (attributes.filterMap Lower.attribute?) := by
  intro s blank attributes
  have hnot : ¬Lower.IsBlankStyle (.string "title" "first") := by
    rintro ⟨e, he, -⟩
    cases he
  have hbefore : ∀ b ∈ [blank], ∀ y, Lower.attribute? b = some y → y.name ≠ "title" := by
    intro b hb y hy
    rw [List.mem_singleton.1 hb] at hy
    cases hy
  obtain ⟨hfirst, -⟩ := bind_lowered s ⟨"title", false⟩ attributes List.mem_cons_self (by decide)
    (by decide) (by decide)
  obtain ⟨v, hpasses, hbound⟩ := hfirst [blank] _ _ rfl rfl hnot hbefore
  cases hpasses
  refine ⟨hbound, fun hnone => ?_⟩
  cases (hbound none).1 hnone

/-- **Attributes that are passed as nothing**, although the call has them: a style object without
styles, and an attribute whose name lowering changes. -/
theorem bind_blank_style :
    let s : Signature := { name := "Box", props := [⟨"style", false⟩, ⟨"className", false⟩] }
    let attributes : List Script.Attribute :=
      [.value "style" (.mk "\x7b\x7d" (.object [])), .string "className" "a"]
    attributes.map Lower.name? = [some "style", some "className"] ∧
      s.bind (attributes.filterMap Lower.attribute?) = [⟨"style", none⟩, ⟨"className", none⟩] :=
  ⟨rfl, by decide⟩

end Stencil
