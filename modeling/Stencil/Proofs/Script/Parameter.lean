import Stencil.Proofs.Script.Name
import Stencil.Script.Parser.Module

/-!
# What parameters bind

The parser reads each name that a pattern binds by the rule `name`. So what a pattern binds are
identifiers of the language: words, and none of them reserved (`Pattern.IsSound`). This is shown of
the rules for patterns and parameters, given that the grammar answers such patterns
(`yields_pattern`, `yields_parameters`, `yields_arrowStart`). Default values and computed keys are
not looked into: what they bind, the pattern does not.
-/

namespace Stencil.Script

/-- The name is a word that is not reserved. -/
def IsIdentifier (n : String) : Prop :=
  IsWord n.toList ∧ n ∉ Parser.reserved

/-- The names that a field binds. -/
def Field.names : Field → List String
  | .mk _ value => value.names

/-- Patterns bind the names of each of them. -/
theorem mem_patternsNames_iff {ps : List Pattern} {n : String} :
    n ∈ patternsNames ps ↔ ∃ p ∈ ps, n ∈ p.names := by
  induction ps with
  | nil => simp [patternsNames]
  | cons p ps ih => simp [patternsNames, ih]

theorem mem_fieldsNames_iff {fs : List Field} {n : String} :
    n ∈ fieldsNames fs ↔ ∃ f ∈ fs, n ∈ f.names := by
  induction fs with
  | nil => simp [fieldsNames]
  | cons f fs ih =>
    obtain ⟨key, value⟩ := f
    simp [fieldsNames, ih, show (Field.mk key value).names = value.names from rfl]

/-- The pattern binds identifiers only. -/
def Pattern.IsSound (p : Pattern) : Prop :=
  ∀ n ∈ p.names, IsIdentifier n

def Field.IsSound (f : Field) : Prop :=
  ∀ n ∈ f.names, IsIdentifier n

/-- An identifier as a pattern binds itself. -/
theorem Pattern.isSound_name {n : String} (h : IsIdentifier n) : (Pattern.name n).IsSound :=
  fun _ hm => List.mem_singleton.1 hm ▸ h

/-- An object is sound if its fields and its rest are. -/
theorem Pattern.isSound_object {fields : List Field} {rest : Option Pattern}
    (hfields : ∀ f ∈ fields, f.IsSound) (hrest : ∀ p ∈ rest, p.IsSound) :
    (Pattern.object fields rest).IsSound := by
  intro n hn
  rw [Pattern.names, List.mem_append, mem_fieldsNames_iff] at hn
  rcases hn with ⟨f, hf, hn⟩ | hn
  · exact hfields f hf n hn
  · cases rest with
    | none => cases hn
    | some p => exact hrest p rfl n hn

/-- An array is sound if its items are. -/
theorem Pattern.isSound_array {items : List Pattern} (h : ∀ p ∈ items, p.IsSound) :
    (Pattern.array items).IsSound := by
  intro n hn
  rw [Pattern.names, mem_patternsNames_iff] at hn
  obtain ⟨p, hp, hn⟩ := hn
  exact h p hp n hn

/-- Conversely the fields of a sound object are sound. -/
theorem Field.IsSound.object {fields : List Field} {rest : Option Pattern}
    (h : (Pattern.object fields rest).IsSound) : ∀ f ∈ fields, f.IsSound := by
  intro f hf n hn
  refine h n ?_
  rw [Pattern.names, List.mem_append, mem_fieldsNames_iff]
  exact .inl ⟨f, hf, hn⟩

namespace Parser

variable {α β : Type} {P : α → Prop} {Q : β → Prop}

/-! ### Repeated rules -/

/-- What each round of a loop yields holds of all that is collected. -/
theorem Yields.many {p : Parser (Option α)} (hp : Yields p fun o => ∀ a ∈ o, P a) :
    Yields (many p) fun as => ∀ a ∈ as, P a := by
  -- By induction on the fuel of the loop, which need not be enough for the claim to hold.
  have hbound : ∀ bound, Yields (manyUpTo p bound) fun as => ∀ a ∈ as, P a := by
    intro bound
    induction bound with
    | zero => exact .pure nofun
    | succ bound ih =>
      refine .bind hp fun o ho => ?_
      cases o with
      | none => exact .pure nofun
      | some a => exact .bind ih fun as has => .pure (List.forall_mem_cons.2 ⟨ho a rfl, has⟩)
  exact .after fun s => hbound _

/-- A name that the parser accepts is an identifier. -/
theorem yields_name (c : Context) : Yields (name c) IsIdentifier := by
  refine .bind .peek fun lexeme hlexeme => ?_
  split
  · next w escaped hw =>
    split
    · next hname =>
      exact .after fun _ => .pure ⟨hlexeme w escaped hw, not_mem_reserved hname⟩
    · exact .failure
  · exact .failure

/-- A property of all that may be picked holds of what is picked. -/
theorem forall_mem_filterMap {f : β → Option α} {bs : List β} (h : ∀ b ∈ bs, ∀ a ∈ f b, P a) :
    ∀ a ∈ bs.filterMap f, P a := by
  intro a ha
  obtain ⟨b, hb, hab⟩ := List.mem_filterMap.1 ha
  exact h b hb a hab

variable {grammar : Grammar} {c : Context}

/-! ### Patterns -/

/-- The grammar answers patterns that bind identifiers only. -/
def BindsIdentifiers (grammar : Grammar) : Prop :=
  ∀ c, Yields (grammar (.pattern c)) Pattern.IsSound

/-- An element of a pattern is sound; its default value binds nothing. -/
theorem yields_patternElement (hg : BindsIdentifiers grammar) :
    Yields (patternElement grammar c) Pattern.IsSound := by
  refine .bind (hg c) fun p hp => .after fun value => ?_
  split
  · exact .pure hp
  · exact .pure hp

theorem yields_patternField (hg : BindsIdentifiers grammar) :
    Yields (patternField grammar c) Field.IsSound := by
  refine .after fun before => .after fun k => .after fun colon => .ite ?_ ?_
  · exact .bind (yields_patternElement hg) fun p hp => .pure hp
  · refine .after fun _ => .bind (yields_name c) fun n hn => .after fun value => ?_
    split
    · exact .pure (Pattern.isSound_name hn)
    · exact .pure (Pattern.isSound_name hn)

/-- So are the items between brackets, the rest element among them. -/
theorem yields_arrayItems {item rest : Parser α} (hitem : Yields item P) (hrest : Yields rest P) :
    Yields (arrayItems item rest) fun as => ∀ a ∈ as, P a := by
  have hsome (a : α) (ha : P a) : ∀ o ∈ some (some a), ∀ b ∈ o, P b := by
    rintro _ ⟨⟩ _ ⟨⟩
    exact ha
  refine .bind (P := fun items => ∀ o ∈ items, ∀ a ∈ o, P a) (.many ?_) fun items hitems =>
    .pure (forall_mem_filterMap hitems)
  -- The end, a hole, a rest element or an item.
  refine .after fun closed => .ite (.pure nofun) (.after fun hole => .ite (.pure ?_) ?_)
  · rintro _ ⟨⟩ _ ⟨⟩
  · refine .after fun dots => .ite ?_ ?_
    · exact .bind hrest fun r hr => .after fun _ => .after fun _ => .pure (hsome r hr)
    · refine .bind hitem fun i hi => .after fun closed => ?_
      exact .ite (.after fun _ => .pure (hsome i hi)) (.pure (hsome i hi))

/-- So are the fields between braces, and the rest element. -/
theorem yields_objectFields {field : Parser α} {rest : Parser β} (hfield : Yields field P)
    (hrest : Yields rest Q) :
    Yields (objectFields field rest) fun r => (∀ a ∈ r.1, P a) ∧ ∀ b ∈ r.2, Q b := by
  -- An entry is read as a field or as the rest, and either has its property.
  have hsome (read : α ⊕ β) (hread : read.elim P Q) : ∀ r ∈ some read, r.elim P Q := by
    rintro _ ⟨⟩
    exact hread
  refine .bind (P := fun read => ∀ r ∈ read, r.elim P Q) (.many ?_) fun read hread => .pure ?_
  · refine .after fun closed => .ite (.pure nofun) (.after fun dots => .ite ?_ ?_)
    · exact .bind hrest fun r hr => .after fun _ => .after fun _ => .pure (hsome (.inr r) hr)
    · refine .bind hfield fun f hf => .after fun closed => ?_
      exact .ite (.after fun _ => .pure (hsome (.inl f) hf)) (.pure (hsome (.inl f) hf))
  · -- The fields and the rest are taken apart again afterwards.
    refine ⟨forall_mem_filterMap fun r hr a ha => ?_, fun b hb => ?_⟩
    · cases r with
      | inl f =>
        cases ha
        exact hread _ hr
      | inr r => cases ha
    · refine forall_mem_filterMap (fun r hr a ha => ?_) b (List.mem_of_mem_head? hb)
      cases r with
      | inl f => cases ha
      | inr r =>
        cases ha
        exact hread _ hr

/-- A pattern is a name, an array or an object, each of them sound. -/
theorem yields_pattern (hg : BindsIdentifiers grammar) :
    Yields (pattern grammar c) Pattern.IsSound := by
  refine .after fun bracket => .ite ?_ (.after fun brace => .ite ?_ ?_)
  · refine .bind (yields_arrayItems (yields_patternElement hg) (hg c)) fun items hitems => ?_
    exact .pure (Pattern.isSound_array hitems)
  · refine .bind (yields_objectFields (yields_patternField hg) (hg c)) fun r hr => ?_
    exact .pure (Pattern.isSound_object hr.1 hr.2)
  · exact .bind (yields_name c) fun n hn => .pure (Pattern.isSound_name hn)

/-! ### Parameters -/

/-- A parameter is an element of a pattern. -/
theorem yields_parameter (hg : BindsIdentifiers grammar) :
    Yields (parameter grammar c) fun p => p.pattern.IsSound :=
  .after fun _ => .bind (hg c) fun _ hp => .after fun _ => .after fun _ => .pure hp

/-- So are all parameters in parentheses. -/
theorem yields_parameters (hg : BindsIdentifiers grammar) :
    Yields (parameters grammar c) fun r => ∀ p ∈ r.1, p.pattern.IsSound := by
  -- Nothing is asked of the rest parameter.
  refine .bind (P := fun read : List (Param ⊕ Pattern) =>
    ∀ r ∈ read, ∀ p, r = .inl p → p.pattern.IsSound) (.many ?_) fun read hread => .pure ?_
  · refine .after fun closed => .ite (.pure nofun) (.after fun dots => .ite ?_ ?_)
    · refine .after fun r => .after fun _ => .after fun _ => .pure ?_
      rintro _ ⟨⟩ _ ⟨⟩
    · have hsome (p : Param) (hp : p.pattern.IsSound) :
          ∀ r ∈ some (.inl p : Param ⊕ Pattern), ∀ q, r = .inl q → q.pattern.IsSound := by
        rintro _ ⟨⟩ _ ⟨⟩
        exact hp
      refine .bind (yields_parameter hg) fun p hp => .after fun closed => ?_
      exact .ite (.after fun _ => .pure (hsome p hp)) (.pure (hsome p hp))
  · refine forall_mem_filterMap fun r hr p hp => ?_
    cases r with
    | inl q =>
      cases hp
      exact hread _ hr _ rfl
    | inr r => cases hp

/-- The parameters of an arrow function are a name or a list of them. -/
theorem yields_arrowHead (hg : BindsIdentifiers grammar) :
    Yields (arrowHead grammar c) fun r => ∀ p ∈ r.1, p.pattern.IsSound := by
  refine .after fun parenthesis => .ite ?_ ?_
  · exact .bind (yields_parameters hg) fun params hparams => .after fun _ => .pure hparams
  · refine .bind (yields_name c) fun n hn => .after fun _ => .pure fun p hp => ?_
    obtain rfl := List.mem_singleton.1 hp
    exact Pattern.isSound_name hn

/-- They stay the same when the arrow function is read again from its start. -/
theorem yields_arrowStart (hg : BindsIdentifiers grammar) :
    Yields (arrowStart grammar c) fun r => ∀ p ∈ r.2.1, p.pattern.IsSound := by
  refine .bind (.attempt (.after fun _ => yields_arrowHead hg)) fun head hhead => ?_
  split
  · next params rest => exact .pure (hhead _ rfl)
  · exact .bind (yields_arrowHead hg) fun r hr => .pure hr

end Parser

end Stencil.Script
