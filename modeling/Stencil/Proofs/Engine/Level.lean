import Stencil.Proofs.Engine.Refusal

/-!
# The initial level

A template is generated from an initial level on, for a place inside another template. This module
shows that the level only shifts the template.

* `Emission.raise` — an emission with its line deeper by a number of levels. Warnings and failures
  stand at no level, so they stay as they are;
* `Engine.emissions` — what an engine gives off for pieces, with its lines as texts.

Each engine threads the level on its own, through closing lines and the bodies of its scopes, and
`Ejs.emitAll_raise`, `Pug.emitAll_raise` and `Liquid.emitAll_raise` follow it construct by
construct. The main theorem is `generate_raised`.
-/

namespace Stencil

/-! ### Raised emissions -/

namespace Emission

variable {δ ε : Type}

/-- The emission with the construct of its line put in other terms. -/
def map (f : δ → ε) : Emission δ → Emission ε
  | .line level content => .line level (f content)
  | .warning w => .warning w
  | .failure cause => .failure cause

/-- The emission with its line `n` levels deeper. -/
def raise (n : Nat) : Emission δ → Emission δ
  | .line level content => .line (level + n) content
  | .warning w => .warning w
  | .failure cause => .failure cause

/-- Warnings have no level to raise. -/
theorem map_raise_warnings (n : Nat) (h : Head) :
    (h.warnings : List (Emission δ)).map (raise n) = h.warnings := by
  rw [Head.warnings]
  split <;> rfl

/-- Raising a line does not look at what it says. -/
theorem raise_map (f : δ → ε) (n : Nat) (e : Emission δ) :
    (e.map f).raise n = (e.raise n).map f := by
  cases e <;> rfl

/-- A raised emission is taken for what it was where the level is not looked at. -/
theorem failure?_raise (n : Nat) (e : Emission δ) : (e.raise n).failure? = e.failure? := by
  cases e <;> rfl

/-- A warning stays the same when it is raised. -/
theorem warning?_raise (n : Nat) (e : Emission δ) : (e.raise n).warning? = e.warning? := by
  cases e <;> rfl

/-- The first failure stays the same when all is raised. -/
theorem findSome?_raise (n : Nat) (es : List (Emission δ)) :
    (es.map (raise n)).findSome? failure? = es.findSome? failure? := by
  rw [List.findSome?_map]
  exact congrArg (es.findSome? ·) (funext (failure?_raise n))

/-- So does what comes before it, but for the levels. -/
theorem untilFailure_raise (n : Nat) (es : List (Emission δ)) :
    untilFailure (es.map (raise n)) = (untilFailure es).map (raise n) := by
  unfold untilFailure
  rw [List.takeWhile_map]
  congr 2
  funext e
  cases e <;> rfl

/-- Raised emissions have the same lines, at raised levels. -/
theorem lines_raise (n : Nat) (es : List (Emission δ)) :
    lines (es.map (raise n)) = (lines es).map fun l => (l.1 + n, l.2) := by
  unfold lines
  rw [List.filterMap_map, List.map_filterMap]
  congr 1
  funext e
  cases e <;> rfl

theorem warnings_outcome_raise (spell : δ → String) (n : Nat) (es : List (Emission δ)) :
    (outcome spell (es.map (raise n))).warnings = (outcome spell es).warnings := by
  unfold outcome
  rw [untilFailure_raise, List.filterMap_map]
  exact congrArg (fun f => (untilFailure es).filterMap f) (funext (warning?_raise n))

end Emission

/-! ### EJS -/

namespace Ejs

open Emission

mutual

/-- A piece at a raised level is emitted as at the lower one, raised. -/
theorem emit_raise (n level : Nat) : ∀ p : Piece, emit (level + n) p = (emit level p).map (raise n)
  | .element head content => by
    have hcontent := emitAll_raise n (level + 1) content
    rw [Nat.add_right_comm] at hcontent
    rw [emit, emit, List.map_append, map_raise_warnings, hcontent]
    split
    · rfl
    · split
      · rfl
      · rw [List.map_append]
        rfl
  | .text _ => rfl
  | .interpolation _ => rfl
  | .condition test consequent alternate => by
    have hconsequent := emitConsequent_raise n (level + 1) consequent
    rw [Nat.add_right_comm] at hconsequent
    rw [emit, emit, hconsequent, emitAlternate_raise n level alternate, List.map_append,
      List.map_append]
    rfl
  | .iteration loop body => by
    have hbody := emitAll_raise n (level + 1) body
    rw [Nat.add_right_comm] at hbody
    rw [emit, emit, hbody, List.map_append]
    rfl
  | .scope bindings body => by
    have hbody := emitAll_raise n (level + 1) body
    rw [Nat.add_right_comm] at hbody
    rw [emit, emit]
    -- The body of a scope without bindings stays at the level of the call.
    split
    · exact emitAll_raise n level body
    · rw [hbody, List.map_append]
      rfl

theorem emitAll_raise (n level : Nat) : ∀ ps : List Piece,
    emitAll (level + n) ps = (emitAll level ps).map (raise n)
  | [] => rfl
  | p :: ps => by
    rw [emitAll, emitAll, List.map_append, emit_raise n level p, emitAll_raise n level ps]

theorem emitConsequent_raise (n level : Nat) : ∀ b : Option (List Piece),
    emitConsequent (level + n) b = (emitConsequent level b).map (raise n)
  | none => rfl
  | some ps => emitAll_raise n level ps

theorem emitAlternate_raise (n level : Nat) : ∀ b : Option (List Piece),
    emitAlternate (level + n) b = (emitAlternate level b).map (raise n)
  | none => rfl
  | some ps => by
    have hps := emitAll_raise n (level + 1) ps
    rw [Nat.add_right_comm] at hps
    rw [emitAlternate, emitAlternate, hps]
    rfl

end

end Ejs

/-! ### Pug -/

namespace Pug

open Emission

/-- Lines at one level are raised together. -/
theorem map_raise_map_line {α : Type} (n level : Nat) (content : α → Directive) (as : List α) :
    (as.map fun a => Emission.line level (content a)).map (raise n)
      = as.map fun a => Emission.line (level + n) (content a) := by
  rw [List.map_map]
  rfl

mutual

/-- A piece at a raised level is emitted as at the lower one, raised. -/
theorem emit_raise (n level : Nat) : ∀ p : Piece, emit (level + n) p = (emit level p).map (raise n)
  | .element head content => by
    -- Content one level deeper is raised from there, so `n` is moved behind the one.
    have hcontent := emitAll_raise n (level + 1) content
    rw [Nat.add_right_comm] at hcontent
    rw [emit, emit, List.map_append, map_raise_warnings, hcontent]
    rfl
  | .text _ => rfl
  | .interpolation _ => rfl
  | .condition test none none => rfl
  | .condition test none (some alternate) => by
    have halternate := emitAll_raise n (level + 1) alternate
    rw [Nat.add_right_comm] at halternate
    rw [emit, emit, halternate]
    rfl
  | .condition test (some consequent) alternate => by
    have hconsequent := emitAll_raise n (level + 1) consequent
    rw [Nat.add_right_comm] at hconsequent
    rw [emit, emit, emitConsequent, emitConsequent, hconsequent,
      emitAlternate_raise n level alternate, List.map_append]
    · rfl
    all_goals exact nofun
  | .iteration loop body => by
    have hbody := emitAll_raise n (level + 1) body
    rw [Nat.add_right_comm] at hbody
    rw [emit, emit, hbody, List.map_append, map_raise_map_line n level fun d => d]
  | .scope bindings body => by
    rw [emit, emit, emitAll_raise n level body, List.map_append, map_raise_map_line]

theorem emitAll_raise (n level : Nat) : ∀ ps : List Piece,
    emitAll (level + n) ps = (emitAll level ps).map (raise n)
  | [] => rfl
  | p :: ps => by
    rw [emitAll, emitAll, List.map_append, emit_raise n level p, emitAll_raise n level ps]

/-- So is the other branch, with the line before it. -/
theorem emitAlternate_raise (n level : Nat) : ∀ b : Option (List Piece),
    emitAlternate (level + n) b = (emitAlternate level b).map (raise n)
  | none => rfl
  | some ps => by
    have hps := emitAll_raise n (level + 1) ps
    rw [Nat.add_right_comm] at hps
    rw [emitAlternate, emitAlternate, hps]
    rfl

end

end Pug

/-! ### Liquid -/

namespace Liquid

open Emission

/-- A line or the failure to write it, at a raised level. -/
theorem lineOrFailure_raise (n level : Nat) (d : Except Failure Directive) :
    lineOrFailure (level + n) d = (lineOrFailure level d).raise n := by
  cases d <;> rfl

/-- The assignments of a call, at a raised level. -/
theorem map_raise_bindings (n level : Nat) (bindings : List Binding) :
    bindings.map (emitBinding (level + n)) = (bindings.map (emitBinding level)).map (raise n) := by
  rw [List.map_map]
  exact congrArg (fun f => bindings.map f) (funext fun b => lineOrFailure_raise n level _)

/-- Lines at a raised level. -/
theorem map_raise_lines (n level : Nat) (ds : List Directive) :
    ds.map (Emission.line (level + n)) = (ds.map (Emission.line level)).map (raise n) := by
  rw [List.map_map]
  rfl

/-- A test raises with its content: its closing line stands at its own level. -/
theorem emitTest_raise (n level : Nat) (flip : Bool) (test : Code)
    (content : List (Emission Directive)) :
    emitTest (level + n) flip test (content.map (raise n))
      = (emitTest level flip test content).map (raise n) := by
  unfold emitTest
  -- Whether the test can be spelled does not depend on the level.
  cases testOf test with
  | error cause => rfl
  | ok t =>
    dsimp only
    rw [List.map_append]
    rfl

mutual

/-- A piece at a raised level is emitted as at the lower one, raised: what is refused does not
depend on the level. -/
theorem emit_raise (n level : Nat) : ∀ p : Piece, emit (level + n) p = (emit level p).map (raise n)
  | .element head content => by
    have hcontent := emitAll_raise n (level + 1) content
    rw [Nat.add_right_comm] at hcontent
    rw [emit, emit, List.map_append, map_raise_warnings, hcontent]
    -- Attributes with no words leave a failure in place of the tag, at no level.
    cases slots head.attributes with
    | error cause => rfl
    | ok attributes =>
      dsimp only
      split
      · rfl
      · split
        · rfl
        · rw [List.map_append]
          rfl
  | .text _ => rfl
  | .interpolation code => by
    rw [emit, emit, lineOrFailure_raise]
    rfl
  | .condition test none none => emitTest_raise n level false test []
  | .condition test none (some alternate) => by
    have halternate := emitAll_raise n (level + 1) alternate
    rw [Nat.add_right_comm] at halternate
    rw [emit, emit, halternate, emitTest_raise]
  | .condition test (some consequent) alternate => by
    have hconsequent := emitAll_raise n (level + 1) consequent
    rw [Nat.add_right_comm] at hconsequent
    rw [emit, emit, emitConsequent, emitConsequent, hconsequent,
      emitAlternate_raise n level alternate, ← List.map_append, emitTest_raise]
    all_goals exact nofun
  | .iteration loop body => by
    have hbody := emitAll_raise n (level + 1) body
    have hindex := map_raise_lines n (level + 1) (loopIndex loop)
    rw [Nat.add_right_comm] at hbody hindex
    rw [emit, emit]
    -- The same holds of what the loop runs over.
    cases loop.iterable.liquid with
    | error cause => rfl
    | ok iterable =>
      dsimp only
      rw [hbody, hindex, map_raise_lines, List.map_append, List.map_append, List.map_append]
      rfl
  | .scope bindings body => by
    rw [emit, emit, emitAll_raise n level body, map_raise_bindings, List.map_append]

theorem emitAll_raise (n level : Nat) : ∀ ps : List Piece,
    emitAll (level + n) ps = (emitAll level ps).map (raise n)
  | [] => rfl
  | p :: ps => by
    rw [emitAll, emitAll, List.map_append, emit_raise n level p, emitAll_raise n level ps]

/-- So is the other branch, with the line before it. -/
theorem emitAlternate_raise (n level : Nat) : ∀ b : Option (List Piece),
    emitAlternate (level + n) b = (emitAlternate level b).map (raise n)
  | none => rfl
  | some ps => by
    have hps := emitAll_raise n (level + 1) ps
    rw [Nat.add_right_comm] at hps
    rw [emitAlternate, emitAlternate, hps]
    rfl

end

end Liquid

/-! ### Engines -/

namespace Engine

open Emission

/-- What an engine gives off for pieces, with its lines as texts. -/
def emissions (e : Engine) (level : Nat) (ps : List Piece) : List (Emission String) :=
  match e with
  | .ejs => (Ejs.emitAll level ps).map (Emission.map Ejs.Directive.spell)
  | .pug => (Pug.emitAll level ps).map (Emission.map Pug.Directive.spell)
  | .liquid => (Liquid.emitAll level ps).map (Emission.map Liquid.Directive.spell)

end Engine

namespace Emission

variable {δ ε : Type}

/-- What a line says does not matter to where the failure is. -/
theorem failure?_map (f : δ → ε) (e : Emission δ) : (e.map f).failure? = e.failure? := by
  cases e <;> rfl

/-- Emissions with their lines spelled come to what they came to before. -/
theorem outcome_map (spell : δ → String) (es : List (Emission δ)) :
    outcome id (es.map (map spell)) = outcome spell es := by
  -- `spell` changes only the content of a line, so the emissions up to the failure, the warnings
  -- and the failure are found as before.
  have huntil : untilFailure (es.map (map spell)) = (untilFailure es).map (map spell) := by
    unfold untilFailure
    rw [List.takeWhile_map]
    congr 2
    funext e
    cases e <;> rfl
  have hwarning : warning? ∘ map spell = warning? := by
    funext e
    cases e <;> rfl
  have hfailure : failure? ∘ map spell = failure? := funext (failure?_map spell)
  have htext : text id ∘ map spell = text spell := by
    funext e
    cases e <;> rfl
  unfold outcome
  rw [huntil, List.filterMap_map, hwarning, List.findSome?_map, hfailure, List.map_map, htext]

end Emission

namespace Engine

open Emission

/-- What an engine prints is the outcome of its emissions. -/
theorem print_eq (e : Engine) (level : Nat) (ps : List Piece) :
    e.print level ps = outcome id (e.emissions level ps) := by
  cases e with
  | ejs => exact (outcome_map _ _).symm
  | pug => exact (outcome_map _ _).symm
  | liquid => exact (outcome_map _ _).symm

/-- **An engine raises whatever it writes** by what its first level is raised by. -/
theorem emissions_raise (e : Engine) (n level : Nat) (ps : List Piece) :
    e.emissions (level + n) ps = (e.emissions level ps).map (raise n) := by
  -- Spelling looks at the content of a line, and raising at its level.
  have hmap {δ : Type} (spell : δ → String) (es : List (Emission δ)) :
      (es.map (raise n)).map (Emission.map spell)
        = (es.map (Emission.map spell)).map (raise n) := by
    rw [List.map_map, List.map_map]
    exact congrArg (fun f => es.map f) (funext fun d => (raise_map spell n d).symm)
  cases e with
  | ejs => rw [emissions, Ejs.emitAll_raise, hmap]; rfl
  | pug => rw [emissions, Pug.emitAll_raise, hmap]; rfl
  | liquid => rw [emissions, Liquid.emitAll_raise, hmap]; rfl

end Engine

/-- A line at a deeper level has the indentation for the difference in front. -/
theorem indented_add (n level : Nat) (s : String) :
    indented (level + n) s
      = String.ofList (List.replicate n indentUnit).flatten ++ indented level s := by
  have hunits : (List.replicate (level + n) indentUnit).flatten
      = (List.replicate n indentUnit).flatten ++ (List.replicate level indentUnit).flatten := by
    rw [← List.flatten_append, List.replicate_append_replicate, Nat.add_comm]
  unfold indented
  rw [hunits, String.ofList_append, String.append_assoc, String.append_assoc, String.append_assoc]

/-- **The initial level only shifts a template.** From whatever level an engine starts, the
warnings are those at level zero. The emitted lines are those at level zero, each deeper by the
initial level. A failure at level zero is the failure at any level; and where there is a template,
it is the template of level zero with as many units of indentation in front of every emitted line.
-/
theorem generate_raised (e : Engine) (n : Nat) (tree : Node) (table : Table) :
    let flat := e.emissions 0 (tree.layout table)
    let raised := e.emissions n (tree.layout table)
    raised = flat.map (Emission.raise n) ∧
    Emission.lines raised = (Emission.lines flat).map (fun l => (l.1 + n, l.2)) ∧
    (e.generate n tree table).warnings = (e.generate 0 tree table).warnings ∧
    ((∃ cause, (e.generate 0 tree table).result = .error cause ∧
        (e.generate n tree table).result = .error cause) ∨
      ((e.generate 0 tree table).result =
          .ok (String.join ((Emission.lines flat).map fun l => indented l.1 l.2)) ∧
        (e.generate n tree table).result =
          .ok (String.join ((Emission.lines flat).map fun l =>
            String.ofList (List.replicate n indentUnit).flatten ++ indented l.1 l.2)))) := by
  intro flat raised
  -- The engines are followed by `emissions_raise`; the rest is about emissions in general.
  have hraised : raised = flat.map (Emission.raise n) := by
    rw [← Engine.emissions_raise, Nat.zero_add]
  have hflat : e.generate 0 tree table = Emission.outcome id flat := e.print_eq 0 _
  have hgenerate : e.generate n tree table = Emission.outcome id raised := e.print_eq n _
  have hlines := Emission.lines_raise n flat
  have htext : Emission.spelled id (Emission.lines raised)
      = String.join ((Emission.lines flat).map fun l =>
          String.ofList (List.replicate n indentUnit).flatten ++ indented l.1 l.2) := by
    rw [hraised, hlines, Emission.spelled, List.map_map]
    exact congrArg String.join (List.map_congr_left fun l _ => indented_add n l.1 l.2)
  rw [hgenerate, hflat, ← htext, hraised]
  refine ⟨rfl, hlines, Emission.warnings_outcome_raise id n flat, ?_⟩
  -- The failure at level zero is found in the raised emissions as well, and if there is none they
  -- all are lines and warnings.
  cases hfailure : flat.findSome? Emission.failure? with
  | some cause =>
    refine .inl ⟨cause, Emission.result_outcome_error_iff.2 hfailure,
      Emission.result_outcome_error_iff.2 ?_⟩
    rw [Emission.findSome?_raise, hfailure]
  | none =>
    have hok : Emission.Succeeds flat := List.findSome?_eq_none_iff.1 hfailure
    have hraisedOk : Emission.Succeeds (flat.map (Emission.raise n)) :=
      List.findSome?_eq_none_iff.1 ((Emission.findSome?_raise n flat).trans hfailure)
    exact .inr ⟨Emission.result_outcome_iff.2 ⟨hok, rfl⟩,
      Emission.result_outcome_iff.2 ⟨hraisedOk, rfl⟩⟩

end Stencil
