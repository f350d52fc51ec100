import Stencil.Proofs.Script.Operand
import Stencil.Proofs.Script.Run

/-!
# Template literals read back

A template literal is put together from the runs as they are kept and the texts of the
substitutions (`templateText`). It reads as the literal with these runs and substitutions
(`parse?_templateText`), if every run reads as it says and every substitution reads back where it
stands, in front of a closing brace (`Expr.ReadsBack`).

That a substitution reads back is asked of the substitution alone. It holds of names
(`readsBack_name`); a text that the parser looks ahead over need not have it.
-/

namespace Stencil.Script

/-- The text of the expression reads as the expression in front of a closing brace. -/
def Expr.ReadsBack (e : Expr) : Prop :=
  ∀ depth rest, Parser.depthFor e.text.toList ≤ depth →
    Parser.unrolled depth (.expression {}) (e.text.toList ++ '}' :: rest) = some (e, '}' :: rest)

/-- **A name reads back.** -/
theorem readsBack_name {w : String} (h : IsName w) : Expr.ReadsBack (.mk w (.identifier w)) := by
  intro depth rest hdepth
  have hends : wordEnds ('}' :: rest) = true := by
    have hpart : Text.isIdentifierPart '}' = false := by decide
    simp [wordEnds, hpart]
  have hleads := leads_name h ('}' :: rest) hends
  have hended := Parser.ended_brace rest
  -- Five steps lead from an expression down to a primary one.
  obtain ⟨depth, rfl⟩ : ∃ k, depth = k + 5 :=
    ⟨depth - 5, by unfold Parser.depthFor at hdepth; omega⟩
  have hprimary := Parser.primary_name hleads hended h.isFree (Parser.unrolled depth)
  rw [consumed_append, String.ofList_toList] at hprimary
  exact Parser.unrolled_operand hleads (.word h.isFree) hended (fun _ => hended) hprimary

/-! ### The text of a template literal -/

/-- The text of a template literal behind its opening backtick, and `tail` behind the closing
one. -/
def templateText (tail : List Char) : List Quasi → List Expr → List Char
  | q :: runs, e :: es =>
    q.raw.toList ++ '$' :: '{' :: (e.text.toList ++ '}' :: templateText tail runs es)
  | q :: _, [] => q.raw.toList ++ '`' :: tail
  | [], _ => '`' :: tail

/-- What ends the first run, and the text behind it. -/
def behindRun (tail : List Char) (runs : List Quasi) : List Expr → RunEnd × List Char
  | e :: es => (.substitution, e.text.toList ++ '}' :: templateText tail runs es)
  | [] => (.literal, tail)

/-- Every substitution takes room. -/
theorem length_le_templateText (tail : List Char) (runs : List Quasi) (es : List Expr)
    (h : runs.length = es.length + 1) : es.length ≤ (templateText tail runs es).length := by
  induction es generalizing runs with
  | nil => exact Nat.zero_le _
  | cons e es ih =>
    cases runs with
    | nil => cases h
    | cons q runs =>
      have htail := ih runs (Nat.succ_inj.1 h)
      simp only [templateText, List.length_append, List.length_cons]
      omega

/-- A substitution is no longer than the template. -/
theorem length_text_le_templateText (tail : List Char) {runs : List Quasi} {es : List Expr}
    (h : runs.length = es.length + 1) {e : Expr} (he : e ∈ es) :
    e.text.toList.length ≤ (templateText tail runs es).length := by
  induction es generalizing runs with
  | nil => cases he
  -- Each text stands in the literal between its run and what follows.
  | cons d es ih =>
    cases runs with
    | nil => cases h
    | cons q runs =>
      simp only [templateText, List.length_append, List.length_cons]
      rcases List.mem_cons.1 he with rfl | he
      · omega
      · have htail := ih (Nat.succ_inj.1 h) he
        omega

theorem length_le_behindRun (tail : List Char) (runs : List Quasi) (es : List Expr)
    (h : runs.length = es.length) : es.length ≤ (behindRun tail runs es).2.length := by
  cases es with
  | nil => exact Nat.zero_le _
  | cons e es =>
    have htail := length_le_templateText tail runs es h
    simp only [behindRun, List.length_append, List.length_cons]
    omega

/-- The first run as it is read. -/
def takenRun (tail : List Char) (q : Quasi) (runs : List Quasi) (es : List Expr) : Run where
  raw := q.raw.toList
  cooked := some q.cooked.toList
  stop := (behindRun tail runs es).1
  rest := (behindRun tail runs es).2

namespace Parser

variable {grammar : Grammar} {tail : List Char} {q : Quasi} {runs : List Quasi} {es : List Expr}

/-- The first run is read up to its end. -/
theorem run_templateText (hq : q.WellRead) :
    run (templateText tail (q :: runs) es) =
      some (takenRun tail q runs es, (behindRun tail runs es).2) := by
  -- The run is read up to what ends it, whichever end it is.
  have htake : ∀ {after stop rest}, Stop after stop rest →
      run (q.raw.toList ++ after) =
        some (⟨q.raw.toList, some q.cooked.toList, stop, rest⟩, rest) := by
    intro after stop rest hstop
    have hbound : q.raw.toList.length < (q.raw.toList ++ after).length + 1 := by
      rw [List.length_append]
      omega
    unfold run
    rw [run_bind, run_get]
    simp only [Option.bind_some]
    rw [takeRun_of_reads hstop (hq hstop) hbound]
    rfl
  cases es with
  | nil => exact htake (.literal tail)
  | cons e es => exact htake (.substitution _)

/-- A brace ends a substitution. -/
theorem substitutionEnd_brace (rest : List Char) :
    substitutionEnd ('}' :: rest) = some ((), rest) := by
  have hhere : here ('}' :: rest) = some ('}' :: rest, '}' :: rest) := by
    obtain ⟨t, after, -, hleads⟩ := ended_brace rest
    exact hleads.here
  unfold substitutionEnd
  rw [run_bind, hhere]
  rfl

/-- One substitution and the run behind it are read as they were written. -/
theorem nextSubstitution_templateText {e : Expr} (hq : q.WellRead)
    (he : ∀ rest, grammar (.expression {}) (e.text.toList ++ '}' :: rest) = some (e, '}' :: rest))
    (before : List Run) (read : List Expr) :
    nextSubstitution grammar {} (.substitution, before, read)
        (e.text.toList ++ '}' :: templateText tail (q :: runs) es) =
      some (some ((behindRun tail runs es).1, before ++ [takenRun tail q runs es], read ++ [e]),
        (behindRun tail runs es).2) := by
  have hcontext : Context.withIn {} = {} := rfl
  -- The expression, its brace, and the run behind it, one after the other.
  rw [nextSubstitution, hcontext, run_bind, he]
  simp only [Option.bind_some]
  rw [run_bind, substitutionEnd_brace]
  simp only [Option.bind_some]
  rw [run_bind, run_templateText hq]
  rfl

/-- The substitutions are read one by one, each with the run behind it. -/
theorem growUpTo_templateText (hlength : runs.length = es.length) (hruns : ∀ q ∈ runs, q.WellRead)
    (hes : ∀ e ∈ es, ∀ rest,
      grammar (.expression {}) (e.text.toList ++ '}' :: rest) = some (e, '}' :: rest))
    (before : List Run) (read : List Expr) {bound : Nat} (hbound : es.length < bound) :
    ∃ rs, growUpTo (nextSubstitution grammar {}) bound ((behindRun tail runs es).1, before, read)
        (behindRun tail runs es).2 = some ((.literal, before ++ rs, read ++ es), tail) ∧
      rs.mapM quasi? = some runs := by
  -- By induction on the substitutions; each takes one turn of the loop, so the bound is enough.
  induction es generalizing runs before read bound with
  | nil =>
    cases List.length_eq_zero_iff.1 hlength
    obtain ⟨bound, rfl⟩ : ∃ k, bound = k + 1 := ⟨bound - 1, by simp at hbound; omega⟩
    refine ⟨[], ?_, rfl⟩
    simp [growUpTo, behindRun, nextSubstitution]
  | cons e es ih =>
    cases runs with
    | nil => cases hlength
    | cons q runs =>
      rw [List.length_cons] at hbound
      obtain ⟨bound, rfl⟩ : ∃ k, bound = k + 1 := ⟨bound - 1, by omega⟩
      obtain ⟨hq, hruns⟩ := List.forall_mem_cons.1 hruns
      obtain ⟨he, hes⟩ := List.forall_mem_cons.1 hes
      obtain ⟨rs, hrest, hrs⟩ := ih (Nat.succ_inj.1 hlength) hruns hes
        (before ++ [takenRun tail q runs es]) (read ++ [e]) (by omega : es.length < bound)
      refine ⟨takenRun tail q runs es :: rs, ?_, ?_⟩
      · rw [List.append_assoc, List.append_assoc] at hrest
        rw [growUpTo, run_bind, behindRun, nextSubstitution_templateText hq he]
        exact hrest
      · simp [quasi?, takenRun, hrs]

/-- So is the whole template, by induction on its substitutions. -/
theorem template_templateText (hlength : runs.length = es.length + 1)
    (hruns : ∀ q ∈ runs, q.WellRead)
    (hes : ∀ e ∈ es, ∀ rest,
      grammar (.expression {}) (e.text.toList ++ '}' :: rest) = some (e, '}' :: rest))
    (start : List Char) :
    template grammar {} start (templateText tail runs es) =
      some (.mk (String.ofList (consumed start tail)) (.template runs es), tail) := by
  cases runs with
  | nil => cases hlength
  | cons q runs =>
    obtain ⟨hq, hruns⟩ := List.forall_mem_cons.1 hruns
    have hlength : runs.length = es.length := Nat.succ_inj.1 hlength
    have hbound := Nat.lt_succ_of_le (length_le_behindRun tail runs es hlength)
    obtain ⟨rs, hgrow, hrs⟩ :=
      growUpTo_templateText hlength hruns hes [takenRun tail q runs es] [] hbound
    -- The parts are the first run and what the loop adds to it.
    have hparts : templateParts grammar {} (templateText tail (q :: runs) es) =
        some ((takenRun tail q runs es :: rs, es), tail) := by
      unfold templateParts grow
      rw [run_bind, run_templateText hq]
      simp only [Option.bind_some]
      rw [run_bind, run_bind, run_get]
      simp only [Option.bind_some]
      rw [show (takenRun tail q runs es).stop = (behindRun tail runs es).1 from rfl, hgrow]
      rfl
    have hread : (takenRun tail q runs es :: rs).mapM quasi? = some (q :: runs) := by
      simp [quasi?, takenRun, hrs]
    unfold template
    rw [run_bind, hparts]
    simp only [Option.bind_some]
    rw [hread]
    rfl

/-- A run up to the closing backtick is a literal without substitutions. -/
theorem template_of_run {s start rest : List Char} {r : Run} (hrun : run s = some (r, rest))
    (hstop : r.stop = .literal) (hq : quasi? r = some q) :
    template grammar {} start s =
      some (.mk (String.ofList (consumed start rest)) (.template [q] []), rest) := by
  -- Behind a closing backtick the loop stops at once.
  have hnext : nextSubstitution grammar {} (r.stop, [r], []) rest = some (none, rest) := by
    rw [hstop]
    rfl
  have hparts : templateParts grammar {} s = some (([r], []), rest) := by
    unfold templateParts
    rw [run_bind, hrun]
    simp only [Option.bind_some]
    rw [run_bind, grow_stop hnext]
    rfl
  have hread : [r].mapM quasi? = some [q] := by simp [hq]
  unfold template
  rw [run_bind, hparts]
  simp only [Option.bind_some]
  rw [hread]
  rfl

end Parser

/-! ### Reading a template literal back -/

/-- A template literal that ends with the text is the expression of the text. -/
theorem parse?_of_template {body : List Char} {e : Expr}
    (h : Parser.template (Parser.unrolled (16 * ('`' :: body).length + 59)) {} ('`' :: body) body =
      some (e, [])) : Expr.parse? (String.ofList ('`' :: body)) = some e := by
  have hleads : Parser.Leads (.mark "`") ('`' :: body) body := ⟨rfl, rfl⟩
  -- The backtick leads a primary expression, so no other rule is tried.
  refine Parser.parse?_operand hleads .template nofun rfl ?_
  unfold Parser.primary
  rw [Parser.run_bind, hleads.peek]
  simp only [Option.bind_some]
  rw [Parser.run_bind]
  simp only [Parser.run_set, Option.bind_some]
  exact h

/-- **A template literal reads back**: its text reads as its runs, with the substitutions between
them. -/
theorem parse?_templateText {runs : List Quasi} {es : List Expr}
    (hlength : runs.length = es.length + 1) (hruns : ∀ q ∈ runs, q.WellRead)
    (hes : ∀ e ∈ es, e.ReadsBack) :
    let text := String.ofList ('`' :: templateText [] runs es)
    Expr.parse? text = some (.mk text (.template runs es)) := by
  intro text
  -- The grammar is unrolled deeply enough for the literal, so also for each text in it.
  have hgrammar : ∀ e ∈ es, ∀ rest,
      Parser.unrolled (16 * ('`' :: templateText [] runs es).length + 59) (.expression {})
        (e.text.toList ++ '}' :: rest) = some (e, '}' :: rest) := by
    intro e he rest
    refine hes e he _ rest ?_
    have hroom := length_text_le_templateText [] hlength he
    simp only [Parser.depthFor, List.length_cons]
    omega
  refine parse?_of_template ?_
  rw [Parser.template_templateText hlength hruns hgrammar]
  simp [consumed, text]

end Stencil.Script
