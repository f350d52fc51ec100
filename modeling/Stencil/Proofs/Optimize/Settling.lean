import Stencil.Proofs.Optimize.Folding
import Stencil.Proofs.Optimize.Normal

/-!
# Settling comes to an end

The code of an attribute is looked at and folded until nothing is left to fold. A fold reads code
that was just put together, and neither the length of the code nor the number of its substitutions
says that this ends: a text that is written out may be longer than the substitution it replaces, and
two texts side by side may open a substitution that neither of them has. What does get less is the
number of dollar signs in front of a brace (`openers`), escaped ones left out.

* `openers_foldedBody_le` — if no seam opens a substitution, a folded body has no more opening marks
  than the substitutions it keeps have;
* `openers_folded_lt` — so a fold takes a mark away: reading code accounts for a mark at every
  substitution (`template_of_parse?`), and the ones that are written out are gone;
* `Folds`, `Code.OpensNothing` — the codes that settling comes by, and the condition on them;
* `settles_of_opensNothing` — settling ends after as many folds as there are marks, at most;
* `not_settles_echo` — and where a constant opens itself at a seam, it does not end.
-/

namespace Stencil

open Script

variable {scope : Scope} {runs : List Quasi} {es : List Expr}

/-! ### One fold -/

/-- An escaped text ends with all its escapes complete. -/
theorem dangles_escapeTemplate (s : List Char) : dangles (escapeTemplate s) = false := by
  fun_induction escapeTemplate s with
  | case1 rest ih => exact ih
  | case2 rest ih => exact ih
  | case3 rest ih => exact (dangles_cons (c := '{') (by decide) _).trans ih
  | case4 c rest hbackslash _ _ ih => exact (dangles_cons hbackslash _).trans ih
  | case5 => rfl

/-- What is written out opens nothing by itself. -/
theorem openers_escapeTemplate (s : List Char) : openers (escapeTemplate s) = 0 := by
  fun_induction escapeTemplate s with
  | case1 rest ih => exact ih
  | case2 rest ih => exact ih
  -- A brace behind a dollar sign that is escaped opens nothing.
  | case3 rest ih =>
    have hbrace : openers ('{' :: escapeTemplate rest) = 0 := by
      rw [openers_cons (by decide), ih, if_neg (fun h => by cases h.1)]
    exact hbrace
  | case4 c rest hbackslash _ hopen ih =>
    rw [openers_cons hbackslash, ih, if_neg]
    -- An escaped text begins with a brace only if the text does, and then the dollar sign was
    -- escaped.
    rintro ⟨rfl, hbrace⟩
    obtain ⟨t, rfl⟩ := List.head?_eq_some_iff.1 (head?_of_escapeTemplate (by decide) hbrace)
    exact hopen t rfl rfl
  | case5 => rfl

/-- Nothing opens in front of a text that does not begin with a brace. -/
theorem opens_of_head? {right : List Char} (h : right.head? ≠ some '{') (text : List Char) :
    opens right text = false := by
  induction text using steps_induction with
  | nil => rfl
  | backslash => rfl
  | escape c rest ih => exact ih
  -- A plain character opens something only as a dollar sign at the very end.
  | plain c rest hc ih =>
    cases rest with
    | nil =>
      by_cases hdollar : c = '$'
      · simpa [hdollar, opens] using h
      · simp [opens, hdollar]
    | cons d rest =>
      rw [opens_cons hc (by simp)]
      exact ih

/-- **A folded body opens only the substitutions that are left**, if no seam opens one. -/
theorem openers_foldedBody_le (hlength : runs.length = es.length + 1)
    (hruns : ∀ q ∈ runs, q.WellRead)
    (hseams : ∀ p ∈ seams scope runs es, opens p.2 p.1 = false) :
    openers (foldedBody scope runs es ++ ['`']) ≤ load (keptSubstitutions scope es) := by
  -- A run opens nothing, and it ends in whole steps.
  have hrun : ∀ {q : Quasi} {right : List Char}, q.WellRead → opens right q.raw.toList = false →
      openers (q.raw.toList ++ right) = openers right := by
    intro q right hq hopens
    have hreads := hq (.literal [])
    rw [openers_append hreads.dangles_eq_false hopens, hreads.openers_eq_zero, Nat.zero_add]
  induction es generalizing runs with
  | nil =>
    obtain ⟨q, rfl⟩ := List.length_eq_one_iff.1 hlength
    obtain ⟨hq, -⟩ := List.forall_mem_cons.1 hruns
    rw [foldedBody, foldedBody, List.append_nil, hrun hq (opens_of_head? (by decide) _)]
    exact Nat.le_refl 0
  | cons e es ih =>
    cases runs with
    | nil => cases hlength
    | cons q runs =>
      have hlength := Nat.succ_inj.1 hlength
      obtain ⟨hq, hruns⟩ := List.forall_mem_cons.1 hruns
      cases hfolded : foldedText? scope e with
      | none =>
        rw [seams, hfolded] at hseams
        have hrest := ih hlength hruns hseams
        rw [kept_of_not_written hfolded, load_cons]
        have hsplit : foldedBody scope (q :: runs) (e :: es) ++ ['`'] = q.raw.toList ++
            '$' :: '{' :: (e.text.toList ++ '\x7d' :: (foldedBody scope runs es ++ ['`'])) := by
          simp [foldedBody, foldedPart, hfolded]
        have hmark : openers (foldedBody scope (q :: runs) (e :: es) ++ ['`']) =
            openers e.text.toList + openers (foldedBody scope runs es ++ ['`']) + 1 := by
          rw [hsplit, hrun hq (opens_of_head? (by simp) _), openers_cons (by decide),
            openers_cons (by decide), openers_append_cons (by simp)]
          simp
          omega
        omega
      | some s =>
        rw [seams, hfolded] at hseams
        obtain ⟨hleft, hseams⟩ := List.forall_mem_cons.1 hseams
        obtain ⟨hright, hseams⟩ := List.forall_mem_cons.1 hseams
        have hrest := ih hlength hruns hseams
        have hsplit : foldedBody scope (q :: runs) (e :: es) ++ ['`'] = q.raw.toList ++
            (escapeTemplate s.toList ++ (foldedBody scope runs es ++ ['`'])) := by
          simp [foldedBody, foldedPart, hfolded]
        rw [kept_of_written hfolded, hsplit, hrun hq hleft,
          openers_append (dangles_escapeTemplate _) hright, openers_escapeTemplate, Nat.zero_add]
        exact hrest

/-- Folding takes substitutions away, so the load of the kept ones is no larger. -/
theorem load_kept_le (es : List Expr) : load (keptSubstitutions scope es) ≤ load es := by
  induction es with
  | nil => exact Nat.le_refl 0
  | cons e es ih =>
    cases hfolded : foldedText? scope e with
    | none =>
      rw [kept_of_not_written hfolded, load_cons, load_cons]
      omega
    | some s =>
      rw [kept_of_written hfolded, load_cons]
      omega

/-- A substitution that is written out takes its mark along. -/
theorem load_kept_lt (h : ∃ e ∈ es, e.isWritten scope = true) :
    load (keptSubstitutions scope es) < load es := by
  obtain ⟨e, hmem, hwritten⟩ := h
  -- The substitution that is written out is missing among those kept.
  obtain ⟨before, after, rfl⟩ := List.append_of_mem hmem
  have hkept : keptSubstitutions scope (before ++ e :: after) =
      keptSubstitutions scope before ++ keptSubstitutions scope after := by
    simp [keptSubstitutions, hwritten]
  have hbefore : load (keptSubstitutions scope before) ≤ load before := load_kept_le before
  have hafter : load (keptSubstitutions scope after) ≤ load after := load_kept_le after
  rw [hkept, load_append, load_append, load_cons]
  omega

/-- **A fold that opens nothing leaves fewer opening marks.** -/
theorem openers_folded_lt {code folded : String} (h : foldTemplate? code scope = some folded)
    (hseams : ∀ p ∈ codeSeams code scope, opens p.2 p.1 = false) :
    openers folded.toList < openers code.toList := by
  obtain ⟨e, runs, es, he, hform, hwritten, rfl⟩ := template_of_foldTemplate? h
  obtain ⟨hlength, hruns, hload⟩ := template_of_parse? he hform
  rw [codeSeams, he, Option.elim_some, hform] at hseams
  rw [String.toList_ofList]
  -- Folding takes a substitution away, and without new ones at the seams none comes in its place.
  calc openers ('`' :: foldedBody scope runs es ++ ['`'])
    _ = openers (foldedBody scope runs es ++ ['`']) := by
      rw [List.cons_append, openers_cons (by decide), if_neg (fun h => by cases h.1), Nat.zero_add]
    _ ≤ load (keptSubstitutions scope es) := openers_foldedBody_le hlength hruns hseams
    _ < load es := load_kept_lt hwritten
    _ ≤ openers code.toList := hload

/-! ### All folds -/

/-- Code of unknown value that folds is looked at again. -/
theorem settleOnce_eq_again {code : Code} {folded : String}
    (hunknown : evaluate? (Text.trim code.text) scope = none)
    (hfold : foldTemplate? (Text.trim code.text) scope = some folded) :
    settleOnce scope code = .again ⟨folded⟩ := by
  -- The two words that are looked for first are no template literals.
  obtain ⟨e, runs, es, he, hform, -⟩ := template_of_foldTemplate? hfold
  have hword : ∀ {w : String} {form : Form}, Expr.parse? w = some (.mk w form) →
      (Expr.mk w form).bare.form ≠ .template runs es → Text.trim code.text ≠ w := by
    rintro w form hparse hne rfl
    rw [hparse] at he
    cases he
    exact hne hform
  have htrue : Text.trim code.text ≠ "true" := by
    refine @hword "true" (.boolean true) ?_ nofun
    unfold Expr.parse?
    rfl
  have hundefined : Text.trim code.text ≠ "undefined" := by
    refine @hword "undefined" (.identifier "undefined") (parse?_name ?_) nofun
    exact ⟨⟨by decide +kernel, List.all_eq_true.1 (by decide +kernel)⟩, by decide⟩
  simp only [settleOnce, htrue, hundefined, hunknown, hfold, if_false]

/-- So many folds lead from one code to the other. -/
inductive Folds (scope : Scope) : Nat → Code → Code → Prop where
  | none (code : Code) : Folds scope 0 code code
  | fold {n : Nat} {code folded code' : Code} (h : settleOnce scope code = .again folded)
    (hrest : Folds scope n folded code') : Folds scope (n + 1) code code'

/-- The marks of code as it is looked at. -/
def Code.openers (code : Code) : Nat :=
  Script.openers (Text.trim code.text).toList

/-- No text that is put together from the code opens a substitution. -/
def Code.OpensNothing (scope : Scope) (code : Code) : Prop :=
  ∀ p ∈ codeSeams (Text.trim code.text) scope, opens p.2 p.1 = false

/-- A template literal has no blanks around it. -/
theorem trim_literal (body : List Char) :
    Text.trim (String.ofList ('`' :: body ++ ['`'])) = String.ofList ('`' :: body ++ ['`']) := by
  have hblank : Text.isBlank '`' = false := by decide
  unfold Text.trim Text.trimStart Text.trimEnd
  simp [hblank]

/-- A fold that opens nothing takes a mark away. -/
theorem openers_lt_of_again {code folded : Code} (h : settleOnce scope code = .again folded)
    (hopens : code.OpensNothing scope) : folded.openers < code.openers := by
  have hfolded := foldTemplate?_of_settleOnce h
  have htrim : Text.trim folded.text = folded.text := by
    obtain ⟨-, runs, es, -, -, -, htext⟩ := template_of_foldTemplate? hfolded
    rw [htext, trim_literal]
  have hlt := openers_folded_lt hfolded hopens
  unfold Code.openers
  rwa [htrim]

/-- So every fold that opens nothing takes a mark away. -/
theorem openers_add_le_of_folds {n : Nat} {code code' : Code} (h : Folds scope n code code')
    (hopens : ∀ n code', Folds scope n code code' → code'.OpensNothing scope) :
    code'.openers + n ≤ code.openers := by
  induction h with
  | none code => exact Nat.le_refl _
  | @fold n code folded code' hagain hrest ih =>
    have hlt := openers_lt_of_again hagain (hopens 0 code (.none code))
    have hle := ih fun n code' hfolds => hopens (n + 1) code' (.fold hagain hfolds)
    omega

/-- **Settling comes to an end** if no text that is put together on the way opens a substitution:
then there are at most as many folds as the code has opening marks. -/
theorem settles_of_opensNothing (scope : Scope) (code : Code)
    (hopens : ∀ n code', Folds scope n code code' → code'.OpensNothing scope) :
    Settles scope code ∧ ∀ n code', Folds scope n code code' → n ≤ code.openers := by
  constructor
  · -- By induction on the marks, which every fold takes from.
    induction hmarks : code.openers using Nat.strongRecOn generalizing code with
    | _ marks ih =>
      cases hlook : settleOnce scope code with
      | done value => exact .done hlook
      | again folded =>
        have hlt := openers_lt_of_again hlook (hopens 0 code (.none code))
        refine .again hlook (ih folded.openers (hmarks ▸ hlt) folded ?_ rfl)
        exact fun n code' hfolds => hopens (n + 1) code' (.fold hlook hfolds)
  · intro n code' hfolds
    have hle := openers_add_le_of_folds hfolds hopens
    omega

/-- Code with two marks, folded once. -/
theorem settles_of_opensNothing_choice :
    let code : Code := ⟨"`btn $\x7btrue ? 'primary' : 'plain'\x7d $\x7bsize\x7d`"⟩
    let folded : Code := ⟨"`btn primary $\x7bsize\x7d`"⟩
    Folds Dict.empty 1 code folded ∧
      (∀ n code', Folds Dict.empty n code code' → code'.OpensNothing Dict.empty) ∧
      Settles Dict.empty code ∧ (∀ n code', Folds Dict.empty n code code' → n ≤ code.openers) ∧
      code.openers = 2 := by
  intro code folded
  have hnone : foldTemplate? (Text.trim folded.text) Dict.empty = none := by decide +kernel
  have hsome : foldTemplate? (Text.trim code.text) Dict.empty = some folded.text := by
    decide +kernel
  have hagain : settleOnce Dict.empty code = .again folded := by
    have hunknown : evaluate? (Text.trim code.text) Dict.empty = none := by
      rw [← Option.isNone_iff_eq_none]
      decide +kernel
    exact settleOnce_eq_again hunknown hsome
  have hopens : ∀ n code', Folds Dict.empty n code code' → code'.OpensNothing Dict.empty := by
    -- After one fold nothing is known any more, so these are all the codes it folds to.
    intro n code' hfolds
    cases hfolds with
    | none =>
      unfold Code.OpensNothing
      decide +kernel
    | fold h hrest =>
      rw [hagain] at h
      cases h
      cases hrest with
      | none =>
        unfold Code.OpensNothing
        decide +kernel
      | fold h _ =>
        have hfold := foldTemplate?_of_settleOnce h
        rw [hnone] at hfold
        cases hfold
  obtain ⟨hsettles, hbound⟩ := settles_of_opensNothing Dict.empty code hopens
  exact ⟨.fold hagain (.none _), hopens, hsettles, hbound, by decide +kernel⟩

/-! ### Folding without an end -/

/-- Settling does not end if every look leads on to another. -/
theorem not_settles_of_again {P : Code → Prop}
    (hstep : ∀ code, P code → ∃ folded, settleOnce scope code = .again folded ∧ P folded)
    {code : Code} (h : P code) : ¬Settles scope code := by
  -- By induction on the looks that settling takes: each of them would lead on.
  intro hsettles
  induction hsettles with
  | done hdone =>
    obtain ⟨folded, hagain, -⟩ := hstep _ h
    rw [hdone] at hagain
    cases hagain
  | again hagain _ ih =>
    obtain ⟨folded, hnext, hfolded⟩ := hstep _ h
    rw [hagain] at hnext
    cases hnext
    exact ih hfolded

/-- A run that is kept as it is. -/
def plainRun (text : List Char) : Quasi :=
  ⟨String.ofList text, String.ofList text⟩

/-- A constant whose text holds, taken apart, a substitution by the constant: the dollar sign, and
its name in braces. Both are there twice, one to open with and one to keep. -/
def echo : Scope :=
  Dict.empty.insert "K" "'\x7bK\x7d\x7bK\x7d$$'"

/-- A name that is not known, and the constant. -/
def echoNames : List Expr :=
  [.mk "x" (.identifier "x"), .mk "K" (.identifier "K")]

/-- A template literal with the two names and these texts behind them. -/
def echoed (left right : List Char) : Code :=
  ⟨String.ofList ('`' :: templateText [] [plainRun [], plainRun left, plainRun right] echoNames)⟩

/-- The name of the constant in braces, so many times. -/
def braced (n : Nat) : List Char :=
  (List.replicate n ['{', 'K', '}']).flatten

/-- Two more names in braces, in front. -/
theorem braced_add_two (n : Nat) (text : List Char) :
    braced (n + 2) ++ text = braced n ++ '{' :: 'K' :: '}' :: '{' :: 'K' :: '}' :: text := by
  simp [braced, List.replicate_add]

/-- Names in braces are read as they are written: nothing in them is an escape. -/
theorem reads_braced {after text : List Char} (h : Reads after text text) (n : Nat) :
    Reads after (braced n ++ text) (braced n ++ text) := by
  -- None of the characters is a backslash, a backtick, a dollar sign or a carriage return.
  have hplain : ∀ {c text}, c ∈ ['{', 'K', '}'] → Reads after text text →
      Reads after (c :: text) (c :: text) := by
    intro c text hc h
    simp only [List.mem_cons, List.not_mem_nil, or_false] at hc
    rcases hc with rfl | rfl | rfl <;> exact .plain (by decide) (by decide) (by decide) nofun h
  induction n with
  | zero => exact h
  | succ n ih =>
    change Reads after ('{' :: 'K' :: '}' :: (braced n ++ text)) _
    exact hplain (by simp) (hplain (by simp) (hplain (by simp) ih))

/-- Dollar signs open nothing at the end of a run. -/
theorem reads_dollars {after behind : List Char} {stop : RunEnd} (hstop : Stop after stop behind)
    (n : Nat) : Reads after (List.replicate n '$') (List.replicate n '$') := by
  induction n with
  | zero => exact .nil
  | succ n ih =>
    refine .plain (by decide) (by decide) (by decide) (fun _ => ?_) ih
    cases n with
    | zero => cases hstop <;> exact nofun
    | succ n => exact nofun

/-- So a run of plain text is well read. -/
theorem wellRead_plainRun {text : List Char}
    (h : ∀ {after stop behind}, Stop after stop behind → Reads after text text) :
    (plainRun text).WellRead := by
  intro after stop behind hstop
  simpa [plainRun] using h hstop

/-- A body with a substitution in it is an echo, split at the substitution. -/
theorem eq_echoed {left right body : List Char}
    (h : body = left ++ '$' :: '{' :: 'K' :: '}' :: right) :
    ⟨String.ofList ('`' :: '$' :: '{' :: 'x' :: '}' :: body ++ ['`'])⟩ = echoed left right := by
  simp [h, echoed, echoNames, templateText, plainRun, Expr.text]

/-- An echo is read as a template with two substitutions. -/
theorem parse?_echoed {left right : List Char} (hleft : (plainRun left).WellRead)
    (hright : (plainRun right).WellRead) : Expr.parse? (echoed left right).text =
      some (.mk (echoed left right).text
        (.template [plainRun [], plainRun left, plainRun right] echoNames)) := by
  -- The literal reads back from its runs and its two names.
  refine parse?_templateText rfl ?_ fun e he => ?_
  · have hempty : (plainRun []).WellRead := wellRead_plainRun fun _ => .nil
    simp [hempty, hleft, hright]
  · simp only [echoNames, List.mem_cons, List.not_mem_nil, or_false] at he
    rcases he with rfl | rfl
    · exact readsBack_name ⟨⟨by decide +kernel, List.all_eq_true.1 (by decide +kernel)⟩, by decide⟩
    · exact readsBack_name ⟨⟨by decide +kernel, List.all_eq_true.1 (by decide +kernel)⟩, by decide⟩

/-- The first substitution is not known. -/
theorem unknown_in_echo : (Expr.mk "x" (.identifier "x")).valueIn? echo = none := by
  rw [← Option.isNone_iff_eq_none]
  decide +kernel

/-- The second one is known to be a text that spells itself. -/
theorem foldedText?_echo :
    foldedText? echo (.mk "K" (.identifier "K")) = some "\x7bK\x7d\x7bK\x7d$$" := by
  decide +kernel

/-- So folding the second one spells out a new substitution. -/
theorem foldedBody_echo (left right : List Char) :
    foldedBody echo [plainRun [], plainRun left, plainRun right] echoNames =
      '$' :: '{' :: 'x' :: '}' :: (left ++
        '{' :: 'K' :: '}' :: '{' :: 'K' :: '}' :: '$' :: '$' :: right) := by
  -- The first name stays, and the second one is written out as it stands.
  have hkept : foldedText? echo (.mk "x" (.identifier "x")) = none := by
    unfold foldedText?
    rw [unknown_in_echo]
  have hescape : escapeTemplate ['{', 'K', '}', '{', 'K', '}', '$', '$'] =
      ['{', 'K', '}', '{', 'K', '}', '$', '$'] := by decide
  simp [echoNames, foldedBody, foldedPart, hkept, foldedText?_echo, plainRun, hescape, Expr.text]

/-- The constant is written out, and the code is looked at again. -/
theorem settleOnce_echoed {left right : List Char} (hleft : (plainRun left).WellRead)
    (hright : (plainRun right).WellRead) : settleOnce echo (echoed left right) = .again
      ⟨String.ofList ('`' :: '$' :: '{' :: 'x' :: '}' :: (left ++
        '{' :: 'K' :: '}' :: '{' :: 'K' :: '}' :: '$' :: '$' :: right) ++ ['`'])⟩ := by
  have hparse := parse?_echoed hleft hright
  have htrim : Text.trim (echoed left right).text = (echoed left right).text := by
    rw [← eq_echoed rfl]
    exact trim_literal _
  apply settleOnce_eq_again
  · -- One name is unknown, so the value of the whole is.
    have hname : echo.valueOf? maxDepth "x" = none := unknown_in_echo
    rw [htrim]
    simp [evaluate?, hparse, Expr.valueIn?, Expr.eval, Form.eval, echoNames, evalAll, hname]
  · rw [htrim, ← foldedBody_echo, foldTemplate?, hparse]
    simp [Expr.bare, Expr.form, echoNames, foldedText?_echo]

/-- **A constant can open itself again and again.** Its text has the braces around its name and the
dollar signs apart; written out beside a brace or a dollar sign of the code, it opens the next
substitution by itself. -/
theorem not_settles_echo : ¬Settles echo ⟨"`$\x7bx\x7d$\x7bK\x7d\x7bK\x7d`"⟩ := by
  -- The dollar signs of the text stand in front of a brace of the code, or one of the code stands
  -- in front of the text.
  refine not_settles_of_again (P := fun code => ∃ m n,
    code = echoed (braced m) ('{' :: 'K' :: '}' :: List.replicate n '$') ∨
    code = echoed (braced m ++ ['$']) (List.replicate n '$')) ?_ ⟨0, 0, .inl ?_⟩
  · rintro code ⟨m, n, rfl | rfl⟩
    · have hleft : (plainRun (braced m)).WellRead := by
        refine wellRead_plainRun fun _ => ?_
        simpa using reads_braced .nil m
      have hright : (plainRun ('{' :: 'K' :: '}' :: List.replicate n '$')).WellRead :=
        wellRead_plainRun fun hstop => reads_braced (reads_dollars hstop n) 1
      refine ⟨_, settleOnce_echoed hleft hright, m + 2, n, .inr (eq_echoed ?_)⟩
      rw [← braced_add_two, List.append_assoc]
      rfl
    · have hleft : (plainRun (braced m ++ ['$'])).WellRead :=
        wellRead_plainRun fun hstop => reads_braced (reads_dollars hstop 1) m
      have hright : (plainRun (List.replicate n '$')).WellRead :=
        wellRead_plainRun fun hstop => reads_dollars hstop n
      refine ⟨_, settleOnce_echoed hleft hright, m, n + 2, .inl (eq_echoed ?_)⟩
      rw [List.append_assoc]
      rfl
  · rfl

end Stencil
