import Mathlib.Data.List.Forall2
import Stencil.Optimize.Expression
import Stencil.Proofs.Constant.Evaluates
import Stencil.Proofs.Script.Source
import Stencil.Proofs.Script.Template

/-!
# Folded template literals

A template literal is folded by writing out the substitutions whose value is known to be a text or a
number. What is written out comes to stand between two runs, and the three are then read as one run.
They read as their values one behind the other (`wellRead_mergedRuns`), unless two of them join at a
seam: a dollar sign in front of a brace opens a substitution that was not there, `\0` in front of a
digit is no escape, and a return that a value holds reads as a line feed.

* `seams` — the places where this can happen, and `breaks` the test for it;
* `mergedRuns`, `keptSubstitutions` — the literal that is meant: its runs, and the substitutions
  that are left;
* `World.JoinsTexts` — what a template literal comes to in a run: the texts of its runs and
  substitutions in turn, where the world says what text a datum that is no primitive value has;
* `folded_evaluates_iff` — without a broken seam the folded code is spelled as the literal that is
  meant, which comes to what the original comes to in every run;
* `fold_opens_substitution` — a broken seam, and the two values.
-/

namespace Stencil

open Script

/-! ### The literal that is meant -/

/-- One run of the two, one behind the other. -/
def Script.Quasi.append (q r : Quasi) : Quasi :=
  ⟨q.raw ++ r.raw, q.cooked ++ r.cooked⟩

/-- The run that a text is written out as. -/
def Script.Quasi.written (s : String) : Quasi :=
  ⟨String.ofList (escapeTemplate s.toList), s⟩

/-- The runs of a folded template literal: what is written out joins the runs on both sides. -/
def mergedRuns (scope : Scope) : List Quasi → List Expr → List Quasi
  | q :: runs, e :: es =>
    match foldedText? scope e, mergedRuns scope runs es with
    | some s, r :: rest => q.append ((Quasi.written s).append r) :: rest
    | _, merged => q :: merged
  | runs, _ => runs

/-- The value of the expression is known to be a text or a number. -/
def Script.Expr.isWritten (scope : Scope) (e : Expr) : Bool :=
  match e.valueIn? scope with
  | some (.string _) | some (.number _) => true
  | _ => false

/-- The substitutions that are not written out, in order. -/
def keptSubstitutions (scope : Scope) (es : List Expr) : List Expr :=
  es.filter fun e => !e.isWritten scope

/-- The pieces of a folded template literal that come to stand side by side, each with the text
behind it. -/
def seams (scope : Scope) : List Quasi → List Expr → List (List Char × List Char)
  | q :: runs, e :: es =>
    let behind := foldedBody scope runs es ++ ['`']
    match foldedText? scope e with
    | some s =>
      (q.raw.toList, escapeTemplate s.toList ++ behind) :: (escapeTemplate s.toList, behind) ::
        seams scope runs es
    | none => seams scope runs es
  | _, _ => []

/-- The seams of code that is a template literal. -/
def codeSeams (code : String) (scope : Scope) : List (List Char × List Char) :=
  (Expr.parse? code).elim [] fun e =>
    match e.bare.form with
    | .template runs es => seams scope runs es
    | _ => []

variable {scope : Scope} {q r : Quasi} {e : Expr} {s : String} {runs rest : List Quasi}
  {es : List Expr}

/-- Runs put together have the raw texts one after the other. -/
@[simp] theorem raw_append (q r : Quasi) : (q.append r).raw.toList = q.raw.toList ++ r.raw.toList :=
  String.toList_append

/-- They have the cooked texts one after the other. -/
@[simp] theorem cooked_append (q r : Quasi) :
    (q.append r).cooked.toList = q.cooked.toList ++ r.cooked.toList :=
  String.toList_append

/-- A text that is folded in is written with its escapes. -/
@[simp] theorem raw_written (s : String) :
    (Quasi.written s).raw.toList = escapeTemplate s.toList :=
  String.toList_ofList

/-- A substitution is folded just if it is written as a text. -/
theorem foldedText?_eq_none_iff : foldedText? scope e = none ↔ e.isWritten scope = false := by
  unfold foldedText? Expr.isWritten
  split <;> simp_all

/-- A folded substitution is not kept. -/
theorem kept_of_written (h : foldedText? scope e = some s) :
    keptSubstitutions scope (e :: es) = keptSubstitutions scope es := by
  have hwritten : e.isWritten scope = true := by
    rw [← Bool.not_eq_false, ← foldedText?_eq_none_iff, h]
    nofun
  simp [keptSubstitutions, hwritten]

/-- Any other one is. -/
theorem kept_of_not_written (h : foldedText? scope e = none) :
    keptSubstitutions scope (e :: es) = e :: keptSubstitutions scope es := by
  have hwritten : e.isWritten scope = false := foldedText?_eq_none_iff.1 h
  simp [keptSubstitutions, hwritten]

/-- A folded substitution joins the runs around it, its text between them. -/
theorem mergedRuns_of_written (h : foldedText? scope e = some s)
    (hmerged : mergedRuns scope runs es = r :: rest) :
    mergedRuns scope (q :: runs) (e :: es) = q.append ((Quasi.written s).append r) :: rest := by
  rw [mergedRuns, h, hmerged]

/-- A kept one leaves them apart. -/
theorem mergedRuns_of_not_written (h : foldedText? scope e = none) :
    mergedRuns scope (q :: runs) (e :: es) = q :: mergedRuns scope runs es := by
  rw [mergedRuns, h]

/-- There is one run more than there are substitutions left. -/
theorem length_mergedRuns (h : runs.length = es.length + 1) :
    (mergedRuns scope runs es).length = (keptSubstitutions scope es).length + 1 := by
  induction es generalizing runs with
  | nil =>
    obtain ⟨q, rfl⟩ := List.length_eq_one_iff.1 h
    rfl
  | cons e es ih =>
    cases runs with
    | nil => cases h
    | cons q runs =>
      have hlength := ih (Nat.succ_inj.1 h)
      -- A substitution that is written out takes one run and itself away, and any other one stays
      -- with its run.
      cases hfolded : foldedText? scope e with
      | none => rw [mergedRuns_of_not_written hfolded, kept_of_not_written hfolded]; simp [hlength]
      | some s =>
        obtain ⟨r, rest, hmerged⟩ := List.exists_cons_of_length_eq_add_one hlength
        rw [hmerged] at hlength
        rw [mergedRuns_of_written hfolded hmerged, kept_of_written hfolded]
        exact hlength

/-- A template has a run before its first substitution, folded or not. -/
theorem exists_mergedRuns (h : runs.length = es.length + 1) :
    ∃ r rest, mergedRuns scope runs es = r :: rest :=
  List.exists_cons_of_length_eq_add_one (length_mergedRuns h)

/-- What is put in front of a literal stands in front of its first run. -/
theorem templateText_append (tail : List Char) (q r : Quasi) (rest : List Quasi) (es : List Expr) :
    templateText tail (q.append r :: rest) es
      = q.raw.toList ++ templateText tail (r :: rest) es := by
  cases es <;> simp [templateText]

/-- **The folded text is the text of the literal that is meant.** -/
theorem templateText_mergedRuns (tail : List Char) (h : runs.length = es.length + 1) :
    templateText tail (mergedRuns scope runs es) (keptSubstitutions scope es) =
      foldedBody scope runs es ++ '`' :: tail := by
  induction es generalizing runs with
  | nil =>
    obtain ⟨q, rfl⟩ := List.length_eq_one_iff.1 h
    simp [mergedRuns, keptSubstitutions, templateText, foldedBody]
  | cons e es ih =>
    cases runs with
    | nil => cases h
    | cons q runs =>
      have hlength := Nat.succ_inj.1 h
      have htext := ih hlength
      -- The text of the rest is known by induction; what is written out joins the first run of it.
      cases hfolded : foldedText? scope e with
      | none =>
        rw [mergedRuns_of_not_written hfolded, kept_of_not_written hfolded, templateText, htext,
          foldedBody, foldedPart, hfolded]
        simp
      | some s =>
        obtain ⟨r, rest, hmerged⟩ := exists_mergedRuns hlength
        rw [hmerged] at htext
        rw [mergedRuns_of_written hfolded hmerged, kept_of_written hfolded, templateText_append,
          templateText_append, htext, foldedBody, foldedPart, hfolded]
        simp

/-! ### Written texts -/

/-- Escaping loses no character. -/
theorem mem_escapeTemplate {c : Char} {s : List Char} (h : c ∈ s) : c ∈ escapeTemplate s := by
  fun_induction escapeTemplate s with
  | case1 rest ih => grind
  | case2 rest ih => grind
  | case3 rest ih => grind
  | case4 d rest _ _ _ ih => grind
  | case5 => exact h

/-- It adds backslashes only, so any other first character was there before. -/
theorem head?_of_escapeTemplate {c : Char} {s : List Char} (hc : c ≠ '\\')
    (h : (escapeTemplate s).head? = some c) : s.head? = some c := by
  revert h
  fun_cases escapeTemplate s with
  | case1 => exact fun h => absurd (Option.some.inj h).symm hc
  | case2 => exact fun h => absurd (Option.some.inj h).symm hc
  | case3 => exact fun h => absurd (Option.some.inj h).symm hc
  | case4 d rest => exact id
  | case5 => exact id

/-- A text is written out so that it reads back, in front of everything in front of which it opens
no substitution. A return is not written so that it lasts. -/
theorem reads_escapeTemplate {s right : List Char} (hreturn : '\r' ∉ s)
    (hopens : opens right (escapeTemplate s) = false) : Reads right (escapeTemplate s) s := by
  -- The escapes that are written do not join with anything.
  have hescape : ∀ c ∈ ['\\', '`', '$'], ∀ {text value}, Reads right text value →
      Reads right ('\\' :: c :: text) (c :: value) := by
    intro c hc text value h
    obtain ⟨hletter, hend, hdigit, hjoins⟩ : isEscapeLetter c = false ∧ isLineEnd c = false ∧
        c.isDigit = false ∧ ∀ t, escapeJoins [c] t = false := by
      simp only [List.mem_cons, List.not_mem_nil, or_false] at hc
      rcases hc with rfl | rfl | rfl <;> exact ⟨by decide, by decide, by decide, fun t => rfl⟩
    have hspelled : IsEscape [c] [c] := by
      refine isEscape_char (by rintro rfl; cases hletter) (by rintro rfl; cases hletter)
        fun t _ => ?_
      have hzero : c ≠ '0' := by
        rintro rfl
        cases hdigit
      rw [takeEscape_other hletter]
      simp [hend, hdigit, hzero]
    exact .escape hspelled (hjoins _) h
  fun_induction escapeTemplate s with
  | case1 rest ih =>
    exact hescape '\\' (by decide) (ih (fun h => hreturn (by simp [h])) hopens)
  | case2 rest ih =>
    exact hescape '`' (by decide) (ih (fun h => hreturn (by simp [h])) hopens)
  | case3 rest ih =>
    have hrest : opens right (escapeTemplate rest) = false :=
      opens_of_append (a := ['$', '{']) rfl hopens
    refine hescape '$' (by decide) (.plain (by decide) (by decide) (by decide) nofun ?_)
    exact ih (fun h => hreturn (by simp [h])) hrest
  | case4 c rest hbackslash htick hopen ih =>
    have hrest : opens right (escapeTemplate rest) = false :=
      opens_of_append (a := [c]) (dangles_of_notMem (by simp [Ne.symm hbackslash])) hopens
    obtain ⟨hnot, hreturn⟩ := not_or.1 (mt List.mem_cons.2 hreturn)
    refine .plain htick hbackslash (Ne.symm hnot) ?_ (ih hreturn hrest)
    rintro rfl hbrace
    cases hwritten : escapeTemplate rest with
    | nil =>
      rw [hwritten] at hbrace hopens
      have hright : right.head? ≠ some '{' := by simpa [opens] using hopens
      exact hright hbrace
    | cons d written =>
      rw [hwritten] at hbrace
      have hhead : rest.head? = some '{' :=
        head?_of_escapeTemplate (by decide) (by rw [hwritten]; exact hbrace)
      obtain ⟨t, rfl⟩ := List.head?_eq_some_iff.1 hhead
      exact hopen t rfl rfl
  | case5 => exact .nil

/-! ### Merged runs read as they say -/

/-- Behind the first run of a template literal is the end of a run. -/
theorem exists_stop_templateText (q : Quasi) (rest : List Quasi) (es : List Expr) :
    ∃ after stop behind, Stop after stop behind ∧
      templateText [] (q :: rest) es = q.raw.toList ++ after := by
  cases es with
  | nil => exact ⟨_, _, _, .literal [], rfl⟩
  | cons e es => exact ⟨_, _, _, .substitution _, rfl⟩

/-- Two runs read one behind the other, if the first one reads in front of the second. -/
theorem wellRead_append {after : List Char} {stop : RunEnd} {behind : List Char}
    (hstop : Stop after stop behind) (hr : r.WellRead)
    (hq : Reads (r.raw.toList ++ after) q.raw.toList q.cooked.toList) : (q.append r).WellRead := by
  intro after' stop' behind' hstop'
  -- What follows counts for the first run only where the second one is empty.
  have hahead : SameAhead (r.raw.toList ++ after) (r.raw.toList ++ after') := by
    by_cases hempty : r.raw.toList = []
    · rw [hempty]
      exact hstop.sameAhead hstop'
    · exact (hr hstop).sameAhead hempty after after'
  rw [raw_append, cooked_append]
  exact reads_append (hq.congr hahead) (hr hstop')

/-- **The merged runs read as they say**, unless a seam breaks. -/
theorem wellRead_mergedRuns (hlength : runs.length = es.length + 1) (hruns : ∀ q ∈ runs, q.WellRead)
    (hseams : ∀ p ∈ seams scope runs es, breaks p.1 p.2 = false) :
    ∀ q ∈ mergedRuns scope runs es, q.WellRead := by
  induction es generalizing runs with
  | nil =>
    obtain ⟨q, rfl⟩ := List.length_eq_one_iff.1 hlength
    exact hruns
  | cons e es ih =>
    cases runs with
    | nil => cases hlength
    | cons q runs =>
      have hlength := Nat.succ_inj.1 hlength
      obtain ⟨hq, hruns⟩ := List.forall_mem_cons.1 hruns
      cases hfolded : foldedText? scope e with
      | none =>
        rw [seams, hfolded] at hseams
        rw [mergedRuns_of_not_written hfolded]
        exact List.forall_mem_cons.2 ⟨hq, ih hlength hruns hseams⟩
      | some s =>
        obtain ⟨r, rest, hmerged⟩ := exists_mergedRuns hlength
        rw [seams, hfolded] at hseams
        obtain ⟨hleft, hseams⟩ := List.forall_mem_cons.1 hseams
        obtain ⟨hright, hseams⟩ := List.forall_mem_cons.1 hseams
        have hmergedRead := ih hlength hruns hseams
        rw [hmerged] at hmergedRead
        obtain ⟨hr, hrest⟩ := List.forall_mem_cons.1 hmergedRead
        -- Behind the text that is written out stands the next merged run, up to its end.
        obtain ⟨after, stop, behind, hstop, htext⟩ :=
          exists_stop_templateText r rest (keptSubstitutions scope es)
        rw [← hmerged, templateText_mergedRuns [] hlength] at htext
        rw [htext, breaks_eq_false_iff] at hleft hright
        have hwritten : Reads (r.raw.toList ++ after) (escapeTemplate s.toList) s.toList :=
          reads_escapeTemplate (mt mem_escapeTemplate hright.1) hright.2.1
        have hbehind : ((Quasi.written s).append r).WellRead :=
          wellRead_append hstop hr (by rwa [raw_written])
        have hfirst : Reads (((Quasi.written s).append r).raw.toList ++ after) q.raw.toList
            q.cooked.toList := by
          rw [raw_append, raw_written, List.append_assoc]
          exact (hq hstop).behind hleft.2.1 hleft.2.2
        rw [mergedRuns_of_written hfolded hmerged]
        exact List.forall_mem_cons.2 ⟨wellRead_append hstop hbehind hfirst, hrest⟩

/-! ### What a template literal comes to -/

/-- The runs of a template literal and the texts of its substitutions in turn. -/
def joined : List Quasi → List String → String
  | [], _ => ""
  | q :: runs, [] => q.cooked ++ joined runs []
  | q :: runs, t :: texts => q.cooked ++ t ++ joined runs texts

/-- A template literal comes to its runs and the texts of its substitutions in turn, where `shows`
gives the text of a datum: of a primitive value its own, of anything else what the world says. -/
structure World.JoinsTexts (w : World) (shows : Datum → String → Prop) : Prop where
  primitive : ∀ v t, shows (.primitive v) t ↔ t = v.text
  joins : ∀ runs es ds d, w.result (.template runs es) ds d ↔
    ∃ texts, List.Forall₂ shows ds texts ∧ d = .primitive (.string (joined runs texts))

/-- The expression may come to a datum with this text. -/
def World.Displays (w : World) (shows : Datum → String → Prop) (e : Expr) (t : String) : Prop :=
  ∃ d, Evaluates w e d ∧ shows d t

section Worlds

variable {w : World} {shows : Datum → String → Prop}

/-- The text of a template is that of its runs, joined by the texts of the values. -/
theorem interleave_eq_joined (runs : List Quasi) (values : List Value) :
    interleave runs values = joined runs (values.map Value.text) := by
  induction runs generalizing values with
  | nil => rfl
  | cons q runs ih => cases values <;> simp [interleave, joined, ih]

/-- Primitive values show as their own texts in a world that joins texts. -/
theorem forall₂_primitive_iff (hw : w.JoinsTexts shows) {values : List Value}
    {texts : List String} :
    List.Forall₂ shows (values.map .primitive) texts ↔ texts = values.map Value.text := by
  induction values generalizing texts with
  | nil => simp
  | cons v values ih => cases texts <;> simp [hw.primitive, ih]

/-- What expressions display is what the data they come to show as. -/
theorem forall₂_displays_iff {es : List Expr} {texts : List String} :
    List.Forall₂ (w.Displays shows) es texts ↔
      ∃ ds, EvaluatesAll w es ds ∧ List.Forall₂ shows ds texts := by
  induction es generalizing texts with
  | nil =>
    constructor
    · intro h
      cases h
      exact ⟨[], .nil, .nil⟩
    · rintro ⟨ds, hds, htexts⟩
      cases hds
      cases htexts
      exact .nil
  | cons e es ih =>
    constructor
    · intro h
      cases h with
      | cons ht hrest =>
        obtain ⟨d, hd, hshows⟩ := ht
        obtain ⟨ds, hds, htexts⟩ := ih.1 hrest
        exact ⟨d :: ds, .cons hd hds, .cons hshows htexts⟩
    · rintro ⟨ds, hds, htexts⟩
      -- The datum of the first substitution and those of the rest are found apart.
      cases hds with
      | cons hd hrest =>
        cases htexts with
        | cons hshows htexts => exact .cons ⟨_, hd, hshows⟩ (ih.2 ⟨_, hrest, htexts⟩)

/-- **A template literal comes to the texts of its parts**, joined. -/
theorem evaluates_template_iff (hw : w.JoinsTexts shows) {t : String} {runs : List Quasi}
    {es : List Expr} {d : Datum} : Evaluates w (.mk t (.template runs es)) d ↔
      ∃ texts, List.Forall₂ (w.Displays shows) es texts ∧
        d = .primitive (.string (joined runs texts)) := by
  simp only [forall₂_displays_iff]
  constructor
  · intro h
    cases h with
    | template hes =>
      exact ⟨_, ⟨_, hes, (forall₂_primitive_iff hw).2 rfl⟩, by rw [interleave_eq_joined]⟩
    | templateOfOther hes _ hd =>
      obtain ⟨texts, htexts, rfl⟩ := (hw.joins _ _ _ _).1 hd
      exact ⟨texts, ⟨_, hes, htexts⟩, rfl⟩
    | other hform _ => cases hform
  · rintro ⟨texts, ⟨ds, hes, htexts⟩, rfl⟩
    -- Of primitive values the literal is computed; with any other datum it is what the world says.
    by_cases hds : ∃ values : List Value, ds = values.map .primitive
    · obtain ⟨values, rfl⟩ := hds
      rw [(forall₂_primitive_iff hw).1 htexts, ← interleave_eq_joined]
      exact .template hes
    · have hother : ∀ values : List Value, ds ≠ values.map .primitive :=
        fun values h => hds ⟨values, h⟩
      exact .templateOfOther hes hother ((hw.joins _ _ _ _).2 ⟨texts, htexts, rfl⟩)

end Worlds

/-- Two runs put together begin the joined text with the first one. -/
theorem joined_append (q r : Quasi) (rest : List Quasi) (texts : List String) :
    joined (q.append r :: rest) texts = q.cooked ++ joined (r :: rest) texts := by
  cases texts <;> simp [joined, Quasi.append, String.append_assoc]

/-- What is written out is the text of the value. -/
theorem displays_written_iff {w : World} {shows : Datum → String → Prop} (hbinds : w.Binds scope)
    (hw : w.JoinsTexts shows) (h : foldedText? scope e = some s) {t : String} :
    w.Displays shows e t ↔ t = s := by
  obtain ⟨v, hv, hs⟩ : ∃ v, e.valueIn? scope = some v ∧ v.text = s := by
    unfold foldedText? at h
    split at h
    · next value hvalue =>
      cases h
      exact ⟨_, hvalue, rfl⟩
    · next x hvalue =>
      cases h
      exact ⟨_, hvalue, rfl⟩
    · cases h
  -- A value that is known is what the expression comes to, and nothing else.
  have hdetermined : w.Determines e v := determines_of_valueIn? hbinds hv
  constructor
  · rintro ⟨d, hd, ht⟩
    rw [hdetermined.unique hd, hw.primitive] at ht
    exact ht.trans hs
  · rintro rfl
    exact ⟨_, hdetermined.evaluates, (hw.primitive _ _).2 hs.symm⟩

/-- Texts for expressions are a text for the first and texts for the others. -/
theorem exists_forall₂_cons_iff {D : Expr → String → Prop} {P : List String → Prop} :
    (∃ texts, List.Forall₂ D (e :: es) texts ∧ P texts) ↔
      ∃ t, D e t ∧ ∃ texts, List.Forall₂ D es texts ∧ P (t :: texts) := by
  constructor
  · rintro ⟨texts, htexts, hP⟩
    cases htexts with
    | cons ht hrest => exact ⟨_, ht, _, hrest, hP⟩
  · rintro ⟨t, ht, texts, hrest, hP⟩
    exact ⟨t :: texts, .cons ht hrest, hP⟩

/-- **The original and the literal that is meant come to the same texts.** -/
theorem exists_joined_iff {D : Expr → String → Prop} {P : String → Prop}
    (hlength : runs.length = es.length + 1)
    (hD : ∀ e ∈ es, ∀ s, foldedText? scope e = some s → ∀ t, D e t ↔ t = s) :
    (∃ texts, List.Forall₂ D es texts ∧ P (joined runs texts)) ↔
      ∃ texts, List.Forall₂ D (keptSubstitutions scope es) texts ∧
        P (joined (mergedRuns scope runs es) texts) := by
  induction es generalizing runs P with
  | nil =>
    obtain ⟨q, rfl⟩ := List.length_eq_one_iff.1 hlength
    rfl
  | cons e es ih =>
    cases runs with
    | nil => cases hlength
    | cons q runs =>
      have hlength := Nat.succ_inj.1 hlength
      obtain ⟨he, hes⟩ := List.forall_mem_cons.1 hD
      -- The texts behind the substitution are the same, whatever stands in front of them.
      have hbehind : ∀ front : String,
          (∃ texts, List.Forall₂ D es texts ∧ P (front ++ joined runs texts)) ↔
            ∃ texts, List.Forall₂ D (keptSubstitutions scope es) texts ∧
              P (front ++ joined (mergedRuns scope runs es) texts) :=
        fun front => ih (P := fun u => P (front ++ u)) hlength hes
      rw [exists_forall₂_cons_iff]
      simp only [joined]
      cases hfolded : foldedText? scope e with
      | none =>
        rw [mergedRuns_of_not_written hfolded, kept_of_not_written hfolded, exists_forall₂_cons_iff]
        simp only [joined, hbehind]
      | some s =>
        obtain ⟨r, rest, hmerged⟩ := exists_mergedRuns hlength
        rw [mergedRuns_of_written hfolded hmerged, kept_of_written hfolded]
        simp only [joined_append, ← String.append_assoc, he s hfolded, hbehind, hmerged,
          exists_eq_left]
        rfl

/-- What the literal that is meant comes to is what the original comes to. -/
theorem evaluates_meant_iff {w : World} {shows : Datum → String → Prop} (hbinds : w.Binds scope)
    (hw : w.JoinsTexts shows) (hlength : runs.length = es.length + 1) (t t' : String) (d : Datum) :
    Evaluates w (.mk t (.template runs es)) d ↔ Evaluates w
      (.mk t' (.template (mergedRuns scope runs es) (keptSubstitutions scope es))) d := by
  rw [evaluates_template_iff hw, evaluates_template_iff hw]
  exact exists_joined_iff (P := fun u => d = .primitive (.string u)) hlength
    fun e _ s hs t => displays_written_iff hbinds hw hs

/-! ### Folding -/

/-- What is folded is a template literal with a substitution that is written out. -/
theorem template_of_foldTemplate? {code folded : String}
    (h : foldTemplate? code scope = some folded) :
    ∃ e runs es, Expr.parse? code = some e ∧ e.bare.form = .template runs es ∧
      (∃ e ∈ es, e.isWritten scope = true) ∧
      folded = String.ofList ('`' :: foldedBody scope runs es ++ ['`']) := by
  obtain ⟨e, he, h⟩ := Option.bind_eq_some_iff.1 h
  split at h
  · next runs es hform =>
    split at h
    · next hany =>
      cases h
      obtain ⟨e', hmem, hwritten⟩ := List.any_eq_true.1 hany
      -- Something is written out, so its folded text is there.
      refine ⟨e, runs, es, he, hform, ⟨e', hmem, ?_⟩, rfl⟩
      rw [← Bool.not_eq_false, ← foldedText?_eq_none_iff]
      rintro hnone
      rw [hnone] at hwritten
      cases hwritten
    · cases h
  · cases h

/-- **A folded template literal keeps its meaning** unless a seam breaks. Its text is that of a
template literal with the substitutions that are left, in order; it reads as that literal if they
read back where they stand; and it comes to what the original comes to, in every run that binds the
scope and joins texts. -/
theorem folded_evaluates_iff {code folded : String} {scope : Scope}
    (hfolded : foldTemplate? code scope = some folded)
    (hseams : ∀ p ∈ codeSeams code scope, breaks p.1 p.2 = false) :
    ∃ e runs es, Expr.parse? code = some e ∧ e.bare.form = .template runs es ∧
      let kept := keptSubstitutions scope es
      let merged := mergedRuns scope runs es
      folded = String.ofList ('`' :: templateText [] merged kept) ∧
      merged.length = kept.length + 1 ∧ (∀ q ∈ merged, q.WellRead) ∧
      ((∀ e ∈ kept, e.ReadsBack) →
        Expr.parse? folded = some (.mk folded (.template merged kept))) ∧
      ∀ (w : World) (shows : Datum → String → Prop), w.Binds scope → w.JoinsTexts shows →
        ∀ d, Evaluates w e d ↔ Evaluates w (.mk folded (.template merged kept)) d := by
  obtain ⟨e, runs, es, he, hform, -, htext⟩ := template_of_foldTemplate? hfolded
  obtain ⟨hlength, hruns, -⟩ := template_of_parse? he hform
  rw [codeSeams, he, Option.elim_some, hform] at hseams
  -- No seam breaks, so the merged runs read as they are meant.
  have hmerged := wellRead_mergedRuns hlength hruns hseams
  have hkept : (mergedRuns scope runs es).length = (keptSubstitutions scope es).length + 1 :=
    length_mergedRuns hlength
  have hmeant : folded = String.ofList
      ('`' :: templateText [] (mergedRuns scope runs es) (keptSubstitutions scope es)) := by
    rw [htext, templateText_mergedRuns [] hlength]
    rfl
  refine ⟨e, runs, es, he, hform, hmeant, hkept, hmerged, fun hread => ?_,
      fun w shows hbinds hw d => ?_⟩
  · have hparse := parse?_templateText hkept hmerged hread
    rwa [← hmeant] at hparse
  · rw [← evaluates_bare_iff]
    rcases hbare : e.bare with ⟨t, form⟩
    rw [hbare] at hform
    cases hform
    exact evaluates_meant_iff hbinds hw hlength t folded d

/-- The expression is the name, spelled as it is. -/
def Script.Expr.isNamed (w : String) : Expr → Bool
  | .mk t (.identifier name) => t == w && name == w
  | _ => false

/-- A substitution that is named is the identifier, as it is spelled. -/
theorem eq_of_isNamed {w : String} {e : Expr} (h : e.isNamed w = true) :
    e = .mk w (.identifier w) := by
  obtain ⟨t, form⟩ := e
  cases form with
  | identifier name =>
    obtain ⟨ht, hname⟩ := Bool.and_eq_true_iff.1 h
    rw [eq_of_beq ht, eq_of_beq hname]
  | _ => cases h

/-- A choice between two texts is written out, and a name is left. -/
theorem folded_evaluates_iff_choice :
    let code := "`btn $\x7btrue ? 'primary' : 'plain'\x7d $\x7bsize\x7d`"
    let folded := "`btn primary $\x7bsize\x7d`"
    foldTemplate? code Dict.empty = some folded ∧
      (∀ p ∈ codeSeams code Dict.empty, breaks p.1 p.2 = false) ∧
      ∃ e merged kept, Expr.parse? code = some e ∧
        Expr.parse? folded = some (.mk folded (.template merged kept)) ∧
        (∀ e ∈ kept, e = .mk "size" (.identifier "size")) ∧
        ∀ (w : World) (shows : Datum → String → Prop), w.Binds Dict.empty → w.JoinsTexts shows →
          ∀ d, Evaluates w e d ↔ Evaluates w (.mk folded (.template merged kept)) d := by
  intro code folded
  have hfolded : foldTemplate? code Dict.empty = some folded := by decide +kernel
  have hseams : ∀ p ∈ codeSeams code Dict.empty, breaks p.1 p.2 = false := by decide +kernel
  have hnamed : ((Expr.parse? code).elim false fun e =>
      match e.bare.form with
      | .template _ es => (keptSubstitutions Dict.empty es).all (·.isNamed "size")
      | _ => false) = true := by decide +kernel
  obtain ⟨e, runs, es, he, hform, -, -, -, hparse, hiff⟩ := folded_evaluates_iff hfolded hseams
  rw [he, Option.elim_some, hform] at hnamed
  have hkept : ∀ e ∈ keptSubstitutions Dict.empty es, e = .mk "size" (.identifier "size") :=
    fun e hmem => eq_of_isNamed (List.all_eq_true.1 hnamed e hmem)
  have hsize : IsName "size" :=
    ⟨⟨by decide +kernel, List.all_eq_true.1 (by decide +kernel)⟩, by decide⟩
  have hread : ∀ e ∈ keptSubstitutions Dict.empty es, e.ReadsBack := by
    intro e hmem
    rw [hkept e hmem]
    exact readsBack_name hsize
  exact ⟨hfolded, hseams, e, _, _, he, hparse hread, hkept, hiff⟩

/-! ### A seam that breaks -/

/-- A primitive value has a text, and nothing else has one. -/
def ownText : Datum → String → Prop
  | .primitive v, t => t = v.text
  | .other _ _, _ => False

/-- A world with these values that joins texts. -/
def World.joining (value : String → Datum) : World where
  value := value
  result
    | .template runs _, ds, d =>
      ∃ texts, List.Forall₂ ownText ds texts ∧ d = .primitive (.string (joined runs texts))
    | _, _, d => d = .other 0 true
  exists_literal form h := by
    cases form with
    | template => cases h
    | _ => exact ⟨_, rfl⟩
  truthy_literal form d h hd := by
    cases form with
    | template => cases h
    | _ => exact hd ▸ rfl

/-- The world that shows data by their own texts joins them. -/
theorem joinsTexts_joining (value : String → Datum) : (World.joining value).JoinsTexts ownText :=
  ⟨fun _ _ => Iff.rfl, fun _ _ _ _ => Iff.rfl⟩

/-- **A written dollar sign opens a substitution.** In front of a brace of the literal, the text of
a constant becomes the mark of a substitution that the original does not have, and the value is
another. -/
theorem fold_opens_substitution :
    let code := "`$\x7b'$'\x7d\x7bx\x7d$\x7by\x7d`"
    let folded := "`$\x7bx\x7d$\x7by\x7d`"
    foldTemplate? code Dict.empty = some folded ∧
      ∃ (w : World) (shows : Datum → String → Prop) (e e' : Expr), w.Binds Dict.empty ∧
        w.JoinsTexts shows ∧ Expr.parse? code = some e ∧ Expr.parse? folded = some e' ∧
        (∀ d, Evaluates w e d ↔ d = .primitive (.string "$\x7bx\x7d2")) ∧
        (∀ d, Evaluates w e' d ↔ d = .primitive (.string "12")) := by
  intro code folded
  have hfolded : foldTemplate? code Dict.empty = some folded := by decide +kernel
  let scope : Scope := (Dict.empty.insert "x" "'1'").insert "y" "'2'"
  let w : World := .joining fun name => .primitive (.string (if name = "x" then "1" else "2"))
  have hbinds : w.Binds scope := by
    intro name code e hcode he
    change List.lookup name [("x", "'1'"), ("y", "'2'")] = some code at hcode
    rw [List.lookup_cons] at hcode
    split at hcode
    · next hname =>
      cases eq_of_beq hname
      cases hcode
      have hx : SpellsString "'1'" "1" := by rfl
      rw [parse?_stringLiteral hx] at he
      cases he
      exact .string _ _
    rw [List.lookup_cons] at hcode
    split at hcode
    · next hname =>
      cases eq_of_beq hname
      cases hcode
      have hy : SpellsString "'2'" "2" := by rfl
      rw [parse?_stringLiteral hy] at he
      cases he
      exact .string _ _
    · cases hcode
  -- Where both names are bound, both values are known.
  have hvalue : evaluate? code scope = some (.string "$\x7bx\x7d2") :=
    evaluate?_eq_string (by decide +kernel) (by decide +kernel)
  have hvalue' : evaluate? folded scope = some (.string "12") :=
    evaluate?_eq_string (by decide +kernel) (by decide +kernel)
  obtain ⟨e, he, hv⟩ := Option.bind_eq_some_iff.1 hvalue
  obtain ⟨e', he', hv'⟩ := Option.bind_eq_some_iff.1 hvalue'
  exact ⟨hfolded, w, ownText, e, e', nofun, joinsTexts_joining _, he, he',
    determines_of_valueIn? hbinds hv, determines_of_valueIn? hbinds hv'⟩

end Stencil
