import Stencil.Proofs.Optimize.Folding
import Stencil.Proofs.Text.Replacing
import Stencil.Proofs.Text.Spelling

/-!
# Escaped texts

A text that is written out in a template literal has its backslashes, its backticks and its opening
marks escaped. Three replacements one after another do that, the backslashes first, since the other
two put in backslashes that must stay single (`escapeTemplate_eq_replaced`).

On its own, between two backticks, an escaped text reads back (`escaped_text_reads_back`): nothing
in it ends the literal or opens a substitution, and no escape is taken for another. The one thing
that a template literal cannot hold is a return, which it reads as a line feed. So what comes back
is the text with its returns as line feeds. `takeRun_escapeTemplate` says so for every text, and in
front of whatever stands behind the literal.
-/

namespace Stencil.Script

/-! ### Returns are read as line feeds -/

/-- Only a carriage return is normalised. -/
theorem lineFeeds_cons {c : Char} (hc : c ≠ '\r') (s : List Char) :
    lineFeeds (c :: s) = c :: lineFeeds s := by
  rw [lineFeeds, if_neg hc]
  simp [hc]

/-- A return with a line feed behind it is one line end. -/
theorem lineFeeds_return_feed (s : List Char) :
    lineFeeds ('\r' :: '\n' :: s) = lineFeeds ('\n' :: s) := by
  rw [lineFeeds_cons (c := '\n') (by decide)]
  rfl

/-- A return alone is a line end, too. -/
theorem lineFeeds_return {s : List Char} (h : s.head? ≠ some '\n') :
    lineFeeds ('\r' :: s) = lineFeeds ('\n' :: s) := by
  rw [lineFeeds_cons (c := '\n') (by decide), lineFeeds, if_pos rfl]
  rintro t - rfl
  exact h rfl

/-- Afterwards there is none. -/
theorem notMem_lineFeeds (s : List Char) : '\r' ∉ lineFeeds s := by
  fun_induction lineFeeds s with
  | case1 s ih => simp [ih]
  | case2 c s _ ih =>
    rw [List.mem_cons, not_or]
    refine ⟨?_, ih⟩
    split
    · decide
    · next hc => exact Ne.symm hc
  | case3 => exact List.not_mem_nil

/-- A text is kept as it is exactly if it has no returns. -/
theorem lineFeeds_eq_self_iff {s : List Char} : lineFeeds s = s ↔ '\r' ∉ s := by
  constructor
  · intro h
    rw [← h]
    exact notMem_lineFeeds s
  · exact lineFeeds_of_notMem

/-- A run reads a carriage return before a line feed as the line feed. -/
theorem takeRun_return_feed (bound : Nat) (s : List Char) :
    takeRun (bound + 1) ('\r' :: '\n' :: s) = takeRun (bound + 1) ('\n' :: s) := by
  rw [takeRun_plain (c := '\n') (by decide) (by decide) (by decide) (by simp)]
  rfl

/-- It reads any other one as a line feed. -/
theorem takeRun_return {s : List Char} (h : s.head? ≠ some '\n') (bound : Nat) :
    takeRun (bound + 1) ('\r' :: s) = takeRun (bound + 1) ('\n' :: s) := by
  have hfeed : ∀ t, s ≠ '\n' :: t := by
    rintro t rfl
    exact h rfl
  rw [takeRun_plain (c := '\n') (by decide) (by decide) (by decide) (by simp), takeRun]
  · rfl
  all_goals simp [hfeed]

end Stencil.Script

namespace Stencil

open Script Text

/-! ### Three replacements -/

/-- The spelling of a character that is escaped wherever it stands. -/
def escapeMark (c : Char) : List Char :=
  if c = '\\' then ['\\', '\\'] else if c = '`' then ['\\', '`'] else [c]

/-- Escaping keeps braces and brings none. -/
theorem keeps_escapeMark : Keeps ['{'] escapeMark := by
  refine keeps_of_forall (by simp [escapeMark]) fun c => ?_
  fun_cases escapeMark c with
  | case3 => exact .inl rfl
  | _ => exact .inr (by simp)

/-- The first two replacements take a character each. -/
theorem replaced_marks (s : List Char) :
    replaced ['`'] ['\\', '`'] (replaced ['\\'] ['\\', '\\'] s) = s.flatMap escapeMark := by
  rw [replaced_singleton, replaced_singleton, List.flatMap_assoc]
  apply congrArg (fun f => s.flatMap f)
  funext c
  fun_cases escapeMark c with
  | case1 hbackslash => simp [hbackslash]
  | case2 hbackslash htick => simp [htick]
  | case3 hbackslash htick => simp [hbackslash, htick]

/-- **A text is escaped by three replacements**, of the backslashes first. -/
theorem escapeTemplate_eq_replaced (s : List Char) :
    escapeTemplate s =
      replaced ['$', '{'] ['\\', '$', '{']
        (replaced ['`'] ['\\', '`'] (replaced ['\\'] ['\\', '\\'] s)) := by
  rw [replaced_marks]
  -- Neither of the two escapes of a mark opens anything.
  have hopen : ∀ c t, c ≠ '$' → ¬ ['$', '{'] <+: c :: t := by
    intro c t hc h
    exact hc (List.cons_prefix_cons.1 h).1.symm
  fun_induction escapeTemplate s with
  | case1 rest ih =>
    have hmark : ('\\' :: rest).flatMap escapeMark = '\\' :: '\\' :: rest.flatMap escapeMark := rfl
    rw [hmark, replaced_cons (hopen _ _ (by decide)), replaced_cons (hopen _ _ (by decide)), ih]
  | case2 rest ih =>
    have hmark : ('`' :: rest).flatMap escapeMark = '\\' :: '`' :: rest.flatMap escapeMark := rfl
    rw [hmark, replaced_cons (hopen _ _ (by decide)), replaced_cons (hopen _ _ (by decide)), ih]
  | case3 rest ih =>
    have hmark : ('$' :: '{' :: rest).flatMap escapeMark =
        ['$', '{'] ++ rest.flatMap escapeMark := rfl
    rw [hmark, replaced_append (by simp), ih]
    rfl
  | case4 c rest hbackslash htick hbrace ih =>
    have hmark : escapeMark c = [c] := by
      unfold escapeMark
      rw [if_neg hbackslash, if_neg htick]
    have hprefix : ¬ ['$', '{'] <+: c :: rest.flatMap escapeMark := by
      intro h
      obtain ⟨hc, h⟩ := List.cons_prefix_cons.1 h
      -- A brace behind it would be a brace of the text.
      have hhead : (rest.flatMap escapeMark).head? = some '{' := by
        obtain ⟨t, ht⟩ := h
        rw [← ht]
        rfl
      rw [keeps_escapeMark.head?_flatMap (by simp)] at hhead
      obtain ⟨t, ht⟩ := List.head?_eq_some_iff.1 hhead
      exact hbrace t hc.symm ht
    rw [List.flatMap_cons, hmark, List.singleton_append, replaced_cons hprefix, ih]
  | case5 => exact replaced_nil.symm

/-! ### Reading an escaped text -/

/-- The run that an escaped text is read as, up to the backtick behind it. -/
def escapedRun (s rest : List Char) : Run where
  raw := lineFeeds (escapeTemplate s)
  cooked := some (lineFeeds s)
  stop := .literal
  rest := rest

/-- In front of the closing backtick, a character that is no escape is one of the text. -/
theorem head?_of_escaped {c : Char} {s rest : List Char} (hbackslash : c ≠ '\\') (htick : c ≠ '`')
    (h : (escapeTemplate s ++ '`' :: rest).head? = some c) : s.head? = some c := by
  apply head?_of_escapeTemplate hbackslash
  -- An empty text has the closing mark first.
  cases hspelled : escapeTemplate s with
  | nil =>
    rw [hspelled] at h
    exact absurd (Option.some.inj h).symm htick
  | cons d spelled =>
    rw [hspelled] at h
    exact h

/-- An escape that is put in is read as the character that it stands for. -/
theorem takeRun_escaped {c : Char} {bound : Nat} {t : List Char} {r : Run}
    (hc : c ∈ ['\\', '`', '$']) (h : takeRun bound t = some r) :
    takeRun (bound + 1) ('\\' :: c :: t) = some (r.prepend ['\\', c] (some [c])) := by
  have hconsumed : consumed (c :: t) t = [c] := consumed_append [c] t
  obtain ⟨hread, hkept⟩ : takeEscape false (c :: t) = some ([c], t) ∧ lineFeeds [c] = [c] := by
    simp only [List.mem_cons, List.not_mem_nil, or_false] at hc
    rcases hc with rfl | rfl | rfl <;> exact ⟨rfl, rfl⟩
  rw [takeRun_escape hread, h, hconsumed, hkept]
  rfl

/-- Every other character is read as itself. -/
theorem takeRun_unescaped {c : Char} {bound : Nat} {t : List Char} {r : Run} (htick : c ≠ '`')
    (hbackslash : c ≠ '\\') (hreturn : c ≠ '\r') (hopen : c = '$' → t.head? ≠ some '{')
    (h : takeRun bound t = some r) :
    takeRun (bound + 1) (c :: t) = some (r.prepend [c] (some [c])) := by
  rw [takeRun_plain htick hbackslash hreturn hopen, h]
  rfl

/-- A return in front of an escaped text is read as a line feed, together with a line feed that the
text begins with. -/
theorem takeRun_escaped_return {s rest : List Char}
    (h : ∀ {bound}, (escapeTemplate s).length < bound →
      takeRun bound (escapeTemplate s ++ '`' :: rest) = some (escapedRun s rest))
    {bound : Nat} (hbound : (escapeTemplate s).length < bound) :
    takeRun (bound + 1) ('\r' :: escapeTemplate s ++ '`' :: rest) =
      some (escapedRun ('\r' :: s) rest) := by
  have hreturn : escapeTemplate ('\r' :: s) = '\r' :: escapeTemplate s := rfl
  rw [escapedRun, hreturn]
  -- A line feed behind the return is read together with it, so it is read neither way a second
  -- time.
  by_cases hfeed : s.head? = some '\n'
  · obtain ⟨t, rfl⟩ := List.head?_eq_some_iff.1 hfeed
    have hspelled : escapeTemplate ('\n' :: t) = '\n' :: escapeTemplate t := rfl
    have hline := h (Nat.lt_succ_of_lt hbound)
    rw [escapedRun, hspelled] at hline
    rw [hspelled, List.cons_append, List.cons_append, takeRun_return_feed, lineFeeds_return_feed,
      lineFeeds_return_feed]
    exact hline
  · have hspelled : (escapeTemplate s).head? ≠ some '\n' :=
      mt (head?_of_escapeTemplate (by decide)) hfeed
    -- What stands behind the return is a line feed only if the text starts with one.
    have hbehind : (escapeTemplate s ++ '`' :: rest).head? ≠ some '\n' :=
      mt (head?_of_escaped (by decide) (by decide)) hfeed
    have hline :=
      takeRun_unescaped (c := '\n') (by decide) (by decide) (by decide) (by simp) (h hbound)
    rw [List.cons_append, takeRun_return hbehind, lineFeeds_return hspelled, lineFeeds_return hfeed,
      lineFeeds_cons (by decide), lineFeeds_cons (by decide)]
    exact hline

/-- **An escaped text is read as one run up to the backtick behind it**, and its value is the text
with its returns as line feeds. -/
theorem takeRun_escapeTemplate (s rest : List Char) {bound : Nat}
    (hbound : (escapeTemplate s).length < bound) :
    takeRun bound (escapeTemplate s ++ '`' :: rest) = some (escapedRun s rest) := by
  unfold escapedRun
  fun_induction escapeTemplate s generalizing bound with
  | case1 s ih =>
    rw [List.length_cons, List.length_cons] at hbound
    obtain ⟨bound, rfl⟩ : ∃ k, bound = k + 1 := ⟨bound - 1, by omega⟩
    have hrest : (escapeTemplate s).length < bound := by omega
    simpa [Run.prepend, lineFeeds_cons] using takeRun_escaped (c := '\\') (by simp) (ih hrest)
  | case2 s ih =>
    rw [List.length_cons, List.length_cons] at hbound
    obtain ⟨bound, rfl⟩ : ∃ k, bound = k + 1 := ⟨bound - 1, by omega⟩
    have hrest : (escapeTemplate s).length < bound := by omega
    simpa [Run.prepend, lineFeeds_cons] using takeRun_escaped (c := '`') (by simp) (ih hrest)
  | case3 s ih =>
    rw [List.length_cons, List.length_cons, List.length_cons] at hbound
    obtain ⟨bound, rfl⟩ : ∃ k, bound = k + 2 := ⟨bound - 2, by omega⟩
    have hrest : (escapeTemplate s).length < bound := by omega
    -- The escape ends at the dollar sign, so what is left is a brace that opens nothing.
    have hbrace :=
      takeRun_unescaped (c := '{') (by decide) (by decide) (by decide) (by simp) (ih hrest)
    simpa [Run.prepend, lineFeeds_cons] using takeRun_escaped (c := '$') (by simp) hbrace
  | case4 c s hbackslash htick hbrace ih =>
    rw [List.length_cons] at hbound
    obtain ⟨bound, rfl⟩ : ∃ k, bound = k + 1 := ⟨bound - 1, by omega⟩
    have hrest : (escapeTemplate s).length < bound := by omega
    by_cases hreturn : c = '\r'
    · subst hreturn
      exact takeRun_escaped_return ih hrest
    · have hopen : c = '$' → (escapeTemplate s ++ '`' :: rest).head? ≠ some '{' := by
        intro hc hhead
        obtain ⟨t, ht⟩ :=
          List.head?_eq_some_iff.1 (head?_of_escaped (by decide) (by decide) hhead)
        exact hbrace t hc ht
      rw [lineFeeds_cons hreturn, lineFeeds_cons hreturn]
      exact takeRun_unescaped htick hbackslash hreturn hopen (ih hrest)
  | case5 =>
    obtain ⟨bound, rfl⟩ : ∃ k, bound = k + 1 := ⟨bound - 1, by simp at hbound; omega⟩
    rfl

/-- The template literal that a text is written out as, on its own. -/
def templateOf (s : String) : String :=
  "`" ++ String.ofList (escapeTemplate s.toList) ++ "`"

/-- The template of a text is the escaped text in backticks. -/
theorem toList_templateOf (s : String) :
    (templateOf s).toList = '`' :: (escapeTemplate s.toList ++ ['`']) := by
  simp [templateOf]

/-- Between two backticks, an escaped text is a template literal of one run. -/
theorem parse?_templateOf (s : String) :
    let q : Quasi :=
      ⟨String.ofList (lineFeeds (escapeTemplate s.toList)), String.ofList (lineFeeds s.toList)⟩
    Expr.parse? (templateOf s) = some (.mk (templateOf s) (.template [q] [])) := by
  intro q
  -- The bound of the tokenizer is longer than the run, so the run is read to its end.
  have hbound : (escapeTemplate s.toList).length <
      (escapeTemplate s.toList ++ ['`']).length + 1 := by
    rw [List.length_append]
    omega
  have hrun : Parser.run (escapeTemplate s.toList ++ ['`']) =
      some (escapedRun s.toList [], []) := by
    unfold Parser.run
    rw [Parser.run_bind, Parser.run_get]
    simp only [Option.bind_some]
    rw [takeRun_escapeTemplate s.toList [] hbound]
    rfl
  have htext : templateOf s = String.ofList ('`' :: (escapeTemplate s.toList ++ ['`'])) := by
    rw [← toList_templateOf, String.ofList_toList]
  have hwhole := consumed_append ('`' :: (escapeTemplate s.toList ++ ['`'])) []
  rw [List.append_nil] at hwhole
  rw [htext]
  refine parse?_of_template ?_
  rw [Parser.template_of_run (q := q) hrun rfl rfl, hwhole]

/-- **An escaped text reads back.** Three replacements escape a text. Put between two backticks,
what they make of it is one template literal without substitutions. Its value is the text with its
returns as line feeds, so it is the text itself exactly if that has no returns. -/
theorem escaped_text_reads_back (v : String) :
    (templateOf v).toList =
        '`' :: (replaced ['$', '{'] ['\\', '$', '{']
          (replaced ['`'] ['\\', '`'] (replaced ['\\'] ['\\', '\\'] v.toList)) ++ ['`']) ∧
      ∃ q : Quasi, Expr.parse? (templateOf v) = some (.mk (templateOf v) (.template [q] [])) ∧
        q.cooked.toList = lineFeeds v.toList ∧ (q.cooked = v ↔ '\r' ∉ v.toList) := by
  constructor
  · rw [toList_templateOf, escapeTemplate_eq_replaced]
  · refine ⟨_, parse?_templateOf v, String.toList_ofList, ?_⟩
    rw [← lineFeeds_eq_self_iff, ← String.toList_inj, String.toList_ofList]

end Stencil
