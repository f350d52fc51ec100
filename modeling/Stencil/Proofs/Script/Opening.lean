import Mathlib.Algebra.GroupWithZero.Nat
import Stencil.Proofs.Script.Suffix

/-!
# Opening marks

The substitutions of a template literal are counted by the marks that open them. `openers` counts
the marks of a text, and passes over escapes as the reader of runs does. What is read between two
substitutions opens nothing (`Reads.openers_eq_zero`), so only two things matter where texts are put
one behind the other: a text must end in whole steps, or a mark is lost, and it must not end in a
dollar sign in front of a brace, or a mark is won (`openers_append`).

`load` is what a list of substitutions needs of these marks.
-/

namespace Stencil.Script

/-! ### Counting -/

/-- The number of marks that open a substitution; an escaped dollar sign opens none. -/
def openers : List Char → Nat
  | '\\' :: _ :: rest => openers rest
  | c :: rest => (if c = '$' ∧ rest.head? = some '{' then 1 else 0) + openers rest
  | [] => 0

/-- The opening marks that the substitutions of a template literal need: their own, and those that
stand in them. -/
def load (es : List Expr) : Nat :=
  (es.map fun e => openers e.text.toList + 1).sum

@[simp] theorem load_nil : load [] = 0 := rfl

/-- Each substitution counts once, and once for every one that its text could open. -/
@[simp] theorem load_cons (e : Expr) (es : List Expr) :
    load (e :: es) = openers e.text.toList + 1 + load es := rfl

@[simp] theorem load_append (es es' : List Expr) : load (es ++ es') = load es + load es' := by
  simp [load]

section Openers

variable {a b after text value rest : List Char} {c : Char}

/-- A plain character opens a substitution if it is a dollar sign before a brace. -/
theorem openers_cons (hc : c ≠ '\\') (rest : List Char) : openers (c :: rest) =
    (if c = '$' ∧ rest.head? = some '{' then 1 else 0) + openers rest := by
  rw [openers]
  simp [hc]

/-- A character in front closes nothing. -/
theorem openers_le_cons (hc : c ≠ '\\') (rest : List Char) :
    openers rest ≤ openers (c :: rest) := by
  rw [openers_cons hc]
  exact Nat.le_add_left _ _

/-- Without a dollar sign nothing opens. -/
theorem openers_of_notMem (h : '$' ∉ a) : openers a = 0 := by
  induction a using steps_induction with
  | nil => rfl
  | backslash => rfl
  | escape c rest ih => exact ih (by simp_all)
  | plain c rest hc ih =>
    obtain ⟨hdollar, hrest⟩ := not_or.1 (mt List.mem_cons.2 h)
    rw [openers_cons hc, if_neg fun h => hdollar h.1.symm, ih hrest]

/-- Nor does anything open against what follows. -/
theorem opens_of_notMem (h : '$' ∉ a) : opens b a = false := by
  induction a using steps_induction with
  | nil => rfl
  | backslash => rfl
  -- What is escaped opens nothing, whatever it is.
  | escape c rest ih => exact ih (by simp_all)
  | plain c rest hc ih =>
    obtain ⟨hdollar, hrest⟩ := not_or.1 (mt List.mem_cons.2 h)
    cases rest with
    | nil => simp [opens, Ne.symm hdollar]
    | cons d rest =>
      rw [opens_cons hc (by simp)]
      exact ih hrest

/-- A mark stays one when more text follows. -/
theorem head_mark_le (c : Char) (a b : List Char) :
    (if c = '$' ∧ a.head? = some '{' then 1 else 0) ≤
      if c = '$' ∧ (a ++ b).head? = some '{' then 1 else 0 := by
  split
  · next h =>
    have hmark : (a ++ b).head? = some '{' := by simp [List.head?_append, h.2]
    exact Nat.le_of_eq (if_pos ⟨h.1, hmark⟩).symm
  · exact Nat.zero_le _

/-- The marks of the two texts stay marks where the first one ends in whole steps. -/
theorem openers_add_le (ha : dangles a = false) : openers a + openers b ≤ openers (a ++ b) := by
  induction a using steps_induction with
  | nil => exact Nat.le_of_eq (Nat.zero_add _)
  | backslash => cases ha
  | escape c rest ih => exact ih ha
  | plain c rest hc ih =>
    rw [dangles_cons hc] at ha
    rw [List.cons_append, openers_cons hc, openers_cons hc, Nat.add_assoc]
    exact Nat.add_le_add (head_mark_le c rest b) (ih ha)

/-- No mark is lost, and none is won unless the first text opens one in front of the second. -/
theorem openers_append (ha : dangles a = false) (hopens : opens b a = false) :
    openers (a ++ b) = openers a + openers b := by
  induction a using steps_induction with
  | nil => exact (Nat.zero_add _).symm
  | backslash => cases ha
  | escape c rest ih => exact ih ha hopens
  | plain c rest hc ih =>
    rw [dangles_cons hc] at ha
    rw [List.cons_append, openers_cons hc, openers_cons hc]
    -- At the end of the first text `hopens` speaks of its last character; before that the induction
    -- does.
    by_cases hrest : rest = []
    · subst hrest
      have hhead : ¬ (c = '$' ∧ b.head? = some '{') := by
        rintro ⟨rfl, hbrace⟩
        simp [opens, hbrace] at hopens
      simp [hhead, openers]
    · rw [opens_cons hc hrest] at hopens
      have hhead : (rest ++ b).head? = rest.head? := by cases rest <;> simp_all
      rw [ih ha hopens, hhead]
      omega

/-- A brace that closes and a backtick part a text for good. -/
theorem openers_append_cons (hc : c ∈ ['\x7d', '`']) (a b : List Char) :
    openers (a ++ c :: b) = openers a + openers b := by
  -- The character is no part of a mark, on neither side.
  obtain ⟨hbackslash, hdollar, hbrace⟩ : c ≠ '\\' ∧ c ≠ '$' ∧ c ≠ '{' := by
    refine ⟨?_, ?_, ?_⟩ <;>
    · rintro rfl
      revert hc
      decide
  induction a using steps_induction with
  | nil => simp [openers_cons hbackslash, hdollar, openers]
  | backslash => simp [openers]
  | escape d rest ih => exact ih
  | plain d rest hd ih =>
    rw [List.cons_append, openers_cons hd, openers_cons hd, ih]
    have hhead : (rest ++ c :: b).head? = some '{' ↔ rest.head? = some '{' := by
      cases rest <;> simp [hbrace]
    simp only [hhead]
    omega

/-- What follows closes nothing. -/
theorem openers_le_append (a b : List Char) : openers a ≤ openers (a ++ b) := by
  induction a using steps_induction with
  | nil => exact Nat.zero_le _
  | backslash => exact Nat.zero_le _
  | escape c rest ih => exact ih
  | plain c rest hc ih =>
    rw [List.cons_append, openers_cons hc, openers_cons hc]
    exact Nat.add_le_add (head_mark_le c rest b) ih

/-- Behind a character that begins no escape, the marks are counted as they are alone. -/
theorem openers_behind (hc : c ≠ '\\') (before rest : List Char) :
    openers rest ≤ openers (before ++ c :: rest) := by
  induction before using steps_induction with
  | nil => exact openers_le_cons hc rest
  | backslash => exact Nat.le_refl _
  | escape d before ih => exact ih
  | plain d before hd ih => exact Nat.le_trans ih (openers_le_cons hd _)

/-- Behind skipped blanks no more opens than before them. -/
theorem Skips.openers_le {s rest : List Char} (h : Skips s rest) : openers rest ≤ openers s := by
  obtain rfl | rfl | ⟨before, c, hc, rfl⟩ := h
  · exact Nat.le_refl _
  · exact Nat.zero_le _
  · exact openers_behind hc before rest

theorem IsStep.openers_le {spelled : List Char} (h : IsStep spelled) (rest : List Char) :
    openers rest ≤ openers ('\\' :: spelled ++ rest) := by
  obtain ⟨c, tail, rfl, htail, -⟩ := h
  have hadd : openers tail + openers rest ≤ openers (tail ++ rest) := openers_add_le htail
  exact Nat.le_trans (Nat.le_add_left _ _) hadd

/-- What reads as a run opens nothing. -/
theorem Reads.openers_eq_zero (h : Reads after text value) : openers text = 0 := by
  induction h with
  | nil => rfl
  | @plain c text value _ hbackslash _ hopen _ ih =>
    rw [openers_cons hbackslash, ih, if_neg]
    rintro ⟨hdollar, hbrace⟩
    exact hopen hdollar (by simp [List.head?_append, hbrace])
  | @escape spelled v text value hspelled _ _ ih =>
    obtain ⟨c, tail, rfl, htail, hdollar⟩ := hspelled.isStep
    -- An escape spells its character without a dollar sign behind the backslash.
    calc openers ('\\' :: c :: tail ++ text) = openers (tail ++ text) := rfl
      _ = openers tail + openers text := openers_append htail (opens_of_notMem hdollar)
      _ = 0 := by rw [openers_of_notMem hdollar, ih]

end Openers

/-! ### Behind a run -/

/-- The marks from the end of a run on: its own, if it has one, and those behind it. -/
def marksFrom (s : List Char) : RunEnd → Nat
  | .literal => 0
  | .substitution => openers s + 1

/-- The mark that ends a run is not counted behind it. -/
theorem openers_lt_of_takeRun {bound : Nat} {s : List Char} {r : Run} (h : takeRun bound s = some r)
    (hstop : r.stop = .substitution) : openers r.rest < openers s := by
  -- Along the reader of runs: only the case of the mark itself takes one away, and all others pass
  -- over text that can only add to the count.
  fun_induction takeRun bound s generalizing r with
  | case1 => cases h
  | case2 => cases h
  | case3 bound s =>
    cases h
    cases hstop
  | case4 bound s =>
    cases h
    rw [openers_cons (by decide), if_pos ⟨rfl, rfl⟩, openers_cons (by decide)]
    simp
  | case5 bound s v behind hescape ih =>
    obtain ⟨r, hr, rfl⟩ := Option.map_eq_some_iff.1 h
    have hlt : openers r.rest < openers behind := ih hr hstop
    obtain ⟨spelled, rfl, hstep, -⟩ := takeEscape_spec hescape
    exact Nat.lt_of_lt_of_le hlt (hstep.openers_le behind)
  | case6 bound c s hescape ih =>
    obtain ⟨r, hr, rfl⟩ := Option.map_eq_some_iff.1 h
    have hlt : openers r.rest < openers s := ih hr hstop
    exact hlt
  | case7 => cases h
  | case8 bound s ih =>
    obtain ⟨r, hr, rfl⟩ := Option.map_eq_some_iff.1 h
    have hlt : openers r.rest < openers s := ih hr hstop
    exact Nat.lt_of_lt_of_le hlt (openers_behind (by decide) ['\r'] s)
  | case9 bound c s _ _ hbackslash =>
    rename_i ih
    obtain ⟨r, hr, rfl⟩ := Option.map_eq_some_iff.1 h
    have hlt : openers r.rest < openers s := ih hr hstop
    exact Nat.lt_of_lt_of_le hlt (openers_le_cons hbackslash s)

/-- The marks from the end of a run on are among the openers of the text that the run was taken
from. -/
theorem marksFrom_le_of_takeRun {bound : Nat} {s : List Char} {r : Run}
    (h : takeRun bound s = some r) :
    marksFrom r.rest r.stop ≤ openers s := by
  cases hstop : r.stop with
  | literal => exact Nat.zero_le _
  | substitution => exact openers_lt_of_takeRun h hstop

end Stencil.Script
