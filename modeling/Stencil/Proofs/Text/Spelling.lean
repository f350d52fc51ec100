import Stencil.Engine.Liquid.Literal
import Stencil.Text.Entity
import Stencil.Text.Quoted
import Stencil.Text.Search

/-!
# Pairs of characters in spelled texts

A template language opens a directive with a pair of characters. Spelling a text can break such a
pair up or leave it, but must not make one. Here are the spellings of a text character by character
(`occursIn_flatMap`): one that writes both characters of the pair as themselves, and puts neither of
them into the spelling of another character, keeps exactly the pairs that the text has. Entities and
quoted literals are such spellings, and so are the literals that are cut in runs
(`occursIn_literal`), since no cut goes through the pair.
-/

namespace Stencil.Text

/-! ### Pairs -/

/-- Two characters occur at the beginning, or further on. -/
theorem occursIn_pair (a b c : Char) (rest : List Char) :
    occursIn [a, b] (c :: rest) = ((a == c && rest.head? == some b) || occursIn [a, b] rest) := by
  rw [occursIn]
  congr 1
  cases rest with
  | nil => rfl
  | cons d rest =>
    rw [List.isPrefixOf, List.isPrefixOf, List.isPrefixOf, Bool.and_true, List.head?_cons,
      Option.some_beq_some, Bool.beq_comm (a := b)]

/-- What does not hold the first character of a pair begins none. -/
theorem occursIn_append_of_notMem {a b : Char} {s : List Char} (h : a ∉ s) (t : List Char) :
    occursIn [a, b] (s ++ t) = occursIn [a, b] t := by
  induction s with
  | nil => rfl
  | cons c rest ih =>
    obtain ⟨hc, hrest⟩ := not_or.1 (mt List.mem_cons.2 h)
    rw [List.cons_append, occursIn_pair, ih hrest, beq_false_of_ne hc]
    rfl

/-- Two characters do not occur where the first of them does not. -/
theorem occursIn_of_notMem {a b : Char} {s : List Char} (h : a ∉ s) :
    occursIn [a, b] s = false := by
  rw [← List.append_nil s, occursIn_append_of_notMem h]
  rfl

/-- A character that is not in the pair keeps what stands before it from joining with what stands
behind it. -/
theorem occursIn_append_cons {a b c : Char} (ha : c ≠ a) (hb : c ≠ b) (s t : List Char) :
    occursIn [a, b] (s ++ c :: t) = (occursIn [a, b] s || occursIn [a, b] t) := by
  induction s with
  | nil =>
    rw [List.nil_append, occursIn_pair, beq_false_of_ne ha.symm]
    rfl
  | cons d rest ih =>
    rw [List.cons_append, occursIn_pair, occursIn_pair, ih, Bool.or_assoc]
    -- `d` is the last character in front of `c`, and `c` does not end a pair.
    cases rest with
    | nil =>
      rw [List.nil_append, List.head?_cons, List.head?_nil, Option.some_beq_some,
        beq_false_of_ne hb]
      rfl
    | cons e rest => rfl

/-! ### Spelling character by character -/

/-- Each character is spelled as itself, or else it is no mark and is spelled without marks. -/
def Keeps (marks : List Char) (f : Char → List Char) : Prop :=
  ∀ c, f c = [c] ∨ f c ≠ [] ∧ ∀ d ∈ c :: f c, d ∉ marks

namespace Keeps

variable {marks : List Char} {f : Char → List Char} {a b : Char}

/-- Where a character is kept, a spelled text begins with it just if the text does. -/
theorem head?_flatMap (h : Keeps marks f) (hb : b ∈ marks) (s : List Char) :
    (s.flatMap f).head? = some b ↔ s.head? = some b := by
  cases s with
  | nil => rfl
  | cons c rest =>
    obtain hc | ⟨hne, hmarks⟩ := h c
    · rw [List.flatMap_cons, hc]
      rfl
    · obtain ⟨d, spelled, hd⟩ := List.exists_cons_of_ne_nil hne
      -- A character that is spelled anew is no mark, and its spelling begins with none.
      have hbd : d ≠ b := fun h => hmarks d (by simp [hd]) (h ▸ hb)
      have hbc : c ≠ b := fun h => hmarks c List.mem_cons_self (h ▸ hb)
      simp [hd, hbd, hbc]

/-- Such a spelling has the same pairs of marks as the text. -/
theorem occursIn_flatMap (h : Keeps marks f) (ha : a ∈ marks) (hb : b ∈ marks) (s : List Char) :
    occursIn [a, b] (s.flatMap f) = occursIn [a, b] s := by
  induction s with
  | nil => rfl
  | cons c rest ih =>
    obtain hc | ⟨-, hmarks⟩ := h c
    · rw [List.flatMap_cons, hc, List.singleton_append, occursIn_pair, occursIn_pair, ih]
      congr 2
      rw [Bool.eq_iff_iff, beq_iff_eq, beq_iff_eq]
      exact h.head?_flatMap hb rest
    -- A character that is spelled otherwise is in no pair, before or after.
    · have notMem : a ∉ f c := fun h => hmarks a (List.mem_cons_of_mem c h) ha
      have hac : a ≠ c := fun h => hmarks c List.mem_cons_self (h ▸ ha)
      rw [List.flatMap_cons, occursIn_append_of_notMem notMem, ih, occursIn_pair,
        beq_false_of_ne hac]
      rfl

end Keeps

/-- It is enough to look at the marks and at the spellings of the other characters. -/
theorem keeps_of_forall {marks : List Char} {f : Char → List Char}
    (hmarks : ∀ c ∈ marks, f c = [c])
    (hothers : ∀ c, f c = [c] ∨ f c ≠ [] ∧ ∀ d ∈ f c, d ∉ marks) : Keeps marks f := by
  intro c
  by_cases hc : c ∈ marks
  · exact .inl (hmarks c hc)
  · exact (hothers c).imp_right fun ⟨hne, h⟩ => ⟨hne, List.forall_mem_cons.2 ⟨hc, h⟩⟩

/-- Entities keep braces and percent signs, and bring none. -/
theorem keeps_entityChar : Keeps ['\x7b', '%'] entityChar := by
  refine keeps_of_forall (by simp [entityChar]) fun c => ?_
  fun_cases entityChar c with
  | case4 => exact .inl rfl
  | _ => exact .inr (by simp)

/-- Digits are neither of these signs. -/
theorem hexDigit_notMem {n : Nat} (h : n < 16) : hexDigit n ∉ ['<', '\x7b', '%'] := by
  revert n
  decide

/-- Escapes in a quoted literal keep angle brackets besides. -/
theorem keeps_quotedChar : Keeps ['<', '\x7b', '%'] quotedChar := by
  refine keeps_of_forall (by simp [quotedChar]) fun c => ?_
  fun_cases quotedChar c with
  | case9 => exact .inl rfl
  -- The hexadecimal escape of a control character; the cases before it are the short escapes.
  | case8 =>
    have high : hexDigit (c.toNat / 16) ∉ ['<', '\x7b', '%'] := hexDigit_notMem (by omega)
    have low : hexDigit (c.toNat % 16) ∉ ['<', '\x7b', '%'] := hexDigit_notMem (by omega)
    refine .inr ⟨List.cons_ne_nil _ _, ?_⟩
    simp only [List.forall_mem_cons]
    exact ⟨by simp, by simp, by simp, by simp, high, low, by simp⟩
  | _ => exact .inr (by simp)

/-! ### Entities -/

/-- So encoding neither makes nor hides an opening sign of Liquid. -/
theorem occursIn_encodeEntities {a b : Char} (ha : a ∈ ['\x7b', '%']) (hb : b ∈ ['\x7b', '%'])
    (s : String) : occursIn [a, b] (encodeEntities s).toList = occursIn [a, b] s.toList := by
  rw [encodeEntities, String.toList_ofList]
  exact keeps_entityChar.occursIn_flatMap ha hb s.toList

/-- The spelling has neither the quote that ends the value nor the bracket that opens a tag. -/
theorem notMem_encodeEntities (s : String) :
    '"' ∉ (encodeEntities s).toList ∧ '<' ∉ (encodeEntities s).toList := by
  have spelled : ∀ c, '"' ∉ entityChar c ∧ '<' ∉ entityChar c := by
    intro c
    fun_cases entityChar c with
    | case4 _ hquot hlt => simp [Ne.symm hquot, Ne.symm hlt]
    | _ => decide
  simp only [encodeEntities, String.toList_ofList, List.mem_flatMap, not_exists, not_and]
  exact ⟨fun c _ => (spelled c).1, fun c _ => (spelled c).2⟩

/-- Only an ampersand begins an entity. -/
theorem decodeEntities_cons {c : Char} (hc : c ≠ '&') (rest : List Char) :
    decodeEntities (c :: rest) = c :: decodeEntities rest := by
  rw [decodeEntities]
  all_goals
    intros
    contradiction

/-- A character that was encoded decodes to itself. -/
theorem decodeEntities_entityChar (c : Char) (rest : List Char) :
    decodeEntities (entityChar c ++ rest) = c :: decodeEntities rest := by
  fun_cases entityChar c with
  | case1 h => rw [h]; rfl
  | case2 _ h => rw [h]; rfl
  | case3 _ _ h => rw [h]; rfl
  | case4 h _ _ => exact decodeEntities_cons h rest

theorem decodeEntities_encodeEntities (s : String) :
    decodeEntities (encodeEntities s).toList = s.toList := by
  rw [encodeEntities, String.toList_ofList]
  induction s.toList with
  | nil => rfl
  | cons c rest ih => rw [List.flatMap_cons, decodeEntities_entityChar, ih]

/-- A text without `&` has no entities to read. -/
theorem decodeEntities_of_notMem {s : List Char} (h : '&' ∉ s) : decodeEntities s = s := by
  induction s with
  | nil => rfl
  | cons c rest ih =>
    obtain ⟨hc, hrest⟩ := not_or.1 (mt List.mem_cons.2 h)
    rw [decodeEntities_cons (Ne.symm hc), ih hrest]

/-! ### Quoted literals -/

/-- Quoting neither makes nor hides an opening sign. -/
theorem occursIn_quoted {a b : Char} (ha : a ∈ ['<', '\x7b', '%']) (hb : b ∈ ['<', '\x7b', '%'])
    (s : String) : occursIn [a, b] (quoted s).toList = occursIn [a, b] s.toList := by
  have hquote : ∀ c ∈ ['<', '\x7b', '%'], '"' ≠ c := by simp
  have hjoin := occursIn_append_cons (hquote a ha) (hquote b hb)
  -- No pair goes across a quote, and quoting makes no pair inside.
  calc occursIn [a, b] (quoted s).toList
      = occursIn [a, b] ([] ++ '"' :: s.toList.flatMap quotedChar ++ '"' :: []) := by
        rw [quoted, String.toList_ofList, List.nil_append]
    _ = occursIn [a, b] (s.toList.flatMap quotedChar) := by
        rw [hjoin, hjoin]
        simp [occursIn]
    _ = occursIn [a, b] s.toList := keeps_quotedChar.occursIn_flatMap ha hb s.toList

end Stencil.Text

/-! ### Literals cut in runs -/

namespace Stencil.Liquid

open Text (occursIn occursIn_append_cons occursIn_append_of_notMem occursIn_of_notMem)

/-- Nor do the quotation marks around a run, whatever follows it. -/
theorem occursIn_runLiteral {a b : Char} (ha : a ∈ ['\x7b', '%']) (hb : b ∈ ['\x7b', '%'])
    (run t : List Char) :
    occursIn [a, b] ((runLiteral run).toList ++ t) =
      (occursIn [a, b] run || occursIn [a, b] t) := by
  -- A run is in quotes, and no quote is in the pair.
  obtain ⟨mark, hmark, hrun⟩ :
      ∃ mark ∈ ['"', '\''], (runLiteral run).toList = [] ++ mark :: run ++ [mark] := by
    rw [runLiteral, String.toList_ofList]
    split
    · exact ⟨'\'', by simp, rfl⟩
    · exact ⟨'"', by simp, rfl⟩
  have apart : ∀ mark ∈ ['"', '\''], ∀ c ∈ ['\x7b', '%'], mark ≠ c := by simp
  have hjoin := occursIn_append_cons (apart mark hmark a ha) (apart mark hmark b hb)
  rw [hrun, List.append_assoc, List.singleton_append, hjoin, hjoin]
  simp [occursIn]

/-- A text has at least one run. -/
theorem runsFrom_ne_nil (run s : List Char) : runsFrom run s ≠ [] := by
  fun_induction runsFrom run s with
  | case1 => exact List.cons_ne_nil _ _
  | case2 => exact List.cons_ne_nil _ _
  | case3 _ _ _ _ ih => exact ih

/-- No run of a text holds quotes of both kinds. -/
theorem runsFrom_unmixed {run s : List Char} (h : ¬('"' ∈ run ∧ '\'' ∈ run)) :
    ∀ r ∈ runsFrom run s, ¬('"' ∈ r ∧ '\'' ∈ r) := by
  fun_induction runsFrom run s with
  | case1 run =>
    rw [List.forall_mem_singleton, List.mem_reverse, List.mem_reverse]
    exact h
  | case2 run c rest hclash ih =>
    rw [List.forall_mem_cons, List.mem_reverse, List.mem_reverse]
    refine ⟨h, ih ?_⟩
    simp only [List.mem_singleton]
    rintro ⟨rfl, hsingle⟩
    cases hsingle
  | case3 run c rest hclash ih =>
    refine ih ?_
    rintro ⟨hdouble, hsingle⟩
    -- A character that brings the second kind of quote would clash.
    simp only [clashes, Bool.or_eq_true, Bool.and_eq_true, beq_iff_eq, List.contains_iff_mem,
      not_or, not_and] at hclash
    rcases List.mem_cons.1 hdouble with rfl | hdouble <;>
      rcases List.mem_cons.1 hsingle with hc | hsingle
    · cases hc
    · exact hclash.1 rfl hsingle
    · exact hclash.2 hc.symm hdouble
    · exact h ⟨hdouble, hsingle⟩

/-- Runs are joined by a filter that has no sign of its own, and no sign is cut between them. -/
theorem occursIn_runs {a b : Char} (ha : a ∈ ['\x7b', '%']) (hb : b ∈ ['\x7b', '%'])
    (run s : List Char) :
    occursIn [a, b] (appendFilter.intercalate ((runsFrom run s).map runLiteral)).toList =
      occursIn [a, b] (run.reverse ++ s) := by
  fun_induction runsFrom run s with
  | case1 run =>
    have hrun := occursIn_runLiteral ha hb run.reverse []
    rw [List.append_nil, occursIn_of_notMem List.not_mem_nil, Bool.or_false] at hrun
    rw [List.map_singleton, String.intercalate_singleton, hrun, List.append_nil]
  | case2 run c rest hclash ih =>
    have hne : (runsFrom [c] rest).map runLiteral ≠ [] := by
      simpa using runsFrom_ne_nil [c] rest
    have hfilter : ∀ d ∈ ['\x7b', '%'], d ∉ appendFilter.toList := by simp [appendFilter]
    -- A cut goes before a quote, which is in no pair.
    have hquote : ∀ d ∈ ['\x7b', '%'], c ≠ d := by
      have hc : c = '"' ∨ c = '\'' := by
        simp only [clashes, Bool.or_eq_true, Bool.and_eq_true, beq_iff_eq] at hclash
        exact hclash.imp And.left And.left
      obtain rfl | rfl := hc <;> simp
    have hjoin := occursIn_append_cons (hquote a ha) (hquote b hb)
    rw [List.map_cons, String.intercalate_cons_of_ne_nil hne, String.toList_append,
      String.toList_append, List.append_assoc, occursIn_runLiteral ha hb,
      occursIn_append_of_notMem (hfilter a ha), ih, hjoin]
    exact congrArg _ (hjoin [] rest)
  | case3 run c rest _ ih =>
    rw [ih, List.reverse_cons, List.append_assoc, List.singleton_append]

/-- So a literal of Liquid has just the opening signs of its text. -/
theorem occursIn_literal {a b : Char} (ha : a ∈ ['\x7b', '%']) (hb : b ∈ ['\x7b', '%'])
    (s : String) : occursIn [a, b] (literal s).toList = occursIn [a, b] s.toList :=
  occursIn_runs ha hb [] s.toList

end Stencil.Liquid
