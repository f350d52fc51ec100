import Mathlib.Data.List.Basic
import Mathlib.Data.List.TakeWhile
import Stencil.Proofs.Text.Spelling

/-!
# Quotations read back

How a template engine reads string literals that a filter appends to each other, and that this takes
back what `literal` makes of a text. A `Quotation` is one literal: a body between two marks, which
are quotes of one kind, and the body has none of that kind. There are no escapes, so the mark that a
quotation begins with says where it ends, and nothing in its body can be taken for anything else:
not a quote of the other kind, and not the filter that joins two quotations.

* `Quotation.take?_eq_some_iff` — a quotation is read off a text exactly if the text begins with it;
* `readQuotations?_eq_some_iff` — quotations are read exactly if the text is these quotations with
  the filter between them, so a text can be read in one way at most;
* `quotations` — the literals that a text is spelled as, one for each run;
* `literal_reads_back` — they are what is read, and their bodies are the text.
-/

namespace Stencil.Liquid

/-! ### Quotations -/

/-- A string literal: its text between two marks, which are quotes of a kind that the text does not
have. -/
structure Quotation where
  mark : Char
  body : List Char
  isQuote : mark = '"' ∨ mark = '\''
  notMem_body : mark ∉ body

namespace Quotation

/-- The quotation as it is written. -/
def glyphs (q : Quotation) : List Char :=
  q.mark :: q.body ++ [q.mark]

/-- What is taken up to a quotation mark does not have it. -/
theorem notMem_takeWhile (mark : Char) (s : List Char) : mark ∉ s.takeWhile (· != mark) := by
  intro h
  have hne := List.mem_takeWhile_imp h
  exact bne_iff_ne.1 hne rfl

/-- The quotation at the start of a text, and the text behind it. -/
def take? : List Char → Option (Quotation × List Char)
  | [] => none
  | mark :: s =>
    if h : mark = '"' ∨ mark = '\'' then
      match s.dropWhile (· != mark) with
      | [] => none
      | _ :: rest => some (⟨mark, s.takeWhile (· != mark), h, notMem_takeWhile mark s⟩, rest)
    else none

/-- A quotation is read back from what is written for it. -/
theorem take?_glyphs (q : Quotation) (rest : List Char) :
    take? (q.glyphs ++ rest) = some (q, rest) := by
  obtain ⟨mark, body, hquote, hbody⟩ := q
  -- No character of the body is the mark, so the scan for it passes over the whole body.
  have hinside : ∀ c ∈ body, (c != mark) = true := by
    intro c hc
    rw [bne_iff_ne]
    rintro rfl
    exact hbody hc
  have htake : (body ++ mark :: rest).takeWhile (· != mark) = body := by
    rw [List.takeWhile_append_of_pos hinside]
    simp
  have hdrop : (body ++ mark :: rest).dropWhile (· != mark) = mark :: rest := by
    rw [List.dropWhile_append_of_pos hinside]
    simp
  have hglyphs : glyphs ⟨mark, body, hquote, hbody⟩ ++ rest = mark :: (body ++ mark :: rest) := by
    simp [glyphs]
  rw [hglyphs, take?, dif_pos hquote]
  simp only [hdrop, htake]

/-- What is read is what stands there. -/
theorem eq_append_of_take? {s rest : List Char} {q : Quotation} (h : take? s = some (q, rest)) :
    s = q.glyphs ++ rest := by
  cases s with
  | nil => cases h
  | cons mark s =>
    rw [take?] at h
    split at h
    · next hquote =>
      split at h
      · cases h
      · next c behind hdrop =>
        cases h
        -- What ends the body is the mark.
        have hc : c = mark := by
          have hhead := List.head?_dropWhile_not (· != mark) s
          simpa [hdrop] using hhead
        calc mark :: s = mark :: (s.takeWhile (· != mark) ++ s.dropWhile (· != mark)) := by
              rw [List.takeWhile_append_dropWhile]
          _ = glyphs ⟨mark, s.takeWhile (· != mark), hquote, notMem_takeWhile mark s⟩ ++ rest := by
              rw [hdrop, hc]
              simp [glyphs]
    · cases h

/-- **A quotation is read off a text exactly if the text begins with it.** -/
theorem take?_eq_some_iff {s rest : List Char} {q : Quotation} :
    take? s = some (q, rest) ↔ s = q.glyphs ++ rest :=
  ⟨eq_append_of_take?, fun h => h ▸ take?_glyphs q rest⟩

end Quotation

/-! ### Quotations joined by the filter -/

/-- Quotations with the filter between them. -/
def chained (qs : List Quotation) : List Char :=
  appendFilter.toList.intercalate (qs.map Quotation.glyphs)

/-- A single quotation is chained to nothing. -/
theorem chained_singleton (q : Quotation) : chained [q] = q.glyphs :=
  List.intercalate_singleton

/-- The next one is appended by the filter. -/
theorem chained_cons (q : Quotation) {qs : List Quotation} (h : qs ≠ []) :
    chained (q :: qs) = q.glyphs ++ (appendFilter.toList ++ chained qs) := by
  have hmap : qs.map Quotation.glyphs ≠ [] := by simpa using h
  rw [chained, List.map_cons, List.intercalate_cons_of_ne_nil hmap, List.append_assoc]
  rfl

/-- Reads quotations that are joined by the filter, up to the end of the text. -/
def readQuotations? (s : List Char) : Option (List Quotation) :=
  match _hs : Quotation.take? s with
  | none => none
  | some (q, rest) =>
    if rest = [] then some [q]
    else
      match _hrest : rest.dropPrefix? appendFilter.toList with
      | none => none
      | some behind => (readQuotations? behind).map (q :: ·)
termination_by s.length
decreasing_by
  -- The quotation and the filter are gone from what is left.
  have hwhole := Quotation.eq_append_of_take? _hs
  obtain ⟨filter, hbehind, -⟩ := List.dropPrefix?_eq_some_iff.1 _hrest
  rw [hwhole, hbehind]
  simp only [Quotation.glyphs, List.length_append, List.length_cons]
  omega

/-- A quotation at the end of the text is the last one. -/
theorem readQuotations?_last {s : List Char} {q : Quotation}
    (h : Quotation.take? s = some (q, [])) : readQuotations? s = some [q] := by
  rw [readQuotations?]
  split
  · next hnone => cases hnone.symm.trans h
  · next hsome =>
    cases hsome.symm.trans h
    exact if_pos rfl

/-- Behind a quotation and the filter, the reading goes on. -/
theorem readQuotations?_more {s rest behind : List Char} {q : Quotation}
    (h : Quotation.take? s = some (q, rest)) (hrest : rest ≠ [])
    (hbehind : rest.dropPrefix? appendFilter.toList = some behind) :
    readQuotations? s = (readQuotations? behind).map (q :: ·) := by
  rw [readQuotations?]
  -- The two matches of the definition are decided by `h` and `hbehind`.
  split
  · next hnone => cases hnone.symm.trans h
  · next hsome =>
    cases hsome.symm.trans h
    rw [if_neg hrest]
    split
    · next hnone => cases hnone.symm.trans hbehind
    · next hdrop =>
      cases hdrop.symm.trans hbehind
      rfl

/-- **Quotations are read exactly if the text is these quotations**, joined by the filter. -/
theorem readQuotations?_eq_some_iff {s : List Char} {qs : List Quotation} :
    readQuotations? s = some qs ↔ qs ≠ [] ∧ s = chained qs := by
  constructor
  · intro h
    -- Along the reader: it has answered something in the second case, the last quotation, and in
    -- the fourth, where it goes on behind a filter.
    fun_induction readQuotations? s generalizing qs with
    | case1 => cases h
    | case2 s q hs =>
      cases h
      have hwhole := Quotation.eq_append_of_take? hs
      rw [List.append_nil] at hwhole
      exact ⟨List.cons_ne_nil q [], hwhole.trans (chained_singleton q).symm⟩
    | case3 => cases h
    | case4 s q rest hs _ behind hrest ih =>
      obtain ⟨qs, hqs, rfl⟩ := Option.map_eq_some_iff.1 h
      obtain ⟨hne, hbehind⟩ := ih hqs
      obtain ⟨filter, hfilter, heq⟩ := List.dropPrefix?_eq_some_iff.1 hrest
      refine ⟨List.cons_ne_nil q qs, ?_⟩
      rw [chained_cons q hne, ← hbehind, ← eq_of_beq heq, ← hfilter]
      exact Quotation.eq_append_of_take? hs
  · rintro ⟨hne, rfl⟩
    induction qs with
    | nil => exact absurd rfl hne
    | cons q qs ih =>
      -- The last quotation has nothing behind it, and any other one has the filter.
      by_cases hlast : qs = []
      · subst hlast
        apply readQuotations?_last
        rw [chained_singleton, Quotation.take?_eq_some_iff, List.append_nil]
      · have hfilter : appendFilter.toList ++ chained qs ≠ [] := by
          simp [appendFilter]
        have hdrop := List.dropPrefix?_append_of_beq (chained qs)
          (beq_self_eq_true appendFilter.toList)
        rw [chained_cons q hlast,
          readQuotations?_more (Quotation.take?_glyphs q _) hfilter hdrop, ih hlast]
        rfl

/-- Quotations in a chain write something. -/
theorem chained_ne_nil {qs : List Quotation} (h : qs ≠ []) : chained qs ≠ [] := by
  obtain ⟨q, rest, rfl⟩ := List.exists_cons_of_ne_nil h
  by_cases hlast : rest = []
  · rw [hlast, chained_singleton]
    exact List.cons_ne_nil _ _
  · rw [chained_cons q hlast]
    exact List.cons_ne_nil _ _

/-- No text is made of quotations in two ways. -/
theorem chained_injective : Function.Injective chained := by
  intro qs rs h
  -- Reading gives back what the text is made of, unless that is nothing.
  by_cases hqs : qs = []
  · by_contra hne
    subst hqs
    exact chained_ne_nil (Ne.symm hne) h.symm
  · have hrs : rs ≠ [] := by
      rintro rfl
      exact chained_ne_nil hqs h
    have hread : readQuotations? (chained qs) = some qs :=
      readQuotations?_eq_some_iff.2 ⟨hqs, rfl⟩
    have hread' : readQuotations? (chained qs) = some rs :=
      readQuotations?_eq_some_iff.2 ⟨hrs, h⟩
    exact Option.some.inj (hread.symm.trans hread')

/-- What the quotations say: their bodies one behind the other. -/
def said (qs : List Quotation) : String :=
  String.ofList (qs.flatMap Quotation.body)

/-! ### The literals of a text -/

/-- The literal of a run that does not have quotes of both kinds. -/
def Quotation.ofRun (run : List Char) (h : ¬('"' ∈ run ∧ '\'' ∈ run)) : Quotation where
  mark := if run.contains '"' then '\'' else '"'
  body := run
  isQuote := by
    split
    · exact .inr rfl
    · exact .inl rfl
  notMem_body := by
    split
    · next hdouble => exact fun hsingle => h ⟨List.contains_iff_mem.1 hdouble, hsingle⟩
    · next hdouble => exact mt List.contains_iff_mem.2 hdouble

/-- The quotation of a run is written as the literal of the run. -/
theorem glyphs_ofRun {run : List Char} (h : ¬('"' ∈ run ∧ '\'' ∈ run)) :
    (Quotation.ofRun run h).glyphs = (runLiteral run).toList := by
  rw [runLiteral, String.toList_ofList]
  rfl

/-- The literals that a text is spelled as, one for each run. -/
def quotations (s : String) : List Quotation :=
  (runsFrom [] s.toList).pmap Quotation.ofRun (runsFrom_unmixed (by simp))

/-- The runs are the text, cut in pieces. -/
theorem flatten_runsFrom (run s : List Char) : (runsFrom run s).flatten = run.reverse ++ s := by
  fun_induction runsFrom run s with
  | case1 run => simp
  | case2 run c rest _ ih =>
    rw [List.flatten_cons, ih]
    rfl
  | case3 run c rest _ ih =>
    rw [ih, List.reverse_cons, List.append_assoc, List.singleton_append]

/-- What can be told from its run about each literal. -/
theorem map_quotations {β : Type} {f : Quotation → β} {g : List Char → β}
    (h : ∀ run hrun, f (Quotation.ofRun run hrun) = g run) (s : String) :
    (quotations s).map f = (runsFrom [] s.toList).map g := by
  have hunmixed : ∀ run ∈ runsFrom [] s.toList, ¬('"' ∈ run ∧ '\'' ∈ run) :=
    runsFrom_unmixed (by simp)
  -- A quotation carries a proof about its run, and `f` does not look at it.
  calc (quotations s).map f
      = (runsFrom [] s.toList).pmap (fun run hrun => f (Quotation.ofRun run hrun)) hunmixed :=
        List.map_pmap hunmixed
    _ = (runsFrom [] s.toList).pmap (fun run _ => g run) hunmixed :=
        List.pmap_congr_left _ fun run _ hrun _ => h run hrun
    _ = (runsFrom [] s.toList).map g := List.pmap_eq_map hunmixed

/-- A text is at least one quotation. -/
theorem quotations_ne_nil (s : String) : quotations s ≠ [] := by
  rw [quotations, List.pmap_ne_nil_iff]
  exact runsFrom_ne_nil [] s.toList

/-- Its literal is the chain of its quotations. -/
theorem toList_literal (s : String) : (literal s).toList = chained (quotations s) := by
  rw [literal, String.toList_intercalate, List.map_map, chained]
  exact congrArg _ (map_quotations (fun run hrun => glyphs_ofRun hrun) s).symm

/-- What they say together is the text. -/
theorem said_quotations (s : String) : said (quotations s) = s := by
  have hbodies : (quotations s).map Quotation.body = runsFrom [] s.toList :=
    (map_quotations (fun run hrun => rfl) s).trans (List.map_id _)
  rw [said, List.flatMap_def, hbodies, flatten_runsFrom, List.reverse_nil, List.nil_append,
    String.ofList_toList]

/-- **A literal reads back.** A text is spelled as quotations with the filter between them, and can
be taken for no others, whatever quotes and filters the text itself has. None of them has its own
mark in its body. They are what is read, and they say the text. -/
theorem literal_reads_back (s : String) :
    (∀ qs, (literal s).toList = chained qs ↔ qs = quotations s) ∧
      (∀ q ∈ quotations s, (q.mark = '"' ∨ q.mark = '\'') ∧ q.mark ∉ q.body) ∧
      readQuotations? (literal s).toList = some (quotations s) ∧ said (quotations s) = s := by
  have hliteral := toList_literal s
  refine ⟨?_, ?_, ?_, said_quotations s⟩
  · intro qs
    -- A chain tells its quotations, so the literal has one reading.
    rw [hliteral, chained_injective.eq_iff]
    exact eq_comm
  · intro q _
    exact ⟨q.isQuote, q.notMem_body⟩
  · exact readQuotations?_eq_some_iff.2 ⟨quotations_ne_nil s, hliteral⟩

/-- A text with quotes of both kinds is cut in front of the first quote of the second kind. -/
example : (quotations "it's \"x\"").map Quotation.glyphs =
    ["\"it's \"".toList, "'\"x\"'".toList] := by
  decide

end Stencil.Liquid
