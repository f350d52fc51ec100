import Stencil.Script.Token

/-!
# Words read back

A word is read off a text character by character, with its escapes resolved, so the name it stands
for may be spelled differently from the text it was read from. The name itself, taken as a text, is
a single word again:

* `isWord_of_word` — whatever `word` reads consists of identifier characters;
* `tokenAt_of_isWord` — a text of identifier characters is one token, the word it spells, if no
  further one stands behind it;
* `skipBlanks_of_isWord`, `skipPreamble_of_isWord` — nothing in front of it is skipped.

The last two need that no blank starts an identifier, which is checked on the finitely many blank
code points (`isIdentifierStart_blankPoints`).
-/

namespace Stencil.Script

open Text (isIdentifierStart isIdentifierPart)

/-- The characters spell a word: one that starts an identifier, then ones that continue it. -/
def IsWord : List Char → Prop
  | [] => False
  | c :: cs => isIdentifierStart c = true ∧ ∀ d ∈ cs, isIdentifierPart d = true

/-- Every character of a word is one of identifiers. -/
theorem IsWord.isIdentifierPart {cs : List Char} (h : IsWord cs) :
    ∀ d ∈ cs, isIdentifierPart d = true := by
  cases cs with
  | nil => exact fun d hd => absurd hd List.not_mem_nil
  | cons c cs => exact List.forall_mem_cons.2 ⟨Text.isIdentifierPart_of_start h.1, h.2⟩

/-- A character that is none of identifiers is in no word. -/
theorem IsWord.notMem {cs : List Char} (h : IsWord cs) {c : Char}
    (hpart : Text.isIdentifierPart c = false) : c ∉ cs := by
  intro hc
  rw [h.isIdentifierPart c hc] at hpart
  cases hpart

/-! ### What starts an identifier -/

/-- The code points of white space and of line ends. -/
private def blankPoints : List Nat :=
  [0x9, 0xA, 0xB, 0xC, 0xD, 0x20, 0x85, 0xA0, 0x1680, 0x2000, 0x2001, 0x2002, 0x2003, 0x2004,
   0x2005, 0x2006, 0x2007, 0x2008, 0x2009, 0x200A, 0x200B, 0x2028, 0x2029, 0x202F, 0x205F, 0x3000,
   0xFEFF]

/-- No blank begins a word, code by code. -/
private theorem isIdentifierStart_blankPoints :
    ∀ n ∈ blankPoints, isIdentifierStart (Char.ofNat n) = false := by
  decide +kernel

/-- A blank or a line end is one of these codes. -/
private theorem toNat_mem_blankPoints {c : Char} (h : isSpace c = true ∨ isLineEnd c = true) :
    c.toNat ∈ blankPoints := by
  simp only [isSpace, isLineEnd, Bool.or_eq_true, Bool.and_eq_true, beq_iff_eq,
    decide_eq_true_eq] at h
  simp only [blankPoints, List.mem_cons, List.not_mem_nil]
  rcases h with h | ((rfl | rfl) | h) | h
  · omega
  · decide
  · decide
  · omega
  · omega

/-- No blank starts an identifier. -/
theorem not_blank_of_isIdentifierStart {c : Char} (h : isIdentifierStart c = true) :
    ¬(isSpace c = true ∨ isLineEnd c = true) := by
  intro hblank
  -- The blanks are finitely many, so each is looked up in the table of identifier characters.
  have hc := isIdentifierStart_blankPoints _ (toNat_mem_blankPoints hblank)
  rw [Char.ofNat_toNat, h] at hc
  cases hc

/-- No digit starts an identifier. -/
theorem not_isDigit_of_isIdentifierStart {c : Char} (h : isIdentifierStart c = true) :
    ¬c.isDigit = true := by
  intro hdigit
  have hstart : ∀ n ∈ List.range 10, isIdentifierStart (Char.ofNat (48 + n)) = false := by
    decide +kernel
  simp only [Char.isDigit, Bool.and_eq_true, decide_eq_true_eq, ge_iff_le,
    UInt32.le_iff_toNat_le] at hdigit
  -- A digit is one of ten characters, and these have been checked.
  have hlow : 48 ≤ c.toNat := hdigit.1
  have hhigh : c.toNat ≤ 57 := hdigit.2
  have hc := hstart (c.toNat - 48) (List.mem_range.2 (by omega))
  rw [show 48 + (c.toNat - 48) = c.toNat by omega, Char.ofNat_toNat, h] at hc
  cases hc

/-- A character that starts an identifier is none that does not. -/
private theorem ne_of_isIdentifierStart {c d : Char} (h : isIdentifierStart c = true)
    (hd : isIdentifierStart d = false) : c ≠ d := by
  rintro rfl
  rw [h] at hd
  cases hd

/-! ### Reading a word back -/

section ReadBack

variable {cs rest : List Char}

/-- The parts of a word are taken up to its end, without escapes. -/
private theorem takeWord_parts {bound : Nat} (hb : cs.length ≤ bound)
    (h : ∀ d ∈ cs, isIdentifierPart d = true) (hrest : wordEnds rest = true) :
    takeWord false bound (cs ++ rest) = some (cs, false, rest) := by
  induction cs generalizing bound with
  | nil =>
    cases bound with
    | zero => rfl
    | succ bound =>
      cases rest with
      | nil => rfl
      | cons c rest =>
        obtain ⟨hpart, hne⟩ : isIdentifierPart c = false ∧ c ≠ '\\' := by
          simpa [wordEnds] using hrest
        simp [takeWord, hpart]
  | cons c cs ih =>
    obtain ⟨bound, rfl⟩ : ∃ k, bound = k + 1 := ⟨bound - 1, by rw [List.length_cons] at hb; omega⟩
    have hc : isIdentifierPart c = true := h c List.mem_cons_self
    have htail : takeWord false bound (cs ++ rest) = some (cs, false, rest) :=
      ih (by simpa using hb) fun d hd => h d (List.mem_cons_of_mem c hd)
    -- A backslash would begin an escape, but it continues no identifier.
    have hne : c ≠ '\\' := by
      rintro rfl
      exact absurd hc (by decide +kernel)
    simp [takeWord, hc, htail]

/-- A word is read as it is written. -/
theorem word_of_isWord (h : IsWord cs) (hrest : wordEnds rest = true) :
    word (cs ++ rest) = some (String.ofList cs, false, rest) := by
  cases cs with
  | nil => exact h.elim
  | cons c cs =>
    have hne : c ≠ '\\' := ne_of_isIdentifierStart h.1 (by decide +kernel)
    have htail := takeWord_parts (show cs.length ≤ cs.length + rest.length + 1 by omega) h.2 hrest
    simp [word, takeWord, h.1, htail]

/-- **A text of identifier characters is one token**, the word that it spells, if no further
character of a word stands behind it. -/
theorem tokenAt_of_isWord (h : IsWord cs) (hrest : wordEnds rest = true) :
    tokenAt (cs ++ rest) = some (.word (String.ofList cs) false, rest) := by
  have hword := word_of_isWord h hrest
  cases cs with
  | nil => exact h.elim
  | cons c cs =>
    -- Whatever else a token could begin with, a word does not begin with it.
    have hdigit := not_isDigit_of_isIdentifierStart h.1
    have hdot : c ≠ '.' := ne_of_isIdentifierStart h.1 (by decide +kernel)
    have hdouble : c ≠ '"' := ne_of_isIdentifierStart h.1 (by decide +kernel)
    have hsingle : c ≠ '\'' := ne_of_isIdentifierStart h.1 (by decide +kernel)
    have hsign : c ≠ '#' := ne_of_isIdentifierStart h.1 (by decide +kernel)
    rw [List.cons_append] at hword ⊢
    simp [tokenAt, hdigit, hdot, hdouble, hsingle, hsign, h.1, hword]

/-- No blanks stand before it. -/
theorem skipBlanks_of_isWord (h : IsWord cs) (rest : List Char) :
    skipBlanks (cs ++ rest) = some (false, cs ++ rest) := by
  cases cs with
  | nil => exact h.elim
  | cons c cs =>
    have hslash : c ≠ '/' := ne_of_isIdentifierStart h.1 (by decide +kernel)
    have hblank := not_or.1 (not_blank_of_isIdentifierStart h.1)
    simp [skipBlanks, skipFrom, hslash, hblank.1, hblank.2]

end ReadBack

theorem skipPreamble_of_isWord {cs : List Char} (h : IsWord cs) : skipPreamble cs = cs := by
  cases cs with
  | nil => exact h.elim
  | cons c rest =>
    have hsign : c ≠ '#' := ne_of_isIdentifierStart h.1 (by decide +kernel)
    -- The byte order mark is a space, so it starts no identifier either.
    have hmark : c.toNat ≠ 0xFEFF := by
      intro hc
      refine not_blank_of_isIdentifierStart h.1 (.inl ?_)
      simp [isSpace, hc]
    simp [skipPreamble, hsign, hmark]

/-! ### What a word consists of -/

/-- One step of `takeWord`: it stops, or takes a character that may stand there and goes on. -/
private theorem takeWord_cases {first : Bool} {bound : Nat} {s cs : List Char}
    {after : Bool × List Char} (h : takeWord first (bound + 1) s = some (cs, after)) :
    (first = false ∧ cs = []) ∨ ∃ c cs' s' after', cs = c :: cs' ∧
      (if first then isIdentifierStart c else isIdentifierPart c) = true ∧
      takeWord false bound s' = some (cs', after') := by
  cases s with
  | nil =>
    cases first
    · cases h
      exact .inl ⟨rfl, rfl⟩
    · cases h
  | cons c s =>
    rw [takeWord.eq_def] at h
    split at h
    · next heq => cases heq
    · next heq => cases heq
    · next hbound hs =>
      cases hbound
      cases hs
      split at h
      · -- An escape: the character it stands for is asked, not the backslash.
        obtain ⟨⟨n, s'⟩, -, h⟩ := Option.bind_eq_some_iff.1 h
        by_cases hn : (if first then isIdentifierStart (charOf n)
            else isIdentifierPart (charOf n)) = true
        · simp only [hn, if_true] at h
          obtain ⟨⟨cs', after'⟩, hrec, h⟩ := Option.bind_eq_some_iff.1 h
          cases h
          exact .inr ⟨_, _, _, _, rfl, hn, hrec⟩
        · simp [hn] at h
      · cases h
    · next hbound hs =>
      cases hbound
      cases hs
      by_cases hn : (if first then isIdentifierStart c else isIdentifierPart c) = true
      · rw [if_pos hn] at h
        obtain ⟨⟨cs', after'⟩, hrec, h⟩ := Option.map_eq_some_iff.1 h
        cases h
        exact .inr ⟨_, _, _, _, rfl, hn, hrec⟩
      · rw [if_neg hn] at h
        -- A character that does not fit ends a word, but it does not begin one.
        cases first
        · cases h
          exact .inl ⟨rfl, rfl⟩
        · cases h

/-- Whatever is taken into a word is a part of one, also where it was spelled by an escape. -/
private theorem isIdentifierPart_of_takeWord {bound : Nat} {s cs : List Char}
    {after : Bool × List Char} (h : takeWord false bound s = some (cs, after)) :
    ∀ d ∈ cs, isIdentifierPart d = true := by
  induction bound generalizing s cs after with
  | zero =>
    cases h
    nofun
  | succ bound ih =>
    obtain ⟨-, rfl⟩ | ⟨c, cs', s', after', rfl, hc, hrec⟩ := takeWord_cases h
    · nofun
    · exact List.forall_mem_cons.2 ⟨hc, ih hrec⟩

/-- **What is read as a word is one**, however it was spelled. -/
theorem isWord_of_word {s : List Char} {w : String} {after : Bool × List Char}
    (h : word s = some (w, after)) : IsWord w.toList := by
  obtain ⟨⟨cs, after'⟩, hw, h⟩ := Option.map_eq_some_iff.1 h
  cases h
  obtain ⟨hfirst, -⟩ | ⟨c, cs', s', after', rfl, hc, hrec⟩ := takeWord_cases hw
  · cases hfirst
  · rw [String.toList_ofList]
    exact ⟨hc, isIdentifierPart_of_takeWord hrec⟩

/-- A word among the tokens consists of identifier characters. -/
theorem isWord_of_tokenAt {s rest : List Char} {w : String} {escaped : Bool}
    (h : tokenAt s = some (.word w escaped, rest)) : IsWord w.toList := by
  cases s with
  | nil => cases h
  | cons c s =>
    simp only [tokenAt] at h
    repeat' split at h
    -- Only the reader of words answers a word; the other branches answer other tokens.
    all_goals
      obtain ⟨value, hvalue, h⟩ := Option.map_eq_some_iff.1 h
      cases h
    exact isWord_of_word hvalue

end Stencil.Script
