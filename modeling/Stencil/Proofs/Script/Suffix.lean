import Mathlib.Data.List.TakeDrop
import Stencil.Proofs.Script.Run
import Stencil.Script.Token

/-!
# Readers leave a suffix

Every reader of blanks, literals and tokens answers a rest that is a suffix of the text it was
given, so what it has read stands in front of that rest. `nextToken_suffix` is what the parser needs
to know of it.

What is skipped in front of a token matters as well: it does not end in a backslash
(`skips_of_skipBlanks`), so no escape reaches from there into the token.
-/

namespace Stencil.Script

/-! ### Blanks -/

/-- Something is passed over that does not end in a backslash. -/
def Passes (s rest : List Char) : Prop :=
  ∃ before c, c ≠ '\\' ∧ s = before ++ c :: rest

/-- The whole text is left or nothing of it, or something is passed over that does not end in a
backslash. -/
def Skips (s rest : List Char) : Prop :=
  rest = s ∨ rest = [] ∨ Passes s rest

/-- To pass over one more character is still to pass over something. -/
theorem Passes.cons {s rest : List Char} (h : Passes s rest) (c : Char) : Passes (c :: s) rest := by
  obtain ⟨before, d, hd, rfl⟩ := h
  exact ⟨c :: before, d, hd, rfl⟩

/-- Skipping blanks may pass over a character that is no backslash, or has come to the end. -/
theorem Skips.cons {c : Char} {s rest : List Char} (hc : c ≠ '\\') (h : Skips s rest) :
    rest = [] ∨ Passes (c :: s) rest := by
  obtain rfl | rfl | h := h
  · exact .inr ⟨[], c, hc, rfl⟩
  · exact .inl rfl
  · exact .inr (h.cons c)

/-- What is left behind blanks is a suffix. -/
theorem Skips.suffix {s rest : List Char} (h : Skips s rest) : rest <:+ s := by
  obtain rfl | rfl | ⟨before, c, -, rfl⟩ := h
  · exact List.suffix_refl _
  · exact List.nil_suffix
  · exact (List.suffix_cons c rest).trans (List.suffix_append before _)

/-- What is skipped from each mode on. Inside a comment something is passed over, or the text
ends. -/
def BlankMode.Skips (mode : BlankMode) (s rest : List Char) : Prop :=
  match mode with
  | .between => Script.Skips s rest
  | .line | .block => rest = [] ∨ Passes s rest

/-- The scanner of blanks and comments, by induction along its own recursion. -/
theorem skips_of_skipFrom {mode : BlankMode} {lineEnd lineEnd' : Bool} {s rest : List Char}
    (h : skipFrom mode lineEnd s = some (lineEnd', rest)) : mode.Skips s rest := by
  have hcons : ∀ {s c}, rest = [] ∨ Passes s rest → rest = [] ∨ Passes (c :: s) rest :=
    fun h => h.imp_right (·.cons _)
  -- Along the reader of blanks. What ends a skip is no backslash: a slash, a star, a blank or the
  -- end of a line.
  fun_induction skipFrom mode lineEnd s with
  | case1 lineEnd s ih => exact .inr (hcons (hcons (ih h)))
  | case2 lineEnd s ih => exact .inr (hcons (hcons (ih h)))
  | case3 lineEnd c s _ _ hend ih =>
    refine .inr ((ih h).cons ?_)
    rintro rfl
    cases hend
  | case4 lineEnd c s _ _ hend hspace ih =>
    refine .inr ((ih h).cons ?_)
    rintro rfl
    cases hspace
  | case5 lineEnd c s =>
    cases h
    exact .inl rfl
  | case6 =>
    cases h
    exact .inl rfl
  | case7 lineEnd c s hend ih =>
    refine (ih h).cons ?_
    rintro rfl
    cases hend
  | case8 lineEnd c s hend ih => exact hcons (ih h)
  | case9 =>
    cases h
    exact .inl rfl
  | case10 lineEnd s ih =>
    have hrest : Skips s rest := ih h
    exact hcons (hrest.cons (by decide))
  | case11 lineEnd c s _ ih => exact hcons (ih h)
  | case12 => cases h

/-- So the blanks before a token are skipped, not rewritten. -/
theorem skips_of_skipBlanks {lineEnd : Bool} {s rest : List Char}
    (h : skipBlanks s = some (lineEnd, rest)) : Skips s rest :=
  show BlankMode.Skips .between s rest from skips_of_skipFrom h

/-- Where a token begins, nothing is left to skip. -/
theorem skipBlanks_idem {lineEnd : Bool} {s rest : List Char}
    (h : skipBlanks s = some (lineEnd, rest)) : skipBlanks rest = some (false, rest) := by
  have hfrom : ∀ {mode lineEnd lineEnd' s}, skipFrom mode lineEnd s = some (lineEnd', rest) →
      skipBlanks rest = some (false, rest) := by
    intro mode lineEnd lineEnd' s h
    -- Everything that is skipped leads on to the rest; only where the reader stops is it looked at.
    fun_induction skipFrom mode lineEnd s with
    | case1 _ _ ih => exact ih h
    | case2 _ _ ih => exact ih h
    | case3 _ _ _ _ _ _ ih => exact ih h
    | case4 _ _ _ _ _ _ _ ih => exact ih h
    | case7 _ _ _ _ ih => exact ih h
    | case8 _ _ _ _ ih => exact ih h
    | case10 _ _ ih => exact ih h
    | case11 _ _ _ _ ih => exact ih h
    | case5 lineEnd c s hline hblock hend hspace =>
      cases h
      unfold skipBlanks
      rw [skipFrom, if_neg hend, if_neg hspace]
      · exact hline
      · exact hblock
    | case6 | case9 =>
      cases h
      rfl
    | case12 => cases h
  exact hfrom h

/-! ### Escapes and strings -/

/-- Digits of a fixed number are taken from the front. -/
theorem takeHex_suffix {value count n : Nat} {s rest : List Char}
    (h : takeHex value count s = some (n, rest)) : rest <:+ s := by
  obtain ⟨digits, rfl, -⟩ := takeHex_spec h
  exact List.suffix_append digits rest

/-- So is a code, with braces or without. -/
theorem takeUnicode_suffix {n : Nat} {s rest : List Char} (h : takeUnicode s = some (n, rest)) :
    rest <:+ s := by
  obtain ⟨u, rfl, -⟩ := takeUnicode_spec h
  exact List.suffix_append u rest

/-- So is a character by its code, or by two codes that are its halves. -/
theorem takeUnicodeChar_suffix {c : Char} {s rest : List Char}
    (h : takeUnicodeChar s = some (c, rest)) : rest <:+ s := by
  obtain ⟨u, rfl, -⟩ := takeUnicodeChar_spec h
  exact List.suffix_append u rest

/-- So are the digits of an old octal escape. -/
theorem takeOctal_suffix (first : Nat) (s : List Char) : (takeOctal first s).2 <:+ s := by
  fun_cases takeOctal first s <;> simp [List.suffix_cons_iff]

/-- So is any escape, case by case on the letter after the backslash. -/
theorem takeEscape_suffix {octal : Bool} {s value rest : List Char}
    (h : takeEscape octal s = some (value, rest)) : rest <:+ s := by
  unfold takeEscape at h
  split at h
  · cases h
  · cases h
    exact (List.suffix_cons _ _).trans (List.suffix_cons _ _)
  -- The escapes of one letter.
  iterate 6
    · cases h
      exact List.suffix_cons _ _
  · obtain ⟨⟨n, behind⟩, hn, h⟩ := Option.map_eq_some_iff.1 h
    cases h
    exact (takeHex_suffix hn).trans (List.suffix_cons _ _)
  · obtain ⟨⟨c, behind⟩, hc, h⟩ := Option.map_eq_some_iff.1 h
    cases h
    exact (takeUnicodeChar_suffix hc).trans (List.suffix_cons _ _)
  · next c t _ _ _ _ _ _ _ _ _ =>
    repeat' split at h
    · cases h
      exact List.suffix_cons _ _
    · cases h
      exact List.suffix_cons _ _
    · next first _ _ _ _ hoctal =>
      cases h
      have hbehind := takeOctal_suffix first t
      rw [hoctal] at hbehind
      exact hbehind.trans (List.suffix_cons _ _)
    · cases h
      exact List.suffix_cons _ _
    · cases h
    · cases h
      exact List.suffix_cons _ _

/-- A string literal is taken from the front, up to its closing quotation mark. -/
theorem takeString_suffix {quote : Char} {bound : Nat} {s value rest : List Char}
    (h : takeString quote bound s = some (value, rest)) : rest <:+ s := by
  induction bound generalizing s value with
  | zero => cases h
  | succ bound ih =>
    cases s with
    | nil => cases h
    | cons c s =>
      rw [takeString] at h
      -- The string ends at its quote, or goes on behind an escape or a plain character.
      refine List.IsSuffix.trans ?_ (List.suffix_cons c s)
      split at h
      · cases h
        exact List.suffix_refl _
      split at h
      · obtain ⟨⟨v, after⟩, hv, h⟩ := Option.bind_eq_some_iff.1 h
        obtain ⟨⟨tail, behind⟩, htail, h⟩ := Option.bind_eq_some_iff.1 h
        cases h
        exact (ih htail).trans (takeEscape_suffix hv)
      split at h
      · cases h
      · obtain ⟨⟨tail, behind⟩, htail, h⟩ := Option.map_eq_some_iff.1 h
        cases h
        exact ih htail

/-- So is a run of a template. -/
theorem takeRun_suffix {bound : Nat} {s : List Char} {r : Run} (h : takeRun bound s = some r) :
    r.rest <:+ s := by
  -- Along the reader of runs: one or two characters, or an escape, and then the rest of the run.
  fun_induction takeRun bound s generalizing r with
  | case1 => cases h
  | case2 => cases h
  | case3 bound s =>
    cases h
    exact List.suffix_cons _ _
  | case4 bound s =>
    cases h
    exact (List.suffix_cons _ _).trans (List.suffix_cons _ _)
  | case5 bound s value behind hescape ih =>
    obtain ⟨r, hr, rfl⟩ := Option.map_eq_some_iff.1 h
    exact ((ih hr).trans (takeEscape_suffix hescape)).trans (List.suffix_cons _ _)
  | case6 bound c s hescape ih =>
    obtain ⟨r, hr, rfl⟩ := Option.map_eq_some_iff.1 h
    exact ((ih hr).trans (List.suffix_cons _ _)).trans (List.suffix_cons _ _)
  | case7 => cases h
  | case8 bound s ih =>
    obtain ⟨r, hr, rfl⟩ := Option.map_eq_some_iff.1 h
    exact ((ih hr).trans (List.suffix_cons _ _)).trans (List.suffix_cons _ _)
  | case9 =>
    rename_i ih
    obtain ⟨r, hr, rfl⟩ := Option.map_eq_some_iff.1 h
    exact (ih hr).trans (List.suffix_cons _ _)

/-! ### Numerals -/

/-- So are digits with separators between them. -/
theorem takeSeparated_suffix {digit : Char → Bool} {afterDigit : Bool} {s ds rest : List Char}
    (h : takeSeparated digit afterDigit s = some (ds, rest)) : rest <:+ s := by
  fun_induction takeSeparated digit afterDigit s generalizing ds with
  -- A separator is taken with the digit behind it.
  | case1 afterDigit d s _ ih =>
    obtain ⟨⟨ds, behind⟩, hds, h⟩ := Option.map_eq_some_iff.1 h
    cases h
    exact ((ih hds).trans (List.suffix_cons _ _)).trans (List.suffix_cons _ _)
  | case2 => cases h
  | case3 afterDigit c s _ _ ih =>
    obtain ⟨⟨ds, behind⟩, hds, h⟩ := Option.map_eq_some_iff.1 h
    cases h
    exact (ih hds).trans (List.suffix_cons _ _)
  | case4 =>
    cases h
    exact List.suffix_refl _
  | case5 =>
    cases h
    exact List.suffix_refl _

/-- So is a numeral with a base. -/
theorem takeBased_suffix {base : Nat} {s rest : List Char} {n : Numeral}
    (h : takeBased base s = some (n, rest)) : rest <:+ s := by
  obtain ⟨⟨ds, behind⟩, hds, h⟩ := Option.bind_eq_some_iff.1 h
  have hbehind := takeSeparated_suffix hds
  dsimp only at h
  -- Without digits there is no numeral, and a letter behind them makes it a big one.
  split at h
  · cases h
  split at h
  · cases h
    exact (List.suffix_cons _ _).trans hbehind
  · cases h
    exact hbehind

/-- So is an exponent, which may be absent. -/
theorem takeExponentPart_suffix {s rest : List Char} {n : Int}
    (h : takeExponentPart s = some (n, rest)) : rest <:+ s := by
  cases s with
  | nil =>
    cases h
    exact List.suffix_refl _
  | cons c s =>
    unfold takeExponentPart at h
    dsimp only at h
    -- There is an exponent only behind its letter, with or without a sign.
    split at h
    · obtain ⟨⟨ds, behind⟩, hds, h⟩ := Option.bind_eq_some_iff.1 h
      have hbehind := takeSeparated_suffix hds
      dsimp only at h
      split at h
      · cases h
      · cases h
        refine hbehind.trans (List.IsSuffix.trans ?_ (List.suffix_cons c s))
        split
        · exact List.suffix_cons _ _
        · exact List.suffix_cons _ _
        · exact List.suffix_refl _
    · cases h
      exact List.suffix_refl _

/-- So is a fraction, with the exponent behind it. -/
theorem takeFraction_suffix {whole s rest : List Char} {n : Numeral}
    (h : takeFraction whole s = some (n, rest)) : rest <:+ s := by
  -- The exponent follows the fraction, if there is one, or else the whole digits.
  have hexponent : ∀ {fraction behind : List Char},
      (if whole.isEmpty && fraction.isEmpty then none
        else (takeExponentPart behind).bind fun r => some (Numeral.number (Decimal.ofScaled
          (Decimal.digitsValue (whole ++ fraction)) (r.1 - fraction.length)), r.2)) =
        some (n, rest) → rest <:+ behind := by
    intro fraction behind h
    split at h
    · cases h
    · obtain ⟨⟨exponent, after⟩, hexponent, h⟩ := Option.bind_eq_some_iff.1 h
      cases h
      exact takeExponentPart_suffix hexponent
  unfold takeFraction at h
  dsimp only at h
  split at h
  · next s =>
    obtain ⟨⟨fraction, behind⟩, hfraction, h⟩ := Option.bind_eq_some_iff.1 h
    exact ((hexponent h).trans (takeSeparated_suffix hfraction)).trans (List.suffix_cons _ _)
  · exact hexponent h

/-- So is a numeral of any kind. -/
theorem takeNumeral_suffix {s rest : List Char} {n : Numeral}
    (h : takeNumeral s = some (n, rest)) : rest <:+ s := by
  unfold takeNumeral at h
  split at h
  · next s =>
    -- Behind a zero there can be a base, an old octal or a fraction.
    refine List.IsSuffix.trans ?_ (List.suffix_cons '0' s)
    split at h
    · next c s =>
      split at h
      · exact (takeBased_suffix h).trans (List.suffix_cons _ _)
      split at h
      · exact (takeBased_suffix h).trans (List.suffix_cons _ _)
      split at h
      · exact (takeBased_suffix h).trans (List.suffix_cons _ _)
      split at h
      · cases h
        exact List.suffix_cons _ _
      split at h
      · rw [List.span_eq_takeWhile_dropWhile] at h
        dsimp only at h
        have hdigits : (c :: s).dropWhile Char.isDigit <:+ c :: s := List.dropWhile_suffix _
        split at h
        · cases h
          exact hdigits
        · exact (takeFraction_suffix h).trans hdigits
      · exact takeFraction_suffix h
    · exact takeFraction_suffix h
  · obtain ⟨⟨whole, behind⟩, hwhole, h⟩ := Option.bind_eq_some_iff.1 h
    have hbehind := takeSeparated_suffix hwhole
    dsimp only at h
    split at h
    · split at h
      · cases h
      · cases h
        exact (List.suffix_cons _ _).trans hbehind
    · exact (takeFraction_suffix h).trans hbehind

/-- The check on what follows a numeral takes nothing. -/
theorem numeral_suffix {s rest : List Char} {n : Numeral} (h : numeral s = some (n, rest)) :
    rest <:+ s := by
  obtain ⟨⟨n', behind⟩, hn, h⟩ := Option.bind_eq_some_iff.1 h
  dsimp only at h
  split at h
  · cases h
    exact takeNumeral_suffix hn
  · cases h

/-! ### Words, marks and regular expressions -/

/-- A word is taken from the front; its characters may be spelled by escapes. -/
theorem takeWord_suffix {first : Bool} {bound : Nat} {s cs rest : List Char} {escaped : Bool}
    (h : takeWord first bound s = some (cs, escaped, rest)) : rest <:+ s := by
  induction bound generalizing first s cs escaped with
  | zero =>
    cases h
    exact List.suffix_refl _
  | succ bound ih =>
    cases s with
    | nil =>
      cases first
      · cases h
        exact List.suffix_refl _
      · cases h
    | cons c s =>
      rw [takeWord.eq_def] at h
      split at h
      · next heq => cases heq
      · next heq => cases heq
      · next hbound hs =>
        cases hbound
        cases hs
        -- An escaped character of the word.
        refine List.IsSuffix.trans ?_ (List.suffix_cons '\\' _)
        split at h
        · obtain ⟨⟨n, behind⟩, hn, h⟩ := Option.bind_eq_some_iff.1 h
          refine List.IsSuffix.trans ?_ ((takeUnicode_suffix hn).trans (List.suffix_cons _ _))
          by_cases hc : (if first then Text.isIdentifierStart (charOf n)
              else Text.isIdentifierPart (charOf n)) = true
          · simp only [hc, if_true] at h
            obtain ⟨⟨cs', after⟩, hrec, h⟩ := Option.bind_eq_some_iff.1 h
            cases h
            exact ih hrec
          · simp [hc] at h
        · cases h
      · next hbound hs =>
        -- A plain one.
        cases hbound
        cases hs
        by_cases hc : (if first then Text.isIdentifierStart c else Text.isIdentifierPart c) = true
        · rw [if_pos hc] at h
          obtain ⟨⟨cs', after⟩, hrec, h⟩ := Option.map_eq_some_iff.1 h
          cases h
          exact (ih hrec).trans (List.suffix_cons _ _)
        · rw [if_neg hc] at h
          cases first
          · cases h
            exact List.suffix_refl _
          · cases h

/-- The same with the word put together. -/
theorem word_suffix {s rest : List Char} {w : String} {escaped : Bool}
    (h : word s = some (w, escaped, rest)) : rest <:+ s := by
  obtain ⟨⟨cs, escaped', behind⟩, hw, h⟩ := Option.map_eq_some_iff.1 h
  cases h
  exact takeWord_suffix hw

/-- A mark stands as it is at the start of the text. -/
theorem takeMark_spec {s rest : List Char} {m : String} (h : takeMark s = some (m, rest)) :
    s = m.toList ++ rest := by
  unfold takeMark at h
  -- One mark is looked up apart, since the next character decides whether it is longer.
  split at h
  · split at h
    · cases h
      rfl
    · cases h
      rfl
  · obtain ⟨m', hm, h⟩ := Option.map_eq_some_iff.1 h
    cases h
    obtain ⟨t, rfl⟩ := List.isPrefixOf_iff_prefix.1 (List.find?_eq_some_iff_append.1 hm).1
    rw [← String.length_toList, List.drop_left]

/-- The body of a regular expression is passed over, its classes included. -/
theorem skipRegex_suffix {inClass : Bool} {s rest : List Char}
    (h : skipRegex inClass s = some rest) : rest <:+ s := by
  -- Along the scan; a backslash takes the character behind it with it.
  fun_induction skipRegex inClass s with
  | case1 => cases h
  | case2 inClass c s _ ih =>
      exact ((ih h).trans (List.suffix_cons _ _)).trans (List.suffix_cons _ _)
  | case3 => cases h
  | case4 inClass c s =>
    cases h
    exact List.suffix_cons _ _
  | case5 inClass c s _ _ _ ih => exact (ih h).trans (List.suffix_cons _ _)
  | case6 => cases h

/-- So are the flags behind it. -/
theorem regex_suffix {s rest : List Char} (h : regex s = some rest) : rest <:+ s := by
  obtain ⟨behind, hbehind, h⟩ := Option.bind_eq_some_iff.1 h
  rw [List.span_eq_takeWhile_dropWhile] at h
  dsimp only at h
  split at h
  · cases h
    exact (List.dropWhile_suffix _).trans (skipRegex_suffix hbehind)
  · cases h

/-! ### Tokens -/

/-- A token is taken from the front, whatever its kind. -/
theorem tokenAt_suffix {s rest : List Char} {t : Token} (h : tokenAt s = some (t, rest)) :
    rest <:+ s := by
  cases s with
  | nil =>
    cases h
    exact List.suffix_refl _
  | cons c s =>
    simp only [tokenAt] at h
    -- One case for each kind of token, in the order of `tokenAt`.
    repeat' split at h
    · obtain ⟨⟨n, behind⟩, hn, h⟩ := Option.map_eq_some_iff.1 h
      cases h
      exact numeral_suffix hn
    · obtain ⟨⟨value, behind⟩, hvalue, h⟩ := Option.map_eq_some_iff.1 h
      cases h
      exact (takeString_suffix hvalue).trans (List.suffix_cons _ _)
    · obtain ⟨⟨w, escaped, behind⟩, hw, h⟩ := Option.map_eq_some_iff.1 h
      cases h
      exact (word_suffix hw).trans (List.suffix_cons _ _)
    · obtain ⟨⟨w, escaped, behind⟩, hw, h⟩ := Option.map_eq_some_iff.1 h
      cases h
      exact word_suffix hw
    · obtain ⟨⟨m, behind⟩, hm, h⟩ := Option.map_eq_some_iff.1 h
      cases h
      rw [takeMark_spec hm]
      exact List.suffix_append _ _

/-- A mark in its place. -/
theorem eq_of_tokenAt_mark {s rest : List Char} {m : String}
    (h : tokenAt s = some (.mark m, rest)) : s = m.toList ++ rest := by
  cases s with
  | nil => cases h
  | cons c s =>
    simp only [tokenAt] at h
    repeat' split at h
    -- The other tokens are no marks.
    iterate 4
      · obtain ⟨r, -, h⟩ := Option.map_eq_some_iff.1 h
        cases h
    · obtain ⟨⟨m', behind⟩, hm, h⟩ := Option.map_eq_some_iff.1 h
      cases h
      exact takeMark_spec hm

/-- **The next token**: what is skipped in front of it, the text from it on, and the text behind
it. -/
theorem nextToken_spec {s : List Char} {l : Lexeme} (h : nextToken s = some l) :
    skipBlanks s = some (l.afterLineEnd, l.start) ∧ tokenAt l.start = some (l.token, l.rest) := by
  obtain ⟨⟨lineEnd, start⟩, hstart, h⟩ := Option.bind_eq_some_iff.1 h
  obtain ⟨⟨t, rest⟩, ht, h⟩ := Option.bind_eq_some_iff.1 h
  cases h
  exact ⟨hstart, ht⟩

/-- A token begins in the text and ends in it: what is left is a suffix of where it begins, and that
of the text. -/
theorem nextToken_suffix {s : List Char} {l : Lexeme} (h : nextToken s = some l) :
    l.rest <:+ l.start ∧ l.start <:+ s :=
  ⟨tokenAt_suffix (nextToken_spec h).2, (skips_of_skipBlanks (nextToken_spec h).1).suffix⟩

end Stencil.Script
