import Mathlib
import Stencil.Decimal.Read

/-!
# The grammar of decimals

What `read?` accepts, as a grammar that gives each numeral its value (`read?_eq_some_iff`).

* `IsDecimal`: digits with an optional point and an optional exponent.
* `IsNamed`: one of the words for what digits cannot spell, in any case.
* `Signed`: the same with an optional sign.
-/

namespace Stencil.Decimal

/-- Each character is a decimal digit. -/
def AreDigits (ds : List Char) : Prop :=
  ∀ c ∈ ds, c.isDigit = true

/-- The exponent part of a numeral and its value: nothing, or a mark, an optional sign and
digits. -/
inductive IsExponent : List Char → Int → Prop
  | absent : IsExponent [] 0
  | bare {c ds} (mark : c = 'e' ∨ c = 'E') (digits : AreDigits ds) (some_digit : ds ≠ []) :
    IsExponent (c :: ds) (digitsValue ds)
  | plus {c ds} (mark : c = 'e' ∨ c = 'E') (digits : AreDigits ds) (some_digit : ds ≠ []) :
    IsExponent (c :: '+' :: ds) (digitsValue ds)
  | minus {c ds} (mark : c = 'e' ∨ c = 'E') (digits : AreDigits ds) (some_digit : ds ≠ []) :
    IsExponent (c :: '-' :: ds) (-digitsValue ds)

/-- An unsigned decimal numeral and the double nearest to it. -/
inductive IsDecimal : List Char → Float → Prop
  | whole {ds tail e} (digits : AreDigits ds) (some_digit : ds ≠ [])
    (exponent : IsExponent tail e) : IsDecimal (ds ++ tail) (ofScaled (digitsValue ds) e)
  | pointed {ds fs tail e} (digits : AreDigits ds) (fraction : AreDigits fs)
    (some_digit : ds ++ fs ≠ []) (exponent : IsExponent tail e) :
    IsDecimal (ds ++ '.' :: (fs ++ tail)) (ofScaled (digitsValue (ds ++ fs)) (e - fs.length))

/-- One of the words `inf`, `infinity` and `nan` in any case, and what it means. -/
inductive IsNamed (s : List Char) : Float → Prop
  | infinite (word : s.map Char.toLower = "inf".toList ∨ s.map Char.toLower = "infinity".toList) :
    IsNamed s (1.0 / 0.0)
  | notNumber (word : s.map Char.toLower = "nan".toList) : IsNamed s (0.0 / 0.0)

/-- A numeral of `Unsigned` with an optional sign. -/
inductive Signed (Unsigned : List Char → Float → Prop) : List Char → Float → Prop
  | bare {s x} (body : Unsigned s x) : Signed Unsigned s x
  | plus {s x} (body : Unsigned s x) : Signed Unsigned ('+' :: s) x
  | minus {s x} (body : Unsigned s x) : Signed Unsigned ('-' :: s) (-x)

/-- What `read?` takes for a number, sign aside. -/
def IsUnsigned (s : List Char) (x : Float) : Prop :=
  IsDecimal s x ∨ IsNamed s x

/-- What holds of all unsigned numerals carries over to signed ones. -/
theorem Signed.imp {N M : List Char → Float → Prop} (himp : ∀ s x, N s x → M s x)
    {s : List Char} {x : Float} (h : Signed N s x) : Signed M s x := by
  cases h with
  | bare body => exact .bare (himp _ _ body)
  | plus body => exact .plus (himp _ _ body)
  | minus body => exact .minus (himp _ _ body)

/-! ### Digits -/

/-- The text does not start with a digit. -/
def Stops (s : List Char) : Prop :=
  ∀ c ∈ s.head?, c.isDigit = false

/-- The reader takes the digits up to the first character that is none. -/
theorem takeDigits_append {ds rest : List Char} (digits : AreDigits ds) (stops : Stops rest) :
    takeDigits (ds ++ rest) = (ds, rest) := by
  rw [takeDigits, List.span_eq_takeWhile_dropWhile, List.takeWhile_append_of_pos digits,
    List.dropWhile_append_of_pos digits]
  cases rest with
  | nil => simp
  | cons c cs =>
    have hc : c.isDigit = false := stops c rfl
    simp [hc]

/-- What it takes are digits, and nothing is lost. -/
theorem eq_append_of_takeDigits {s ds rest : List Char} (h : takeDigits s = (ds, rest)) :
    s = ds ++ rest ∧ AreDigits ds := by
  rw [takeDigits, List.span_eq_takeWhile_dropWhile] at h
  cases h
  exact ⟨List.takeWhile_append_dropWhile.symm, fun c hc => List.mem_takeWhile_imp hc⟩

/-- It takes a text of digits whole. -/
theorem takeDigits_all {ds : List Char} (digits : AreDigits ds) : takeDigits ds = (ds, []) := by
  have hstops : Stops [] := by simp [Stops]
  have h := takeDigits_append digits hstops
  rwa [List.append_nil] at h

/-! ### Exponents -/

/-- An exponent begins with its letter, so the digits before it end there. -/
theorem IsExponent.stops {s : List Char} {e : Int} (h : IsExponent s e) : Stops s := by
  intro c hc
  cases h with
  | absent => cases hc
  | bare mark | plus mark | minus mark =>
    cases hc
    rcases mark with rfl | rfl <;> rfl

/-- For the same reason it does not begin with a point. -/
theorem IsExponent.head_ne_point {s : List Char} {e : Int} (h : IsExponent s e) (r : List Char) :
    s ≠ '.' :: r := by
  rintro rfl
  cases h with
  | bare mark | plus mark | minus mark => simp at mark

/-- An exponent of the grammar is read with its value. -/
theorem takeExponent_of_isExponent {s : List Char} {e : Int} (h : IsExponent s e) (hs : s ≠ []) :
    takeExponent s = some (e, []) := by
  cases h with
  | absent => exact absurd rfl hs
  | @bare c ds mark digits some_digit =>
    -- Digits start with neither sign, so the exponent is read by the equation without one.
    have hminus (r : List Char) : ds ≠ '-' :: r := by
      rintro rfl
      exact absurd (digits '-' (List.mem_cons_self ..)) (by decide)
    have hplus (r : List Char) : ds ≠ '+' :: r := by
      rintro rfl
      exact absurd (digits '+' (List.mem_cons_self ..)) (by decide)
    rw [takeExponent.eq_3 c ds hminus hplus, if_pos (by simpa using mark), takeDigits_all digits]
    simp [some_digit]
  | plus mark digits some_digit =>
    rw [takeExponent.eq_2, if_pos (by simpa using mark), takeDigits_all digits]
    simp [some_digit]
  | minus mark digits some_digit =>
    rw [takeExponent.eq_1, if_pos (by simpa using mark), takeDigits_all digits]
    simp [some_digit]

/-- What is read to the end as an exponent is one of the grammar. -/
theorem isExponent_of_takeExponent {s : List Char} {e : Int} (h : takeExponent s = some (e, [])) :
    IsExponent s e := by
  unfold takeExponent at h
  split at h
  · next c t =>
    split at h
    · next hmark =>
      have mark : c = 'e' ∨ c = 'E' := by simpa using hmark
      split at h
      -- The sign is split off last: all three equations read the digits behind it alike.
      next negative rest hsign =>
      rcases hdigits : takeDigits rest with ⟨ds, after⟩
      simp only [hdigits] at h
      split at h
      · cases h
      · next hempty =>
        have some_digit : ds ≠ [] := by simpa using hempty
        simp only [Option.some.injEq, Prod.mk.injEq] at h
        obtain ⟨rfl, rfl⟩ := h
        obtain ⟨hrest, digits⟩ := eq_append_of_takeDigits hdigits
        rw [List.append_nil] at hrest
        subst hrest
        split at hsign <;> cases hsign
        · exact .minus mark digits some_digit
        · exact .plus mark digits some_digit
        · exact .bare mark digits some_digit
    · cases h
  · cases h

/-! ### Numerals -/

/-- Digits without a point are all before it. -/
theorem takeMantissa_whole {ds tail : List Char} {e : Int} (digits : AreDigits ds)
    (some_digit : ds ≠ []) (exponent : IsExponent tail e) :
    takeMantissa (ds ++ tail) = some (ds, [], tail) := by
  unfold takeMantissa
  rw [takeDigits_append digits exponent.stops]
  dsimp only
  split
  · exact absurd rfl (exponent.head_ne_point _)
  · simp [some_digit]

/-- Digits on either side of a point are taken apart at the point. -/
theorem takeMantissa_pointed {ds fs tail : List Char} {e : Int} (digits : AreDigits ds)
    (fraction : AreDigits fs) (some_digit : ds ++ fs ≠ []) (exponent : IsExponent tail e) :
    takeMantissa (ds ++ '.' :: (fs ++ tail)) = some (ds, fs, tail) := by
  have hpoint : Stops ('.' :: (fs ++ tail)) := by
    rintro _ ⟨⟩
    rfl
  unfold takeMantissa
  simp only [takeDigits_append digits hpoint, takeDigits_append fraction exponent.stops]
  rw [if_neg (by simpa using some_digit)]

/-- Conversely, what is taken has digits on at least one side, with the point between them or no
fraction. -/
theorem of_takeMantissa {s ds fs tail : List Char} (h : takeMantissa s = some (ds, fs, tail)) :
    AreDigits ds ∧ AreDigits fs ∧ ds ++ fs ≠ [] ∧
      (s = ds ++ '.' :: (fs ++ tail) ∨ fs = [] ∧ s = ds ++ tail) := by
  unfold takeMantissa at h
  rcases hwhole : takeDigits s with ⟨whole, rest⟩
  obtain ⟨hs, digits⟩ := eq_append_of_takeDigits hwhole
  simp only [hwhole] at h
  split at h
  · next r =>
    rcases hfraction : takeDigits r with ⟨fraction, behind⟩
    obtain ⟨hr, fraction_digits⟩ := eq_append_of_takeDigits hfraction
    simp only [hfraction] at h
    split at h
    · cases h
    · next hempty =>
      cases h
      exact ⟨digits, fraction_digits, by simpa using hempty, .inl (hr ▸ hs)⟩
  · -- There is no point, so the fraction is empty.
    split at h
    · cases h
    · next hempty =>
      cases h
      exact ⟨digits, List.forall_mem_nil _, by simpa using hempty, .inr ⟨rfl, hs⟩⟩

/-- The exponent part of a numeral is read as such, and one that is absent as zero. -/
theorem readUnsigned?_eq {s ds fs tail : List Char} {e : Int}
    (h : takeMantissa s = some (ds, fs, tail)) (exponent : IsExponent tail e) :
    readUnsigned? s = some (ofScaled (digitsValue (ds ++ fs)) (e - fs.length)) := by
  unfold readUnsigned?
  rw [h]
  dsimp only [Option.bind_eq_bind, Option.bind_some]
  split
  · cases exponent
    rfl
  · next hne => rw [takeExponent_of_isExponent exponent hne]; rfl

/-- A decimal of the grammar is read with its value. -/
theorem readUnsigned?_of_isDecimal {s : List Char} {x : Float} (h : IsDecimal s x) :
    readUnsigned? s = some x := by
  cases h with
  | whole digits some_digit exponent =>
    have hread := readUnsigned?_eq (takeMantissa_whole digits some_digit exponent) exponent
    simpa using hread
  | pointed digits fraction some_digit exponent =>
    exact readUnsigned?_eq (takeMantissa_pointed digits fraction some_digit exponent) exponent

/-- What the reader has to have found: a mantissa, and an exponent to the end of the text. -/
theorem of_readUnsigned? {s : List Char} {x : Float} (h : readUnsigned? s = some x) :
    ∃ ds fs tail e, takeMantissa s = some (ds, fs, tail) ∧ IsExponent tail e ∧
      x = ofScaled (digitsValue (ds ++ fs)) (e - fs.length) := by
  unfold readUnsigned? at h
  simp only [Option.bind_eq_bind, Option.bind_eq_some_iff, Prod.exists] at h
  obtain ⟨ds, fs, tail, hmantissa, h⟩ := h
  refine ⟨ds, fs, tail, ?_⟩
  -- Nothing behind the mantissa is an absent exponent; anything else has to be read as one to its
  -- end.
  split at h
  · simp only [Option.bind_some, List.isEmpty_nil, if_true, Option.some.injEq] at h
    exact ⟨0, hmantissa, .absent, h.symm⟩
  · simp only [Option.bind_eq_some_iff, Prod.exists, Option.ite_none_right_eq_some,
      List.isEmpty_iff, Option.some.injEq] at h
    obtain ⟨e, rest, hexponent, rfl, hx⟩ := h
    exact ⟨e, hmantissa, isExponent_of_takeExponent hexponent, hx.symm⟩

/-- What is read is a decimal of the grammar. -/
theorem isDecimal_of_readUnsigned? {s : List Char} {x : Float} (h : readUnsigned? s = some x) :
    IsDecimal s x := by
  obtain ⟨ds, fs, tail, e, hmantissa, exponent, rfl⟩ := of_readUnsigned? h
  obtain ⟨digits, fraction, some_digit, rfl | ⟨rfl, rfl⟩⟩ := of_takeMantissa hmantissa
  · exact .pointed digits fraction some_digit exponent
  · have hvalue := IsDecimal.whole digits (by simpa using some_digit) exponent
    simpa using hvalue

/-- The reader of unsigned decimals accepts the grammar, with its values. -/
theorem readUnsigned?_eq_some_iff {s : List Char} {x : Float} :
    readUnsigned? s = some x ↔ IsDecimal s x :=
  ⟨isDecimal_of_readUnsigned?, readUnsigned?_of_isDecimal⟩

/-- Comparing with a literal is comparing characters. -/
theorem ofList_eq_iff {cs : List Char} {t : String} : String.ofList cs = t ↔ cs = t.toList := by
  constructor
  · rintro rfl
    exact String.toList_ofList.symm
  · rintro rfl
    exact String.ofList_toList

/-- The reader of words accepts the named values, in any case. -/
theorem readNamed?_eq_some_iff {s : List Char} {x : Float} :
    readNamed? s = some x ↔ IsNamed s x := by
  simp only [readNamed?, ofList_eq_iff, Bool.or_eq_true, decide_eq_true_eq]
  constructor
  · intro h
    split at h
    · next hword =>
      cases h
      exact .infinite hword
    · split at h
      · next hword =>
        cases h
        exact .notNumber hword
      · cases h
  · intro h
    cases h with
    | infinite hword => rw [if_pos hword]
    -- The word is `nan`, so it is neither of the words for infinity.
    | notNumber hword =>
      rw [if_neg, if_pos hword]
      rw [hword]
      decide

/-! ### Characters of numerals -/

/-- The character starts a decimal numeral without a sign. -/
def startsDecimal (c : Char) : Bool :=
  c.isDigit || c == '.'

/-- The character may stand in a decimal numeral. -/
def isDecimalChar (c : Char) : Bool :=
  c.isDigit || ['.', 'e', 'E', '+', '-'].contains c

/-- Digits stand in decimals. -/
theorem AreDigits.isDecimalChar {ds : List Char} (h : AreDigits ds) :
    ∀ c ∈ ds, isDecimalChar c = true := by
  intro c hc
  rw [Decimal.isDecimalChar, h c hc, Bool.true_or]

theorem isDecimalChar_mark {c : Char} (h : c = 'e' ∨ c = 'E') : isDecimalChar c = true := by
  rcases h with rfl | rfl <;> rfl

theorem IsExponent.isDecimalChar {s : List Char} {e : Int} (h : IsExponent s e) :
    ∀ c ∈ s, isDecimalChar c = true := by
  cases h with
  | absent => exact List.forall_mem_nil _
  | bare mark digits =>
    exact List.forall_mem_cons.2 ⟨isDecimalChar_mark mark, digits.isDecimalChar⟩
  | plus mark digits | minus mark digits =>
    exact List.forall_mem_cons.2 ⟨isDecimalChar_mark mark,
      List.forall_mem_cons.2 ⟨rfl, digits.isDecimalChar⟩⟩

/-- The characters of a decimal are digits, points, signs and the letter of an exponent. -/
theorem IsDecimal.isDecimalChar {s : List Char} {x : Float} (h : IsDecimal s x) :
    ∀ c ∈ s, isDecimalChar c = true := by
  cases h with
  | whole digits some_digit exponent =>
    exact List.forall_mem_append.2 ⟨digits.isDecimalChar, exponent.isDecimalChar⟩
  | pointed digits fraction some_digit exponent =>
    exact List.forall_mem_append.2 ⟨digits.isDecimalChar, List.forall_mem_cons.2 ⟨rfl,
      List.forall_mem_append.2 ⟨fraction.isDecimalChar, exponent.isDecimalChar⟩⟩⟩

/-- A decimal may start with a digit. -/
theorem AreDigits.start {c : Char} {cs : List Char} (h : AreDigits (c :: cs)) :
    startsDecimal c = true := by
  rw [startsDecimal, h c (List.mem_cons_self ..), Bool.true_or]

/-- A decimal starts with a digit or a point. -/
theorem IsDecimal.start {s : List Char} {x : Float} (h : IsDecimal s x) :
    ∃ c cs, s = c :: cs ∧ startsDecimal c = true := by
  cases h with
  | @whole ds tail e digits some_digit =>
    obtain ⟨c, cs, rfl⟩ := List.exists_cons_of_ne_nil some_digit
    exact ⟨c, cs ++ tail, rfl, digits.start⟩
  | @pointed ds fs tail e digits =>
    -- Without whole digits the point comes first.
    cases ds with
    | nil => exact ⟨'.', fs ++ tail, rfl, rfl⟩
    | cons c cs => exact ⟨c, cs ++ '.' :: (fs ++ tail), rfl, digits.start⟩

/-- In lower case a named value is one of letters. -/
theorem IsNamed.areLower {s : List Char} {x : Float} (h : IsNamed s x) :
    (s.map Char.toLower).all Char.isLower = true ∧ s.map Char.toLower ≠ [] := by
  cases h with
  | infinite word => rcases word with h | h <;> rw [h] <;> decide
  | notNumber word => rw [word]; decide

/-- So it is one of letters as it is written. -/
theorem IsNamed.isAlpha {s : List Char} {x : Float} (h : IsNamed s x) :
    ∀ c ∈ s, c.isAlpha = true := by
  intro c hc
  rw [← Char.isLower_toLower_eq_isAlpha]
  exact List.all_eq_true.1 h.areLower.1 _ (List.mem_map_of_mem hc)

/-- A named value is something. -/
theorem IsNamed.ne_nil {s : List Char} {x : Float} (h : IsNamed s x) : s ≠ [] :=
  fun hs => h.areLower.2 (List.map_eq_nil_iff.2 hs)

/-! ### Signs -/

/-- What may stand behind a sign starts like a decimal or with a letter. -/
theorem IsUnsigned.start {s : List Char} {x : Float} (h : IsUnsigned s x) :
    ∃ c cs, s = c :: cs ∧ (startsDecimal c = true ∨ c.isAlpha = true) := by
  rcases h with hdecimal | hnamed
  · obtain ⟨c, cs, hs, hstart⟩ := hdecimal.start
    exact ⟨c, cs, hs, .inl hstart⟩
  · obtain ⟨c, cs, rfl⟩ := List.exists_cons_of_ne_nil hnamed.ne_nil
    exact ⟨c, cs, rfl, .inr (hnamed.isAlpha c (List.mem_cons_self ..))⟩

/-- So it does not start with another sign. -/
theorem IsUnsigned.head_ne {s r : List Char} {x : Float} {c : Char} (h : IsUnsigned s x)
    (hc : c = '+' ∨ c = '-') : s ≠ c :: r := by
  rintro rfl
  obtain ⟨_, _, ⟨⟩, hstart⟩ := h.start
  rcases hc with rfl | rfl <;> exact absurd hstart (by decide)

/-- No letter starts a decimal, which keeps decimals and words apart. -/
theorem isAlpha_of_startsDecimal {c : Char} (h : startsDecimal c = true) : c.isAlpha = false := by
  rw [startsDecimal, Bool.or_eq_true, beq_iff_eq] at h
  rcases h with hdigit | rfl
  · simp only [Char.isDigit, Char.isAlpha, Char.isUpper, Char.isLower, UInt32.le_iff_toNat_le,
      ge_iff_le, Bool.and_eq_true, decide_eq_true_eq, Bool.or_eq_false_iff, Bool.and_eq_false_iff,
      decide_eq_false_iff_not, Nat.not_le, Char.reduceVal, UInt32.reduceToNat] at hdigit ⊢
    omega
  · rfl

/-- No text is both: a decimal starts with a digit or a point, a named value with a letter. -/
theorem readUnsigned?_of_isNamed {s : List Char} {x : Float} (h : IsNamed s x) :
    readUnsigned? s = none := by
  cases hread : readUnsigned? s with
  | none => rfl
  | some y =>
    obtain ⟨c, cs, rfl, hstart⟩ := (isDecimal_of_readUnsigned? hread).start
    have halpha := h.isAlpha c (List.mem_cons_self ..)
    rw [isAlpha_of_startsDecimal hstart] at halpha
    cases halpha

/-- Trying digits first and words second accepts both, since no text is both. -/
theorem or_eq_some_iff {s : List Char} {x : Float} :
    (readUnsigned? s).or (readNamed? s) = some x ↔ IsUnsigned s x := by
  rw [Option.or_eq_some_iff, readUnsigned?_eq_some_iff, readNamed?_eq_some_iff]
  -- The names are tried where no decimal is read, and no name is one.
  constructor
  · rintro (h | ⟨-, h⟩)
    · exact .inl h
    · exact .inr h
  · rintro (h | h)
    · exact .inl h
    · exact .inr ⟨readUnsigned?_of_isNamed h, h⟩

/-- What `read?` accepts, and the double it answers. -/
theorem read?_eq_some_iff {s : String} {x : Float} :
    read? s = some x ↔ Signed IsUnsigned s.toList x := by
  unfold read?
  generalize s.toList = cs
  simp only [Option.map_eq_some_iff, or_eq_some_iff]
  constructor
  · rintro ⟨y, hbody, rfl⟩
    split at hbody
    · exact .minus hbody
    · exact .plus hbody
    · exact .bare hbody
  · intro h
    cases h with
    -- An unsigned numeral starts with neither sign, so it is read by the last equation.
    | bare body =>
      refine ⟨x, ?_⟩
      split
      · exact absurd rfl (body.head_ne (.inr rfl))
      · exact absurd rfl (body.head_ne (.inl rfl))
      · exact ⟨body, rfl⟩
    | plus body => exact ⟨x, body, rfl⟩
    | @minus s y body => exact ⟨y, body, rfl⟩

end Stencil.Decimal
