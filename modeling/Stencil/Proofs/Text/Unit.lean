/-!
# Order by code units

Texts compare by code points here. A script compares them by the code units of their UTF-16
encoding, in which a character beyond the basic plane is a pair of surrogates, and the surrogates
stand below the last characters of that plane. So the two orders differ at one kind of place: where
the first difference is between a character beyond the plane and one above the surrogates
(`units_lt_iff`).
-/

namespace Stencil.Text

/-- The character is beyond the basic plane, so it takes two code units. -/
def isAstral (c : Char) : Bool :=
  0x10000 ≤ c.toNat

/-- The character takes one code unit, and that is above the surrogates. -/
def isAboveSurrogates (c : Char) : Bool :=
  0xE000 ≤ c.toNat && c.toNat < 0x10000

/-- The code units of a character: itself, or the high and the low surrogate. -/
def codeUnits (c : Char) : List Nat :=
  if isAstral c then
    [0xD800 + (c.toNat - 0x10000) / 0x400, 0xDC00 + (c.toNat - 0x10000) % 0x400]
  else [c.toNat]

/-- The code units of a text. -/
def units (s : List Char) : List Nat :=
  s.flatMap codeUnits

/-- The first text comes before the second one by code units. -/
def unitLess (a b : String) : Bool :=
  units a.toList < units b.toList

/-- Of two different characters the one with the larger code point has the smaller code units. -/
def areSwapped (c d : Char) : Bool :=
  (isAstral c && isAboveSurrogates d) || (isAboveSurrogates c && isAstral d)

/-- The first place where both texts go on, but not with the same character. -/
def firstDifference : List Char → List Char → Option (Char × Char)
  | c :: cs, d :: ds => if c = d then firstDifference cs ds else some (c, d)
  | _, _ => none

/-- The texts part at two characters that code units put in the opposite order. -/
def Straddle (a b : String) : Prop :=
  ∃ c d, firstDifference a.toList b.toList = some (c, d) ∧ areSwapped c d = true

/-! ### Characters -/

/-- No character is half of a pair. -/
theorem toNat_range (c : Char) : c.toNat < 0xD800 ∨ 0xE000 ≤ c.toNat ∧ c.toNat < 0x110000 := by
  have hvalid : c.toNat.isValidChar := c.valid
  rcases hvalid with h | h
  · exact .inl h
  · exact .inr ⟨Nat.succ_le_of_lt h.1, h.2⟩

/-- Different characters have different codes. -/
theorem toNat_ne {c d : Char} (h : c ≠ d) : c.toNat ≠ d.toNat :=
  fun heq => h (Char.toNat_inj.1 heq)

/-- Characters are in the order of their codes. -/
theorem char_lt_iff {c d : Char} : c < d ↔ c.toNat < d.toNat :=
  Iff.rfl

/-- A character above the basic plane is two units, a high and a low one. -/
theorem codeUnits_of_astral {c : Char} (h : 0x10000 ≤ c.toNat) :
    codeUnits c =
      [0xD800 + (c.toNat - 0x10000) / 0x400, 0xDC00 + (c.toNat - 0x10000) % 0x400] :=
  if_pos (by simpa [isAstral] using h)

/-- Any other character is one unit. -/
theorem codeUnits_of_basic {c : Char} (h : c.toNat < 0x10000) : codeUnits c = [c.toNat] :=
  if_neg (by simpa [isAstral] using h)

/-! ### Texts -/

/-- The units of a text are those of its characters, in order. -/
theorem units_cons (c : Char) (cs : List Char) : units (c :: cs) = codeUnits c ++ units cs :=
  rfl

/-- Every character is some unit. -/
theorem codeUnits_ne_nil (c : Char) : codeUnits c ≠ [] := by
  unfold codeUnits
  split <;> simp

/-- A common first unit does not decide the order. -/
theorem cons_lt_cons_self (n : Nat) (ms ns : List Nat) : n :: ms < n :: ns ↔ ms < ns := by
  simp

theorem append_lt_append_left (us ms ns : List Nat) : us ++ ms < us ++ ns ↔ ms < ns := by
  induction us with
  | nil => rfl
  | cons u us ih => rw [List.cons_append, List.cons_append, cons_lt_cons_self, ih]

/-- Different first units decide it. -/
theorem head_lt_iff {m n : Nat} (h : m ≠ n) (ms ns : List Nat) : m :: ms < n :: ns ↔ m < n := by
  simp [List.cons_lt_cons_iff, h]

/-- Texts that start with different characters compare by code units as by code points, unless the
characters are swapped. -/
theorem units_cons_lt_iff {c d : Char} (h : c ≠ d) (cs ds : List Char) :
    units (c :: cs) < units (d :: ds) ↔ (c < d ↔ areSwapped c d = false) := by
  have hne := toNat_ne h
  have hc := toNat_range c
  have hd := toNat_range d
  rw [units_cons, units_cons, char_lt_iff]
  simp only [areSwapped, isAstral, isAboveSurrogates, Bool.or_eq_false_iff, Bool.and_eq_false_iff,
    decide_eq_false_iff_not]
  rcases Nat.lt_or_ge c.toNat 0x10000 with hbasic | hastral
  · rw [codeUnits_of_basic hbasic]
    rcases Nat.lt_or_ge d.toNat 0x10000 with hbasic' | hastral'
    · rw [codeUnits_of_basic hbasic', List.singleton_append, List.singleton_append,
        head_lt_iff hne]
      omega
    · rw [codeUnits_of_astral hastral', List.singleton_append, List.cons_append,
        head_lt_iff (by omega)]
      omega
  · rw [codeUnits_of_astral hastral]
    rcases Nat.lt_or_ge d.toNat 0x10000 with hbasic' | hastral'
    · rw [codeUnits_of_basic hbasic', List.singleton_append, List.cons_append,
        head_lt_iff (by omega)]
      omega
    · -- two pairs: the low surrogates decide if the high ones are the same
      simp only [codeUnits_of_astral hastral', List.cons_append]
      by_cases hhigh : (c.toNat - 0x10000) / 0x400 = (d.toNat - 0x10000) / 0x400
      · rw [hhigh, cons_lt_cons_self, head_lt_iff (by omega)]
        omega
      · rw [head_lt_iff (by omega)]
        omega

/-- Only the empty text has no units. -/
theorem units_eq_nil_iff {s : List Char} : units s = [] ↔ s = [] := by
  cases s with
  | nil => exact iff_of_true rfl rfl
  | cons c cs => simp [units_cons, codeUnits_ne_nil]

/-- The empty text comes before every other. -/
theorem nil_lt_iff {α : Type} [LT α] {s : List α} : [] < s ↔ s ≠ [] := by
  cases s <;> simp

/-- Code units order two texts as code points do, unless the texts part at swapped characters. -/
theorem units_lt_iff (as bs : List Char) :
    (units as < units bs ↔ as < bs) ↔
      ∀ c d, firstDifference as bs = some (c, d) → areSwapped c d = false := by
  induction as generalizing bs with
  | nil => simp [firstDifference, show units [] = [] from rfl, nil_lt_iff, units_eq_nil_iff]
  | cons c cs ih =>
    cases bs with
    | nil => simp [firstDifference, units]
    | cons d ds =>
      -- Equal characters take the same code units; the first different ones decide.
      by_cases hcd : c = d
      · subst hcd
        rw [units_cons, units_cons, append_lt_append_left, firstDifference, if_pos rfl, ← ih ds]
        simp
      · rw [units_cons_lt_iff hcd, List.cons_lt_cons_iff, firstDifference, if_neg hcd]
        by_cases hlt : c < d <;> simp [hcd, hlt]

/-- The first difference does not depend on which text is named first, up to its order. -/
theorem firstDifference_swap (as bs : List Char) :
    firstDifference bs as = (firstDifference as bs).map Prod.swap := by
  induction as generalizing bs with
  | nil => cases bs <;> rfl
  | cons c cs ih =>
    cases bs with
    | nil => rfl
    | cons d ds =>
      -- Equal characters are passed over from either side.
      by_cases hcd : c = d
      · subst hcd
        rw [firstDifference, firstDifference, if_pos rfl, if_pos rfl, ih]
      · rw [firstDifference, firstDifference, if_neg hcd, if_neg (Ne.symm hcd)]
        rfl

theorem areSwapped_comm (c d : Char) : areSwapped c d = areSwapped d c := by
  rw [areSwapped, areSwapped, Bool.or_comm, Bool.and_comm, Bool.and_comm (isAstral c)]

/-- So straddling is symmetric. -/
theorem Straddle.symm {a b : String} (h : Straddle a b) : Straddle b a := by
  obtain ⟨c, d, hdiff, hswap⟩ := h
  refine ⟨d, c, ?_, areSwapped_comm c d ▸ hswap⟩
  rw [firstDifference_swap, hdiff]
  rfl

/-- `Straddle.symm`, both ways. -/
theorem straddle_comm (a b : String) : Straddle a b ↔ Straddle b a :=
  ⟨Straddle.symm, Straddle.symm⟩

/-- The order by code units answers as the order by code points, unless the texts straddle. -/
theorem unitLess_eq_iff (a b : String) : unitLess a b = decide (a < b) ↔ ¬ Straddle a b := by
  rw [unitLess, decide_eq_decide, String.lt_iff, units_lt_iff]
  constructor
  · rintro h ⟨c, d, hdiff, hswap⟩
    rw [h c d hdiff] at hswap
    cases hswap
  · intro h c d hdiff
    exact Bool.eq_false_iff.2 fun hswap => h ⟨c, d, hdiff, hswap⟩

end Stencil.Text
