import Stencil.Constant.Evaluate
import Stencil.Proofs.Decimal.Grammar
import Stencil.Proofs.Decimal.Rounded
import Stencil.Proofs.Text.Margin
import Stencil.Proofs.Text.Unit
import Stencil.Script.Literal

/-!
# Operators on texts against the language

How the language compares two texts and which number it takes a text for, and where the constant
operators answer something else (`operators_on_texts`). They stand in the order of code points for
that of code units, in the decimals of `Decimal.read?` for the numerals of the language, and in the
blanks of `Text.trim` for its white space.

* `Standard.Converts`: the number of a text in the language, by its grammar of numerals.
* `Misread`: the texts that are given another number, kind by kind.
* `toNumber_eq_iff`: they are exactly these.
-/

namespace Stencil

open Decimal Text

/-- The number that a text converts to, for a class of blanks and a grammar of numerals: zero if
it is nothing but blanks, the value of the numeral that it is between its margins, or not a
number. -/
inductive Converts (blank : Char → Bool) (IsNumeral : List Char → Float → Prop) (s : String) :
    Float → Prop
  | nothing (framed : Framed blank s.toList []) : Converts blank IsNumeral s 0.0
  | numeral {body x} (framed : Framed blank s.toList body) (value : IsNumeral body x) :
    Converts blank IsNumeral s x
  | other (something : ¬ Framed blank s.toList [])
    (no_numeral : ∀ body x, Framed blank s.toList body → ¬ IsNumeral body x) :
    Converts blank IsNumeral s Value.nan

namespace Standard

/-- A character of white space or a line end in the language. -/
def isBlank (c : Char) : Bool :=
  let n := c.toNat
  (0x9 ≤ n && n ≤ 0xD) || n == 0x20 || n == 0xA0 || n == 0x1680 || (0x2000 ≤ n && n ≤ 0x200A)
    || n == 0x2028 || n == 0x2029 || n == 0x202F || n == 0x205F || n == 0x3000 || n == 0xFEFF

/-- An unsigned decimal numeral, or the one spelling of infinity. -/
inductive IsUnsigned : List Char → Float → Prop
  | decimal {s x} (h : IsDecimal s x) : IsUnsigned s x
  | infinity : IsUnsigned "Infinity".toList (1.0 / 0.0)

/-- The base that a letter after a leading zero stands for. -/
def baseOf? (mark : Char) : Option Nat :=
  if mark = 'x' || mark = 'X' then some 16
  else if mark = 'o' || mark = 'O' then some 8
  else if mark = 'b' || mark = 'B' then some 2
  else none

/-- A numeral with a base mark. It has no sign. -/
inductive IsBased : List Char → Float → Prop
  | mk {mark base ds} (hmark : baseOf? mark = some base)
    (digits : ∀ c ∈ ds, ∃ v, Script.hexValue? c = some v ∧ v < base) (some_digit : ds ≠ []) :
    IsBased ('0' :: mark :: ds) (ofScaled (Script.valueInBase base ds) 0)

/-- A numeral that a text of the language may be. -/
def IsNumeral (s : List Char) (x : Float) : Prop :=
  Signed IsUnsigned s x ∨ IsBased s x

end Standard

/-- A numeral that the evaluator takes a text for. -/
def IsRead (s : List Char) (x : Float) : Prop :=
  Signed Decimal.IsUnsigned s x

def byteOrderMark : Char := Char.ofNat 0xFEFF

def nextLine : Char := Char.ofNat 0x85

/-- The text has another number in the language: a byte order mark stands in the margin, which is
white space there only, or a NEXT LINE does, which is white space here only; or the numeral has a
base mark, which is read there only, or is infinity in a spelling that is read here only. -/
inductive Misread (s : String) : Prop
  | byteOrderMark {body} (framed : Framed Standard.isBlank s.toList body)
    (mark : byteOrderMark ∈ s.toList)
    (content : body = [] ∨ ∃ x, Standard.IsNumeral body x)
  | nextLine {body} (framed : Framed Text.isBlank s.toList body) (mark : nextLine ∈ s.toList)
    (content : body = [] ∨ ∃ x, IsRead body x ∧ x.isNaN = false)
  | base {body x} (framed : Framed Standard.isBlank s.toList body)
    (value : Standard.IsBased body x)
  | infinity {body x} (framed : Framed Text.isBlank s.toList body) (value : Signed IsNamed body x)
    (number : x.isNaN = false) (spelling : ∀ y, ¬ Standard.IsNumeral body y)

/-! ### Blanks and the characters of numerals -/

/-- The character is printed and takes one byte. No character of a numeral is anything else. -/
def isPlain (c : Char) : Bool :=
  0x21 ≤ c.toNat && c.toNat ≤ 0x7E

/-- The characters that are blank in the language, or here. -/
def isBlankAnywhere (c : Char) : Bool :=
  Text.isBlank c || Standard.isBlank c

/-- A plain character is no blank, neither to `trim` nor to the language. -/
theorem isBlankAnywhere_of_isPlain {c : Char} (h : isPlain c = true) :
    isBlankAnywhere c = false := by
  simp only [isPlain, Bool.and_eq_true, decide_eq_true_eq] at h
  simp only [isBlankAnywhere, Text.isBlank, Standard.isBlank, Bool.or_eq_false_iff,
    Bool.and_eq_false_iff, decide_eq_false_iff_not, beq_eq_false_iff_ne]
  omega

/-- The two classes of blanks differ in two characters: the next line is a blank to `trim` only, and
the byte order mark to the language only. -/
theorem standard_isBlank_iff {c : Char} :
    Standard.isBlank c = true ↔ Text.isBlank c = true ∧ c ≠ nextLine ∨ c = byteOrderMark := by
  have hline : c ≠ nextLine ↔ c.toNat ≠ 0x85 := by
    rw [not_iff_not, ← Char.toNat_inj]
    rfl
  have hmark : c = byteOrderMark ↔ c.toNat = 0xFEFF := by
    rw [← Char.toNat_inj]
    rfl
  rw [hline, hmark]
  -- What is left is a comparison of ranges of codes.
  simp only [Text.isBlank, Standard.isBlank, Bool.or_eq_true, Bool.and_eq_true, decide_eq_true_eq,
    beq_iff_eq]
  omega

/-- Digits are plain. -/
theorem isPlain_of_isDigit {c : Char} (h : c.isDigit = true) : isPlain c = true := by
  simp only [Char.isDigit, UInt32.le_iff_toNat_le, ge_iff_le, Bool.and_eq_true, decide_eq_true_eq,
    Char.reduceVal, UInt32.reduceToNat] at h
  change 48 ≤ c.toNat ∧ c.toNat ≤ 57 at h
  simp only [isPlain, Bool.and_eq_true, decide_eq_true_eq]
  omega

/-- Letters are plain. -/
theorem isPlain_of_isAlpha {c : Char} (h : c.isAlpha = true) : isPlain c = true := by
  simp only [Char.isAlpha, Char.isUpper, Char.isLower, UInt32.le_iff_toNat_le, ge_iff_le,
    Bool.or_eq_true, Bool.and_eq_true, decide_eq_true_eq, Char.reduceVal,
    UInt32.reduceToNat] at h
  change 65 ≤ c.toNat ∧ c.toNat ≤ 90 ∨ 97 ≤ c.toNat ∧ c.toNat ≤ 122 at h
  simp only [isPlain, Bool.and_eq_true, decide_eq_true_eq]
  omega

/-- Whatever stands in a decimal is plain. -/
theorem isPlain_of_isDecimalChar {c : Char} (h : isDecimalChar c = true) : isPlain c = true := by
  rw [isDecimalChar, Bool.or_eq_true, List.contains_iff_mem] at h
  rcases h with hdigit | hsign
  · exact isPlain_of_isDigit hdigit
  · simp only [List.mem_cons, List.not_mem_nil, or_false] at hsign
    rcases hsign with rfl | rfl | rfl | rfl | rfl <;> rfl

/-- Digits of a base are plain. -/
theorem isPlain_of_hexValue? {c : Char} {v : Nat} (h : Script.hexValue? c = some v) :
    isPlain c = true := by
  -- The ranges are stated of characters, and `isPlain` of their code points.
  have hbetween {low high : Char} (h : (decide (low ≤ c) && decide (c ≤ high)) = true) :
      low.toNat ≤ c.toNat ∧ c.toNat ≤ high.toNat := by
    rw [Bool.and_eq_true, decide_eq_true_eq, decide_eq_true_eq] at h
    exact h
  simp only [isPlain, Bool.and_eq_true, decide_eq_true_eq]
  unfold Script.hexValue? at h
  split at h
  · next hdigit => simpa [isPlain] using isPlain_of_isDigit hdigit
  · split at h
    · next hlower =>
      obtain ⟨hlow, hhigh⟩ := hbetween hlower
      exact ⟨hlow.trans' (by decide), hhigh.trans (by decide)⟩
    · split at h
      · next hupper =>
        obtain ⟨hlow, hhigh⟩ := hbetween hupper
        exact ⟨hlow.trans' (by decide), hhigh.trans (by decide)⟩
      · cases h

/-- The letter of a base is plain, and no decimal has it. -/
theorem mark_of_baseOf? {c : Char} {base : Nat} (h : Standard.baseOf? c = some base) :
    isPlain c = true ∧ isDecimalChar c = false := by
  simp only [Standard.baseOf?, Bool.or_eq_true, decide_eq_true_eq] at h
  -- The marks of the three bases, in both cases of the letter.
  split at h
  · next hmark => rcases hmark with rfl | rfl <;> exact ⟨rfl, rfl⟩
  · split at h
    · next hmark => rcases hmark with rfl | rfl <;> exact ⟨rfl, rfl⟩
    · split at h
      · next hmark => rcases hmark with rfl | rfl <;> exact ⟨rfl, rfl⟩
      · cases h

/-- Each character of the text is plain. -/
def Plain (s : List Char) : Prop :=
  ∀ c ∈ s, isPlain c = true

/-- An unsigned decimal is plain. -/
theorem plain_unsigned {s : List Char} {x : Float} (h : Decimal.IsUnsigned s x) : Plain s := by
  rcases h with hdecimal | hnamed
  · exact fun c hc => isPlain_of_isDecimalChar (hdecimal.isDecimalChar c hc)
  · exact fun c hc => isPlain_of_isAlpha (hnamed.isAlpha c hc)

/-- A sign is plain too. -/
theorem plain_signed {Unsigned : List Char → Float → Prop} {s : List Char} {x : Float}
    (hplain : ∀ s x, Unsigned s x → Plain s) (h : Signed Unsigned s x) : Plain s := by
  cases h with
  | bare body => exact hplain _ _ body
  | plus body | minus body => exact List.forall_mem_cons.2 ⟨rfl, hplain _ _ body⟩

/-- A numeral with a base is plain. -/
theorem plain_based {s : List Char} {x : Float} (h : Standard.IsBased s x) : Plain s := by
  obtain ⟨hmark, digits, -⟩ := h
  refine List.forall_mem_cons.2 ⟨rfl, List.forall_mem_cons.2 ⟨(mark_of_baseOf? hmark).1, ?_⟩⟩
  intro c hc
  obtain ⟨v, hv, -⟩ := digits c hc
  exact isPlain_of_hexValue? hv

/-- A plain text has no blanks of either class, so its margins are those of the text around it. -/
theorem Plain.unblank {s : List Char} (h : Plain s) : Unblank isBlankAnywhere s :=
  fun c hc => isBlankAnywhere_of_isPlain (h c hc)

/-! ### Numerals of the language and of the evaluator -/

/-- `read?` reads one number at most. -/
theorem IsRead.unique {s : List Char} {x y : Float} (hx : IsRead s x) (hy : IsRead s y) :
    x = y := by
  have hx' : Decimal.read? (String.ofList s) = some x :=
    read?_eq_some_iff.2 (String.toList_ofList ▸ hx)
  have hy' : Decimal.read? (String.ofList s) = some y :=
    read?_eq_some_iff.2 (String.toList_ofList ▸ hy)
  exact Option.some.inj (hx'.symm.trans hy')

/-- What is read as a number is plain. -/
theorem IsRead.plain {s : List Char} {x : Float} (h : IsRead s x) : Plain s :=
  plain_signed (fun _ _ => plain_unsigned) h

/-- The decimals of the language are read, as the language reads them. -/
theorem isRead_of_signed {s : List Char} {x : Float} (h : Signed Standard.IsUnsigned s x) :
    IsRead s x := by
  refine h.imp ?_
  rintro s x (hdecimal | -)
  · exact .inl hdecimal
  · exact .inr (.infinite (.inr (by decide)))

/-- What is read is a decimal of the language, or a word for what digits cannot spell. -/
theorem signed_or_named {s : List Char} {x : Float} (h : IsRead s x) :
    Signed Standard.IsUnsigned s x ∨ Signed IsNamed s x := by
  cases h with
  | bare body => exact body.imp (fun h => .bare (.decimal h)) .bare
  | plus body => exact body.imp (fun h => .plus (.decimal h)) .plus
  | minus body => exact body.imp (fun h => .minus (.decimal h)) .minus

/-- A numeral of the language is plain. -/
theorem plain_numeral {s : List Char} {x : Float} (h : Standard.IsNumeral s x) : Plain s := by
  rcases h with hsigned | hbased
  · exact (isRead_of_signed hsigned).plain
  · exact plain_based hbased

/-- A numeral with a base mark is not read: it starts with a digit, and no decimal has the mark. -/
theorem not_isRead_of_isBased {s : List Char} {x y : Float} (h : Standard.IsBased s x) :
    ¬ IsRead s y := by
  intro hread
  obtain ⟨hmark, -, -⟩ := h
  -- Behind the zero stands a letter that no decimal has, and no name has the zero.
  cases hread with
  | bare body =>
    rcases body with hdecimal | hnamed
    · have hchar := hdecimal.isDecimalChar _ (List.mem_cons_of_mem _ (List.mem_cons_self ..))
      rw [(mark_of_baseOf? hmark).2] at hchar
      cases hchar
    · exact absurd (hnamed.isAlpha '0' (List.mem_cons_self ..)) (by decide)

/-- A decimal is a number. -/
theorem number_of_isDecimal {s : List Char} {x : Float} (h : IsDecimal s x) : x.isNaN = false := by
  cases h with
  | whole | pointed => exact isNaN_ofScaled ..

/-- It is one with its sign. -/
theorem number_of_signed {Unsigned : List Char → Float → Prop} {s : List Char} {x : Float}
    (hnumber : ∀ s x, Unsigned s x → x.isNaN = false) (h : Signed Unsigned s x) :
    x.isNaN = false := by
  cases h with
  | bare body | plus body => exact hnumber _ _ body
  | minus body => exact isNaN_neg (hnumber _ _ body)

/-- No numeral of the language stands for what is not a number. -/
theorem number_of_numeral {s : List Char} {x : Float} (h : Standard.IsNumeral s x) :
    x.isNaN = false := by
  rcases h with hsigned | ⟨hmark, digits, some_digit⟩
  · refine number_of_signed ?_ hsigned
    rintro s x (hdecimal | -)
    · exact number_of_isDecimal hdecimal
    · decide +kernel
  · exact isNaN_ofScaled ..

/-- What is read is a number, or the one value that is none. -/
theorem number_or_nan_of_isUnsigned {s : List Char} {x : Float} (h : Decimal.IsUnsigned s x) :
    x.isNaN = false ∨ x = Value.nan := by
  rcases h with hdecimal | hnamed
  · exact .inl (number_of_isDecimal hdecimal)
  · cases hnamed with
    | infinite => exact .inl (by decide +kernel)
    | notNumber => exact .inr rfl

/-- The same with a sign. -/
theorem number_or_nan {s : List Char} {x : Float} (h : IsRead s x) :
    x.isNaN = false ∨ x = Value.nan := by
  cases h with
  | bare body | plus body => exact number_or_nan_of_isUnsigned body
  | minus body =>
    rcases number_or_nan_of_isUnsigned body with hnumber | rfl
    · exact .inl (isNaN_neg hnumber)
    · exact .inr (by decide +kernel)

/-- Nothing is not read as a number. -/
theorem IsRead.ne_nil {s : List Char} {x : Float} (h : IsRead s x) : s ≠ [] := by
  rintro rfl
  cases h with
  | bare body =>
    obtain ⟨_, _, ⟨⟩, -⟩ := body.start

/-- A numeral is something. -/
theorem numeral_ne_nil {s : List Char} {x : Float} (h : Standard.IsNumeral s x) : s ≠ [] := by
  rcases h with hsigned | ⟨-, -, -⟩
  · exact (isRead_of_signed hsigned).ne_nil
  · exact List.cons_ne_nil _ _

/-! ### Margins of the two classes -/

variable {s : String} {body body' : List Char} {x y : Float}

/-- Without a byte order mark what is blank in the language is blank here. -/
theorem framed_read (h : Framed Standard.isBlank s.toList body)
    (hmark : byteOrderMark ∉ s.toList) : Framed Text.isBlank s.toList body := by
  refine h.of_blanks fun c hc hblank => ?_
  rcases standard_isBlank_iff.1 hblank with ⟨hread, -⟩ | rfl
  · exact hread
  · exact absurd hc hmark

/-- Without a NEXT LINE what is blank here is blank in the language. -/
theorem framed_standard (h : Framed Text.isBlank s.toList body) (hline : nextLine ∉ s.toList) :
    Framed Standard.isBlank s.toList body := by
  refine h.of_blanks fun c hc hblank => standard_isBlank_iff.2 (.inl ⟨hblank, ?_⟩)
  rintro rfl
  exact hline hc

/-- The class has no blanks that are blank in neither reading. -/
def IsNarrow (blank : Char → Bool) : Prop :=
  ∀ c, blank c = true → isBlankAnywhere c = true

/-- No blank of `trim` is plain. -/
theorem isNarrow_read : IsNarrow Text.isBlank :=
  fun c hc => by rw [isBlankAnywhere, hc, Bool.true_or]

/-- No blank of the language is plain. -/
theorem isNarrow_standard : IsNarrow Standard.isBlank :=
  fun c hc => by rw [isBlankAnywhere, hc, Bool.or_true]

/-- A text frames one plain body, whatever class of blanks its margins are read in. -/
theorem body_unique {blank blank' : Char → Bool} (hblank : IsNarrow blank)
    (hblank' : IsNarrow blank') (h : Framed blank s.toList body) (hbody : Plain body)
    (h' : Framed blank' s.toList body') (hbody' : Plain body') : body = body' :=
  (h.of_blanks fun c _ => hblank c).unique hbody.unblank (h'.of_blanks fun c _ => hblank' c)
    hbody'.unblank

/-! ### Conversions -/

section Converts

variable {blank : Char → Bool} {IsNumeral : List Char → Float → Prop}
variable (hblank : IsNarrow blank)
variable (hnumeral : ∀ {body x}, IsNumeral body x → Plain body ∧ body ≠ [])

include hblank hnumeral

/-- A text of blanks converts to zero in one way only. -/
theorem Converts.eq_zero (h : Converts blank IsNumeral s x)
    (hnothing : Framed blank s.toList []) : x = 0.0 := by
  cases h with
  | nothing => rfl
  | numeral framed value =>
    obtain ⟨hplain, hne⟩ := hnumeral value
    exact absurd (body_unique hblank hblank framed hplain hnothing (List.forall_mem_nil _)) hne
  | other something => exact absurd hnothing something

/-- A text that is a numeral between its margins converts to a value of that numeral. -/
theorem Converts.isNumeral (h : Converts blank IsNumeral s x)
    (hframed : Framed blank s.toList body) (hvalue : IsNumeral body y) : IsNumeral body x := by
  obtain ⟨hplain, hne⟩ := hnumeral hvalue
  -- A text has one body between its blanks, so the three ways exclude each other.
  cases h with
  | nothing framed =>
    exact absurd (body_unique hblank hblank hframed hplain framed (List.forall_mem_nil _)) hne
  | numeral framed value =>
    obtain rfl := body_unique hblank hblank hframed hplain framed (hnumeral value).1
    exact value
  | other _ no_numeral => exact absurd hvalue (no_numeral _ _ hframed)

omit hblank in
/-- A character that is neither blank nor part of a numeral spoils the text. -/
theorem Converts.eq_nan_of_mem (h : Converts blank IsNumeral s x) {c : Char} (hc : c ∈ s.toList)
    (hvisible : blank c = false) (hplain : isPlain c = false) : x = Value.nan := by
  cases h with
  -- The character is neither a blank nor part of a numeral, so only the third case is left.
  | nothing framed =>
    rw [framed_nil_iff.1 framed c hc] at hvisible
    cases hvisible
  | numeral framed value =>
    rcases framed.mem_or hc with h | h
    · rw [h] at hvisible
      cases hvisible
    · rw [(hnumeral value).1 c h] at hplain
      cases hplain
  | other => rfl

end Converts

/-- What is read is a body: plain, and something. -/
theorem IsRead.suits (h : IsRead body x) : Plain body ∧ body ≠ [] :=
  ⟨h.plain, h.ne_nil⟩

theorem Standard.IsNumeral.suits (h : Standard.IsNumeral body x) : Plain body ∧ body ≠ [] :=
  ⟨plain_numeral h, numeral_ne_nil h⟩

/-- The number of a text is what the blanks of `Text.trim` and the grammar of `Decimal.read?`
give. -/
theorem converts_toNumber (s : String) :
    Converts Text.isBlank IsRead s (Value.string s).toNumber := by
  -- The trimmed text is the body between the margins, so the three ways to convert are: it is
  -- empty, it is read, or neither.
  have hframed := framed_trim s
  by_cases hempty : (trim s).isEmpty = true
  · have hvalue : (Value.string s).toNumber = 0.0 := if_pos hempty
    rw [String.isEmpty_iff.1 hempty] at hframed
    exact hvalue ▸ .nothing hframed
  · have hvalue : (Value.string s).toNumber = (Decimal.read? (trim s)).getD Value.nan :=
      if_neg hempty
    cases hread : Decimal.read? (trim s) with
    | some x =>
      rw [hvalue, hread]
      exact .numeral hframed (read?_eq_some_iff.1 hread)
    | none =>
      rw [hvalue, hread]
      refine .other ?_ ?_
      · intro hnothing
        have htrim := toList_trim hnothing (List.forall_mem_nil _)
        exact hempty (String.isEmpty_iff.2 (String.toList_eq_nil_iff.1 htrim))
      · -- A numeral between some margins has no blanks at its ends, so it is the trimmed text,
        -- which is not read.
        intro body x hbody hnumeral
        have htrim := toList_trim hbody fun c hc =>
          (Bool.or_eq_false_iff.1 (hnumeral.plain.unblank c hc)).1
        rw [read?_eq_some_iff.2 (htrim ▸ hnumeral)] at hread
        cases hread

/-- A text that is of no misread kind converts to the same number both ways. -/
theorem eq_of_not_misread (hy : Converts Text.isBlank IsRead s y)
    (hx : Converts Standard.isBlank Standard.IsNumeral s x) (hs : ¬ Misread s) : y = x := by
  -- By cases on what the language makes of the text: its blanks without a byte order mark are
  -- blanks here, so the text is framed alike, and its numerals without a base mark are read here.
  cases hx with
  | nothing framed =>
    have hmark : byteOrderMark ∉ s.toList :=
      fun hmark => hs (.byteOrderMark framed hmark (.inl rfl))
    exact hy.eq_zero isNarrow_read IsRead.suits (framed_read framed hmark)
  | numeral framed value =>
    have hmark : byteOrderMark ∉ s.toList :=
      fun hmark => hs (.byteOrderMark framed hmark (.inr ⟨x, value⟩))
    rcases value with hsigned | hbased
    · have hread := isRead_of_signed hsigned
      have hvalue := hy.isNumeral isNarrow_read IsRead.suits
        (framed_read framed hmark) hread
      exact hvalue.unique hread
    · exact absurd (.base framed hbased) hs
  -- The language reads no numeral; then the evaluator reads none either, unless the text is one of
  -- the misread ones.
  | other something no_numeral =>
    cases hy with
    | nothing framed =>
      have hline : nextLine ∉ s.toList := fun hline => hs (.nextLine framed hline (.inl rfl))
      exact absurd (framed_standard framed hline) something
    | @numeral body _ framed value =>
      rcases number_or_nan value with hnumber | rfl
      · have hline : nextLine ∉ s.toList :=
          fun hline => hs (.nextLine framed hline (.inr ⟨y, value, hnumber⟩))
        have hspelling (z : Float) : ¬ Standard.IsNumeral body z :=
          no_numeral body z (framed_standard framed hline)
        rcases signed_or_named value with hsigned | hnamed
        · exact absurd (.inl hsigned) (hspelling y)
        · exact absurd (.infinity framed hnamed hnumber hspelling) hs
      · rfl
    | other => rfl

/-- A number is not the value that is none. -/
theorem ne_nan_of_number (h : x.isNaN = false) : x ≠ Value.nan := by
  rintro rfl
  exact absurd h (by decide +kernel)

/-- A text that is blank or a numeral converts to a number in the language. -/
theorem number_of_standard (hx : Converts Standard.isBlank Standard.IsNumeral s x)
    (framed : Framed Standard.isBlank s.toList body)
    (content : body = [] ∨ ∃ z, Standard.IsNumeral body z) : x.isNaN = false := by
  rcases content with rfl | ⟨z, value⟩
  · rw [hx.eq_zero isNarrow_standard Standard.IsNumeral.suits framed]
    decide +kernel
  · exact number_of_numeral (hx.isNumeral isNarrow_standard Standard.IsNumeral.suits framed value)

/-- A text that is blank or is read as a number converts to one. -/
theorem number_of_read (hy : Converts Text.isBlank IsRead s y)
    (framed : Framed Text.isBlank s.toList body)
    (content : body = [] ∨ ∃ z, IsRead body z ∧ z.isNaN = false) : y.isNaN = false := by
  rcases content with rfl | ⟨z, value, hnumber⟩
  · rw [hy.eq_zero isNarrow_read IsRead.suits framed]
    decide +kernel
  · obtain rfl := value.unique (hy.isNumeral isNarrow_read IsRead.suits framed value)
    exact hnumber

/-- In each kind of misread text one reading gives a number and the other does not. -/
theorem ne_of_misread (hy : Converts Text.isBlank IsRead s y)
    (hx : Converts Standard.isBlank Standard.IsNumeral s x) (hs : Misread s) : y ≠ x := by
  -- In each case one of the two readings is shown to give a number, and the other not to.
  cases hs with
  | byteOrderMark framed mark content =>
    obtain rfl := hy.eq_nan_of_mem IsRead.suits mark (by decide) (by decide)
    exact (ne_nan_of_number (number_of_standard hx framed content)).symm
  | nextLine framed mark content =>
    obtain rfl := hx.eq_nan_of_mem Standard.IsNumeral.suits mark (by decide) (by decide)
    exact ne_nan_of_number (number_of_read hy framed content)
  | @base body z framed value =>
    have hnumeral : Standard.IsNumeral body z := .inr value
    have hnumber := number_of_standard hx framed (.inr ⟨z, hnumeral⟩)
    have hnan : y = Value.nan := by
      -- A numeral has no blanks at its ends, so both readings see the same body between the
      -- margins.
      cases hy with
      | nothing framed' =>
        exact absurd (body_unique isNarrow_standard isNarrow_read framed hnumeral.suits.1 framed'
          (List.forall_mem_nil _)) hnumeral.suits.2
      | numeral framed' value' =>
        obtain rfl := body_unique isNarrow_standard isNarrow_read framed hnumeral.suits.1 framed'
          value'.plain
        exact absurd value' (not_isRead_of_isBased value)
      | other => rfl
    exact hnan ▸ (ne_nan_of_number hnumber).symm
  | @infinity body z framed value number spelling =>
    have hread : IsRead body z := value.imp fun _ _ => .inr
    have hnumber := number_of_read hy framed (.inr ⟨z, hread, number⟩)
    have hnan : x = Value.nan := by
      -- Here too both readings see the same body.
      cases hx with
      | nothing framed' =>
        exact absurd (body_unique isNarrow_read isNarrow_standard framed hread.plain framed'
          (List.forall_mem_nil _)) hread.ne_nil
      | numeral framed' value' =>
        obtain rfl := body_unique isNarrow_read isNarrow_standard framed hread.plain framed'
          value'.suits.1
        exact absurd value' (spelling _)
      | other => rfl
    exact hnan ▸ ne_nan_of_number hnumber

/-- `Value.toNumber` answers the number of the language for the texts that are not misread, and for
no others. -/
theorem toNumber_eq_iff (h : Converts Standard.isBlank Standard.IsNumeral s x) :
    (Value.string s).toNumber = x ↔ ¬ Misread s :=
  ⟨fun heq hs => ne_of_misread (converts_toNumber s) h hs heq,
    eq_of_not_misread (converts_toNumber s) h⟩

/-- Every text converts to something, whatever the blanks and the numerals are. -/
theorem converts_total (blank : Char → Bool) (IsNumeral : List Char → Float → Prop) (s : String) :
    ∃ x, Converts blank IsNumeral s x := by
  by_cases hnothing : Framed blank s.toList []
  · exact ⟨0.0, .nothing hnothing⟩
  · by_cases hnumeral : ∃ body x, Framed blank s.toList body ∧ IsNumeral body x
    · obtain ⟨body, x, framed, value⟩ := hnumeral
      exact ⟨x, .numeral framed value⟩
    · exact ⟨Value.nan, .other hnothing fun body x framed value =>
        hnumeral ⟨body, x, framed, value⟩⟩

/-! ### Operators -/

/-- The operator takes its operands for numbers, so that it converts a text among them. Only two
texts are compared as they are. -/
def coerces : Script.BinaryOp → Value → Value → Bool
  | .sub, _, _ | .mul, _, _ | .div, _, _ | .rem, _, _ => true
  | .looseEq, a, b | .looseNe, a, b | .lt, a, b | .le, a, b | .gt, a, b | .ge, a, b =>
    !(a.isString && b.isString)
  | _, _, _ => false

/-- The value with a text converted to its number in the language. -/
inductive Coerced : Value → Value → Prop
  | text {s : String} {x : Float} (h : Converts Standard.isBlank Standard.IsNumeral s x) :
    Coerced (.string s) (.number x)
  | other {v : Value} (h : v.isString = false) : Coerced v v

/-- The value is a text that has another number in the language. -/
def IsMisread (v : Value) : Prop :=
  ∃ s, v = .string s ∧ Misread s

variable {a a' b b' : Value}

/-- An operand and what it is coerced to are the same number, unless it is misread. -/
theorem Coerced.toNumber (h : Coerced a a') (ha : ¬ IsMisread a) : a.toNumber = a'.toNumber := by
  cases h with
  | text h => exact (toNumber_eq_iff h).2 fun hs => ha ⟨_, rfl, hs⟩
  | other => rfl

/-- Coercion changes texts only, so what is null stays so. -/
theorem Coerced.nullish (h : Coerced a a') : a.nullish = a'.nullish := by
  cases h <;> rfl

/-- No text is left after coercion. -/
theorem Coerced.isString (h : Coerced a a') : a'.isString = false := by
  cases h with
  | text => rfl
  | other h => exact h

/-- Values that are not both texts compare as numbers. -/
theorem orderedBy_eq (texts : String → String → Bool) (numbers : Float → Float → Bool)
    (h : (a.isString && b.isString) = false) :
    Value.orderedBy texts numbers a b = numbers a.toNumber b.toNumber := by
  cases a <;> cases b <;> first | rfl | cases h

/-- Where not both sides are texts, loose equality compares nullish values with each other and all
others as numbers. -/
theorem looseEq_eq (h : (a.isString && b.isString) = false) :
    a.looseEq b = if a.nullish || b.nullish then a.nullish && b.nullish
      else a.toNumber == b.toNumber := by
  unfold Value.looseEq
  cases a <;> cases b <;> first | rfl | cases h

/-- An operator that coerces gives the same on the operands and on what they are coerced to, if
neither is misread. -/
theorem binary_coerced {op : Script.BinaryOp} (hop : coerces op a b = true) (hca : Coerced a a')
    (hcb : Coerced b b') (ha : ¬ IsMisread a) (hb : ¬ IsMisread b) :
    Value.binary op a b = Value.binary op a' b' := by
  have hnumber := hca.toNumber ha
  have hnumber' := hcb.toNumber hb
  -- Two texts are compared as texts; `coerces` excludes that, in the order in which each operator
  -- takes its operands.
  have hmixed (h : (!(a.isString && b.isString)) = true) : (a.isString && b.isString) = false := by
    rwa [Bool.not_eq_true'] at h
  have hmixed' : (a'.isString && b'.isString) = false := by rw [hca.isString, Bool.false_and]
  have hflip (h : (!(a.isString && b.isString)) = true) : (b.isString && a.isString) = false := by
    rw [Bool.and_comm]
    exact hmixed h
  have hflip' : (b'.isString && a'.isString) = false := by rw [hcb.isString, Bool.false_and]
  -- Grouped by how the operator is evaluated; what is left over does not convert.
  cases op with
  | sub | mul | div | rem => simp only [Value.binary, hnumber, hnumber']
  | looseEq | looseNe =>
    simp only [Value.binary, looseEq_eq (hmixed hop), looseEq_eq hmixed', hnumber, hnumber',
      hca.nullish, hcb.nullish]
  | lt | le =>
    simp only [Value.binary, Value.less, Value.lessOrEq, orderedBy_eq _ _ (hmixed hop),
      orderedBy_eq _ _ hmixed', hnumber, hnumber']
  | gt | ge =>
    simp only [Value.binary, Value.less, Value.lessOrEq, orderedBy_eq _ _ (hflip hop),
      orderedBy_eq _ _ hflip', hnumber, hnumber']
  | _ => cases hop

/-- Two Boolean answers are the same if their truth is. -/
theorem some_bool_eq_iff {p q : Bool} : some (Value.bool p) = some (.bool q) ↔ q = p := by
  rw [Option.some.injEq, Value.bool.injEq, eq_comm]

/-- Constant operators on texts answer as the language does, the misread texts and the straddling
pairs aside. Of two texts every ordering operator gives what the code units give, exactly if the
texts do not straddle the surrogates. A text has one number in the language, and it is the number
here exactly if the text is not misread. And an operator that converts its operands gives what it
gives for the numbers that the texts among them have in the language. -/
theorem operators_on_texts (s t : String) (a b a' b' : Value) :
    ((Value.binary .lt (.string s) (.string t) = some (.bool (unitLess s t)) ↔ ¬ Straddle s t) ∧
      (Value.binary .le (.string s) (.string t) = some (.bool !(unitLess t s)) ↔
        ¬ Straddle s t) ∧
      (Value.binary .gt (.string s) (.string t) = some (.bool (unitLess t s)) ↔ ¬ Straddle s t) ∧
      (Value.binary .ge (.string s) (.string t) = some (.bool !(unitLess s t)) ↔
        ¬ Straddle s t)) ∧
    ((∃ x, Converts Standard.isBlank Standard.IsNumeral s x) ∧
      ∀ x, Converts Standard.isBlank Standard.IsNumeral s x →
        ((Value.string s).toNumber = x ↔ ¬ Misread s)) ∧
    (Coerced a a' → Coerced b b' → ¬ IsMisread a → ¬ IsMisread b →
      (∀ op, coerces op a b = true → Value.binary op a b = Value.binary op a' b') ∧
      Value.unary .plus a = Value.unary .plus a' ∧
      Value.unary .negate a = Value.unary .negate a') := by
  refine ⟨?_, ⟨converts_total _ _ s, fun x hx => toNumber_eq_iff hx⟩, ?_⟩
  · -- All four comparisons come down to the order in one direction or the other.
    have hless := unitLess_eq_iff s t
    have hmore := (unitLess_eq_iff t s).trans (not_congr (straddle_comm t s))
    exact ⟨some_bool_eq_iff.trans hless, some_bool_eq_iff.trans (Bool.not_inj_iff.trans hmore),
      some_bool_eq_iff.trans hmore, some_bool_eq_iff.trans (Bool.not_inj_iff.trans hless)⟩
  · intro hca hcb ha hb
    refine ⟨fun op hop => binary_coerced hop hca hcb ha hb, ?_, ?_⟩
    · simp only [Value.unary, hca.toNumber ha]
    · simp only [Value.unary, hca.toNumber ha]

/-- Blanks around a numeral do not matter. -/
theorem operators_on_texts_margin :
    Converts Standard.isBlank Standard.IsNumeral " 12 " 12.0 ∧ ¬ Misread " 12 " ∧
      Value.binary .lt (.string " 12 ") (.number 20.0) =
        Value.binary .lt (.number 12.0) (.number 20.0) := by
  obtain ⟨-, ⟨-, hread⟩, hoperators⟩ :=
    operators_on_texts " 12 " "" (.string " 12 ") (.number 20.0) (.number 12.0) (.number 20.0)
  have hdigits : AreDigits "12".toList := List.all_eq_true.1 (by decide)
  have hnumeral : IsDecimal "12".toList 12.0 := by
    have h := IsDecimal.whole hdigits (by decide) .absent
    rwa [List.append_nil, show ofScaled (digitsValue "12".toList) 0 = 12.0 by decide +kernel] at h
  have hstandard : Converts Standard.isBlank Standard.IsNumeral " 12 " 12.0 :=
    .numeral ⟨" ".toList, " ".toList, by decide, List.all_eq_true.1 (by decide),
      List.all_eq_true.1 (by decide)⟩ (.inl (.bare (.decimal hnumeral)))
  have hvalue : (Value.string " 12 ").toNumber = 12.0 := by decide +kernel
  -- The conversions agree on this text, so it is not misread.
  have hmisread : ¬ Misread " 12 " := (hread 12.0 hstandard).1 hvalue
  refine ⟨hstandard, hmisread, ?_⟩
  refine (hoperators (.text hstandard) (.other rfl) ?_ ?_).1 .lt rfl
  · rintro ⟨s, ⟨⟩, hs⟩
    exact hmisread hs
  · rintro ⟨s, ⟨⟩, -⟩

/-- A text with a base mark is no number here, and a character beyond the basic plane is not below
one that stands above the surrogates. -/
theorem base_mark_and_surrogates :
    ((evaluate? "'0x10' == 16" Dict.empty).map Value.text = some "false" ∧
      Converts Standard.isBlank Standard.IsNumeral "0x10" 16.0) ∧
    (evaluate? "'😀' < '～'" Dict.empty).map Value.text = some "false" ∧
      unitLess "😀" "～" = true := by
  have hdigit {c : Char} (h : (Script.hexValue? c).any (· < 16) = true) :
      ∃ v, Script.hexValue? c = some v ∧ v < 16 := by simpa [Option.any_eq_true] using h
  have hdigits : ∀ c ∈ ['1', '0'], ∃ v, Script.hexValue? c = some v ∧ v < 16 :=
    List.forall_mem_cons.2 ⟨hdigit rfl, List.forall_mem_singleton.2 (hdigit rfl)⟩
  -- The language reads digits of base sixteen where the decimals stop at the letter.
  have hbased : Standard.IsBased "0x10".toList 16.0 := by
    have h : Standard.IsBased ['0', 'x', '1', '0'] _ := .mk rfl hdigits (by decide)
    rwa [show ofScaled (Script.valueInBase 16 ['1', '0']) 0 = 16.0 by decide +kernel] at h
  have hframed : Framed Standard.isBlank "0x10".toList "0x10".toList :=
    ⟨[], [], by decide, List.forall_mem_nil _, List.forall_mem_nil _⟩
  exact ⟨⟨by decide +kernel, .numeral hframed (.inr hbased)⟩, by decide +kernel, by decide⟩

end Stencil
