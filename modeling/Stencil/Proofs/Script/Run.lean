import Stencil.Script.Tree
import Stencil.Script.Literal

/-!
# Runs of template literals

A run is read up to the next backtick or the next substitution, and how a piece of it reads can
depend on what stands behind it: a dollar sign opens a substitution in front of a brace, `\0` is no
escape in front of a digit, and two escapes can spell one character together. `Reads after text
value` says that `text` reads as `value` in front of `after`.

* `takeRun_of_reads`, `reads_of_takeRun` — that is how runs are read: a text that reads in front of
  the end of a run is taken as a run, and the text of a run, as it is kept, reads in front of any
  end;
* `reads_append` — two texts read one behind the other, if the first one reads in front of the
  second;
* `Reads.behind` — a text that reads in front of the end of a run reads in front of every text that
  it does not join with.

`Breaks` tests whether a text joins with the text behind it. It looks at the last thing that the
text spells, so it passes over the text by the same steps as the reader, a character or an escape.
-/

namespace Stencil.Script

/-! ### What joins with the text behind it -/

/-- The code unit is the first half of a surrogate pair. -/
def isHigh (n : Nat) : Bool :=
  0xD800 ≤ n && n ≤ 0xDBFF

/-- The text begins with the escape of the second half of a surrogate pair. -/
def lowAhead : List Char → Bool
  | '\\' :: 'u' :: rest =>
    match takeHex 0 4 rest with
    | some (low, _) => 0xDC00 ≤ low && low ≤ 0xDFFF
    | none => false
  | _ => false

/-- What follows `\u` spells the first half of a surrogate pair and nothing else. -/
def isHighHalf (s : List Char) : Bool :=
  match takeUnicode s with
  | some (n, []) => isHigh n
  | _ => false

/-- The escape `spelled`, without its backslash, is not read on its own in front of `right`. -/
def escapeJoins (spelled right : List Char) : Bool :=
  (spelled == ['0'] && digitAhead right) ||
    (spelled.head? == some 'u' && isHighHalf spelled.tail && lowAhead right)

/-- The text ends in an escape that is not read on its own in front of `right`. -/
def endJoins (right : List Char) : List Char → Bool
  | '\\' :: c :: rest => escapeJoins (c :: rest) right || endJoins right rest
  | _ :: rest => endJoins right rest
  | [] => false

/-- The text ends in a dollar sign that opens a substitution in front of `right`. -/
def opens (right : List Char) : List Char → Bool
  | ['$'] => right.head? == some '{'
  | '\\' :: _ :: rest => opens right rest
  | _ :: rest => opens right rest
  | [] => false

/-- The text ends in a backslash that no character follows. -/
def dangles : List Char → Bool
  | ['\\'] => true
  | '\\' :: _ :: rest => dangles rest
  | _ :: rest => dangles rest
  | [] => false

/-- The text does not keep its reading in front of `right`: it joins with it, or it holds a return,
which reads as a line feed anywhere. -/
def breaks (text right : List Char) : Bool :=
  text.contains '\r' || opens right text || endJoins right text

/-- A text can stand before `right` if it has no carriage return, opens no substitution and joins no
escape with what follows. -/
theorem breaks_eq_false_iff {text right : List Char} : breaks text right = false ↔
    '\r' ∉ text ∧ opens right text = false ∧ endJoins right text = false := by
  simp [breaks, and_assoc]

/-! ### Step by step -/

/-- Induction over a text by the steps of the reader: an escape or a character. -/
theorem steps_induction {motive : List Char → Prop} (nil : motive []) (backslash : motive ['\\'])
    (escape : ∀ c rest, motive rest → motive ('\\' :: c :: rest))
    (plain : ∀ c rest, c ≠ '\\' → motive rest → motive (c :: rest)) (s : List Char) : motive s := by
  fun_induction dangles s with
  | case1 => exact backslash
  | case2 c rest ih => exact escape c rest ih
  -- The third case is no backslash, else one of the first two would have matched.
  | case3 c rest hlast hnext ih =>
    refine plain c rest ?_ ih
    rintro rfl
    cases rest with
    | nil => exact hlast rfl rfl
    | cons d rest => exact hnext d rest rfl rfl
  | case4 => exact nil

section Scan

variable {right a b rest : List Char} {c : Char}

/-- Only a backslash changes whether a text ends in the middle of an escape. -/
theorem dangles_cons (hc : c ≠ '\\') (rest : List Char) : dangles (c :: rest) = dangles rest := by
  rw [dangles] <;> simp [hc]

/-- Where more follows, a plain character opens nothing. -/
theorem opens_cons (hc : c ≠ '\\') (hrest : rest ≠ []) :
    opens right (c :: rest) = opens right rest := by
  rw [opens] <;> simp [hc, hrest]

/-- A plain character joins nothing. -/
theorem endJoins_cons (hc : c ≠ '\\') (rest : List Char) :
    endJoins right (c :: rest) = endJoins right rest := by
  rw [endJoins]
  simp [hc]

/-- A text that ends with all its escapes complete leaves it to what follows. -/
theorem dangles_append (ha : dangles a = false) : dangles (a ++ b) = dangles b := by
  induction a using steps_induction with
  | nil => rfl
  | backslash => cases ha
  | escape c rest ih => exact ih ha
  | plain c rest hc ih =>
    rw [dangles_cons hc] at ha
    rw [List.cons_append, dangles_cons hc]
    exact ih ha

/-- Without a backslash nothing dangles. -/
theorem dangles_of_notMem (ha : '\\' ∉ a) : dangles a = false := by
  induction a with
  | nil => rfl
  | cons c rest ih =>
    obtain ⟨hc, hrest⟩ := not_or.1 (mt List.mem_cons.2 ha)
    rw [dangles_cons (Ne.symm hc)]
    exact ih hrest

/-- What a text joins with depends on its last step only. -/
theorem opens_of_append (ha : dangles a = false) (h : opens right (a ++ b) = false) :
    opens right b = false := by
  -- Where nothing follows, nothing opens.
  cases b with
  | nil => rfl
  | cons d b =>
    induction a using steps_induction with
    | nil => exact h
    | backslash => cases ha
    | escape c rest ih => exact ih ha h
    | plain c rest hc ih =>
      rw [dangles_cons hc] at ha
      rw [List.cons_append, opens_cons hc (by simp)] at h
      exact ih ha h

/-- So an escape that joins what follows stands in the last part. -/
theorem endJoins_of_append (ha : dangles a = false) (h : endJoins right (a ++ b) = false) :
    endJoins right b = false := by
  -- Along the steps of the first part, which ends on none of its own.
  induction a using steps_induction with
  | nil => exact h
  | backslash => cases ha
  | escape c rest ih => exact ih ha (Bool.or_eq_false_iff.1 h).2
  | plain c rest hc ih =>
    rw [dangles_cons hc] at ha
    rw [List.cons_append, endJoins_cons hc] at h
    exact ih ha h

end Scan

/-! ### Escapes -/

/-- A character of a code in an escape: a digit or a brace. -/
def isCodeChar (c : Char) : Bool :=
  (hexValue? c).isSome || c == '\x7b' || c == '\x7d'

/-- A digit may stand in the code of an escape. -/
theorem isCodeChar_of_hexValue? {c : Char} {n : Nat} (h : hexValue? c = some n) :
    isCodeChar c = true := by
  simp [isCodeChar, h]

/-- What may not stand in a code is not among its digits. -/
theorem notMem_of_isCodeChar {digits : List Char} (h : ∀ d ∈ digits, isCodeChar d = true) {c : Char}
    (hc : isCodeChar c = false) : c ∉ digits := by
  intro hmem
  rw [h c hmem] at hc
  cases hc

/-- Digits are read wherever they stand. -/
theorem takeHex_spec {value count n : Nat} {s rest : List Char}
    (h : takeHex value count s = some (n, rest)) :
    ∃ digits, s = digits ++ rest ∧ (∀ d ∈ digits, isCodeChar d = true) ∧
      ∀ t, takeHex value count (digits ++ t) = some (n, t) := by
  -- Each digit is read before it is known what comes behind the last one.
  induction count generalizing value s with
  | zero =>
    cases h
    exact ⟨[], rfl, nofun, fun t => rfl⟩
  | succ count ih =>
    cases s with
    | nil => cases h
    | cons c s =>
      obtain ⟨d, hd, h⟩ := Option.bind_eq_some_iff.1 h
      obtain ⟨digits, rfl, hdigits, hread⟩ := ih h
      refine ⟨c :: digits, rfl, ?_, fun t => ?_⟩
      · exact List.forall_mem_cons.2 ⟨isCodeChar_of_hexValue? hd, hdigits⟩
      · rw [List.cons_append, takeHex, hd]
        exact hread t

/-- A code in braces is read digit by digit, the same before any text. -/
theorem takeHexToBrace_spec {value n : Nat} {s rest : List Char}
    (h : takeHexToBrace value s = some (n, rest)) :
    ∃ digits, s = digits ++ rest ∧ (∀ d ∈ digits, isCodeChar d = true) ∧
      ∀ t, takeHexToBrace value (digits ++ t) = some (n, t) := by
  -- The code ends at its brace, which is part of what is read.
  fun_induction takeHexToBrace value s with
  | case1 value rest =>
    cases h
    exact ⟨['}'], rfl, List.forall_mem_singleton.2 rfl, fun t => rfl⟩
  | case2 value c s hbrace d hd hvalue ih =>
    obtain ⟨digits, rfl, hdigits, hread⟩ := ih h
    refine ⟨c :: digits, rfl, ?_, fun t => ?_⟩
    · exact List.forall_mem_cons.2 ⟨isCodeChar_of_hexValue? hd, hdigits⟩
    · rw [List.cons_append, takeHexToBrace, hd]
      · simp [hvalue, hread t]
      · exact hbrace
  | case3 => cases h
  | case4 => cases h
  | case5 => cases h

/-- The code after `\u` is read wherever it stands, and whether it spells the second half of a pair
is told by the code alone. -/
theorem takeUnicode_spec {n : Nat} {s rest : List Char} (h : takeUnicode s = some (n, rest)) :
    ∃ u, s = u ++ rest ∧ (∀ d ∈ u, isCodeChar d = true) ∧
      (∀ t, takeUnicode (u ++ t) = some (n, t)) ∧
      ∀ t t', lowAhead ('\\' :: 'u' :: u ++ t) = lowAhead ('\\' :: 'u' :: u ++ t') := by
  -- A code in braces, or one of four digits; both start with a character that is no end.
  by_cases hbrace : ∃ s', s = '{' :: s'
  · obtain ⟨s, rfl⟩ := hbrace
    cases s with
    | nil => cases h
    | cons c s =>
      have hc : c ≠ '}' := by
        rintro rfl
        cases h
      have hnext : ∀ t, takeUnicode ('{' :: c :: t) = takeHexToBrace 0 (c :: t) := by
        intro t
        rw [takeUnicode]
        simp [hc]
      rw [hnext] at h
      obtain ⟨digits, hs, hdigits, hread⟩ := takeHexToBrace_spec h
      cases digits with
      | nil => cases hread []
      | cons d digits =>
        obtain ⟨rfl, rfl⟩ := List.cons.inj hs
        refine ⟨'{' :: c :: digits, rfl, ?_, fun t => ?_, fun t t' => rfl⟩
        · exact List.forall_mem_cons.2 ⟨rfl, hdigits⟩
        · exact (hnext _).trans (hread t)
  · have hnext : ∀ c t, c ≠ '{' → takeUnicode (c :: t) = takeHex 0 4 (c :: t) := by
      intro c t hc
      rw [takeUnicode] <;> simp [hc]
    cases s with
    | nil => cases h
    | cons c s =>
      have hc : c ≠ '{' := by
        rintro rfl
        exact hbrace ⟨s, rfl⟩
      rw [hnext c s hc] at h
      obtain ⟨digits, hs, hdigits, hread⟩ := takeHex_spec h
      cases digits with
      | nil => cases hread []
      | cons d digits =>
        obtain ⟨rfl, rfl⟩ := List.cons.inj hs
        refine ⟨c :: digits, rfl, hdigits, fun t => ?_, fun t t' => ?_⟩
        · exact (hnext c _ hc).trans (hread t)
        · -- Four digits decide by themselves whether they spell the second half.
          simp only [List.cons_append, lowAhead]
          rw [← List.cons_append, ← List.cons_append, hread t, hread t']

/-- What a low half ahead looks like: an escape with four digits in the low range. -/
theorem exists_of_lowAhead {s : List Char} (h : lowAhead s = true) :
    ∃ after low rest, s = '\\' :: 'u' :: after ∧ takeHex 0 4 after = some (low, rest) ∧
      (0xDC00 ≤ low && low ≤ 0xDFFF) = true := by
  unfold lowAhead at h
  split at h
  · next after =>
    split at h
    · next low rest hlow => exact ⟨after, low, rest, rfl, hlow, h⟩
    · cases h
  · cases h

/-- A code that does not join the next one stands for its own character. -/
theorem takeUnicodeChar_single {n : Nat} {s rest : List Char} (h : takeUnicode s = some (n, rest))
    (hjoin : (isHigh n && lowAhead rest) = false) : takeUnicodeChar s = some (charOf n, rest) := by
  unfold takeUnicodeChar
  rw [h]
  simp only [Option.bind_eq_bind, Option.bind_some]
  -- Only the first half of a pair looks at what is ahead, and `hjoin` says that no second half is
  -- there.
  split
  · next hhigh =>
    rw [isHigh, hhigh, Bool.true_and] at hjoin
    split
    · next after =>
      split
      · next low rest' hlow =>
        simp only [lowAhead, hlow] at hjoin
        rw [if_neg (by simp [hjoin])]
      · rfl
    · rfl
  · rfl

/-- A high half and a low half stand for one character. -/
theorem takeUnicodeChar_pair {high low : Nat} {s after rest : List Char}
    (h : takeUnicode s = some (high, '\\' :: 'u' :: after)) (hhigh : isHigh high = true)
    (hlow : takeHex 0 4 after = some (low, rest))
    (hrange : (0xDC00 ≤ low && low ≤ 0xDFFF) = true) :
    takeUnicodeChar s =
      some (Char.ofNat (0x10000 + (high - 0xD800) * 0x400 + (low - 0xDC00)), rest) := by
  unfold takeUnicodeChar
  rw [h]
  unfold isHigh at hhigh
  simp only [Option.bind_eq_bind, Option.bind_some]
  -- The high half is followed by an escape in the low range.
  rw [if_pos hhigh]
  simp only [hlow]
  rw [if_pos hrange]

/-- An escape after its backslash is passed over in one step: behind its first character there is no
dollar sign, and no backslash at the end. -/
def IsStep (spelled : List Char) : Prop :=
  ∃ c rest, spelled = c :: rest ∧ dangles rest = false ∧ '$' ∉ rest

/-- A character with code digits behind it is one step of a reader. -/
theorem isStep_cons (c : Char) {digits : List Char} (h : ∀ d ∈ digits, isCodeChar d = true) :
    IsStep (c :: digits) :=
  ⟨c, digits, rfl, dangles_of_notMem (notMem_of_isCodeChar h (by decide)),
    notMem_of_isCodeChar h (by decide)⟩

/-- An escape after its backslash: `spelled` stands for `value` wherever nothing behind it joins
with it. -/
structure IsEscape (spelled value : List Char) : Prop where
  /-- It holds no return. -/
  noReturn : '\r' ∉ spelled
  isStep : IsStep spelled
  reads : ∀ t, escapeJoins spelled t = false → takeEscape false (spelled ++ t) = some (value, t)
  /-- Whether it is the second half of a pair is told by the escape alone. -/
  low : ∀ t t', lowAhead ('\\' :: spelled ++ t) = lowAhead ('\\' :: spelled ++ t')

/-- What is read after `u` is an escape of one character, and it joins nothing behind it. -/
theorem takeUnicodeChar_spec {c : Char} {s rest : List Char}
    (h : takeUnicodeChar s = some (c, rest)) :
    ∃ u, s = u ++ rest ∧ IsEscape ('u' :: u) [c] ∧ escapeJoins ('u' :: u) rest = false := by
  obtain ⟨⟨n, behind⟩, hn, -⟩ := Option.bind_eq_some_iff.1 h
  obtain ⟨u, rfl, hu, hread, hlow⟩ := takeUnicode_spec hn
  have hreturn : '\r' ∉ u := notMem_of_isCodeChar hu (by decide)
  by_cases hpair : (isHigh n && lowAhead behind) = true
  · -- The two halves are read together, whatever stands behind them.
    obtain ⟨hhigh, hahead⟩ := Bool.and_eq_true_iff.1 hpair
    obtain ⟨after, low, rest', rfl, hafter, hrange⟩ := exists_of_lowAhead hahead
    obtain ⟨digits, rfl, hdigits, hread'⟩ := takeHex_spec hafter
    have hreturn' : '\r' ∉ digits := notMem_of_isCodeChar hdigits (by decide)
    have hchar := (takeUnicodeChar_pair hn hhigh hafter hrange).symm.trans h
    obtain ⟨hc, hrest⟩ := Prod.mk.inj (Option.some.inj hchar)
    subst hc hrest
    have hwhole : isHighHalf (u ++ '\\' :: 'u' :: digits) = false := by
      unfold isHighHalf
      rw [hread]
    have hjoins : ∀ t, escapeJoins ('u' :: u ++ '\\' :: 'u' :: digits) t = false := by
      intro t
      simp [escapeJoins, hwhole]
    refine ⟨u ++ '\\' :: 'u' :: digits, by simp, ⟨?_, ⟨'u', _, rfl, ?_, ?_⟩, fun t _ => ?_, ?_⟩,
      hjoins _⟩
    · simp [hreturn, hreturn']
    · rw [dangles_append (dangles_of_notMem (notMem_of_isCodeChar hu (by decide))), dangles]
      exact dangles_of_notMem (notMem_of_isCodeChar hdigits (by decide))
    · have hleft : '$' ∉ u := notMem_of_isCodeChar hu (by decide)
      have hright : '$' ∉ digits := notMem_of_isCodeChar hdigits (by decide)
      simp [hleft, hright]
    · have htake := takeUnicodeChar_pair (hread ('\\' :: 'u' :: (digits ++ t)))
        hhigh (hread' t) hrange
      simp [takeEscape, htake]
    · intro t t'
      simpa using hlow ('\\' :: 'u' :: (digits ++ t)) ('\\' :: 'u' :: (digits ++ t'))
  · rw [takeUnicodeChar_single hn (by simpa using hpair)] at h
    cases h
    have hhalf : isHighHalf u = isHigh n := by
      have hcode := hread []
      rw [List.append_nil] at hcode
      unfold isHighHalf
      rw [hcode]
    have hjoins : ∀ t, escapeJoins ('u' :: u) t = (isHigh n && lowAhead t) := by
      intro t
      simp [escapeJoins, hhalf]
    refine ⟨u, rfl, ⟨?_, isStep_cons 'u' hu, fun t ht => ?_, hlow⟩, ?_⟩
    · simp [hreturn]
    · rw [hjoins] at ht
      simp [takeEscape, takeUnicodeChar_single (hread t) ht]
    · rw [hjoins]
      simpa using hpair

/-- An escape of one character that nothing behind it joins with. -/
theorem isEscape_char {c : Char} {value : List Char} (hreturn : c ≠ '\r') (hu : c ≠ 'u')
    (h : ∀ t, escapeJoins [c] t = false → takeEscape false (c :: t) = some (value, t)) :
    IsEscape [c] value := by
  refine ⟨by simpa using Ne.symm hreturn, isStep_cons c nofun, h, fun t t' => ?_⟩
  simp [lowAhead, hu]

/-- Without carriage returns there is nothing to normalise. -/
theorem lineFeeds_of_notMem {s : List Char} (h : '\r' ∉ s) : lineFeeds s = s := by
  induction s with
  | nil => rfl
  | cons c rest ih =>
    obtain ⟨hc, hrest⟩ := not_or.1 (mt List.mem_cons.2 h)
    rw [lineFeeds]
    · rw [if_neg (Ne.symm hc), ih hrest]
    · simp [Ne.symm hc]

/-- The letters that begin an escape with a meaning of its own, and the return. -/
def isEscapeLetter (c : Char) : Bool :=
  ['\r', 'n', 't', 'r', 'b', 'v', 'f', 'x', 'u'].contains c

/-- An escape of another character: a line end stands for nothing, and `\0` needs to know what
follows it. -/
theorem takeEscape_other {c : Char} (hc : isEscapeLetter c = false) (t : List Char) :
    takeEscape false (c :: t) =
      if isLineEnd c then some ([], t)
      else if c = '0' && !digitAhead t then some ([Char.ofNat 0], t)
      else if c.isDigit then none else some ([c], t) := by
  simp only [isEscapeLetter, List.contains_eq_mem, decide_eq_false_iff_not, List.mem_cons,
    not_or] at hc
  rw [takeEscape] <;> simp [hc]

/-- A backslash before any other character stands for that character. -/
theorem isEscape_other {c : Char} {t value rest : List Char} (hc : isEscapeLetter c = false)
    (h : takeEscape false (c :: t) = some (value, rest)) :
    t = rest ∧ IsEscape [c] value ∧ escapeJoins [c] rest = false := by
  obtain ⟨hreturn, hu⟩ : c ≠ '\r' ∧ c ≠ 'u' := by
    constructor <;>
    · rintro rfl
      cases hc
  -- A single character joins with a digit, if it is a zero, and with nothing else.
  have hjoins : ∀ t, escapeJoins [c] t = (c == '0' && digitAhead t) := by
    intro t
    simp [escapeJoins, hu]
  rw [takeEscape_other hc] at h
  split at h
  · next hend =>
    have hzero : (c == '0') = false := by
      rw [beq_eq_false_iff_ne]
      rintro rfl
      cases hend
    cases h
    refine ⟨rfl, isEscape_char hreturn hu fun t _ => ?_, by rw [hjoins, hzero, Bool.false_and]⟩
    rw [takeEscape_other hc, if_pos hend]
  · next hend =>
    split at h
    · next hzero =>
      obtain ⟨hzero, hdigit⟩ := Bool.and_eq_true_iff.1 hzero
      cases of_decide_eq_true hzero
      cases h
      refine ⟨rfl, isEscape_char hreturn hu fun t ht => ?_, ?_⟩
      · have hnone : digitAhead t = false := by simpa [hjoins] using ht
        rw [takeEscape_other hc, if_neg hend, hnone]
        rfl
      · rw [hjoins]
        simpa using hdigit
    · split at h
      · cases h
      · next hdigit =>
        have hzero : c ≠ '0' := by
          rintro rfl
          exact hdigit rfl
        cases h
        refine ⟨rfl, isEscape_char hreturn hu fun t _ => ?_, by rw [hjoins]; simp [hzero]⟩
        rw [takeEscape_other hc, if_neg hend, if_neg (by simp [hzero]), if_neg hdigit]

/-- **What is taken as an escape is one**, with its line end as it is kept. -/
theorem takeEscape_spec {s value rest : List Char}
    (h : takeEscape false s = some (value, rest)) :
    ∃ spelled, s = spelled ++ rest ∧ IsStep spelled ∧ IsEscape (lineFeeds spelled) value ∧
      escapeJoins (lineFeeds spelled) rest = false ∧
      ∀ t, lowAhead ('\\' :: lineFeeds spelled ++ t) = lowAhead ('\\' :: s) := by
  -- Only a line end is not kept as it is spelled.
  have hkept : ∀ spelled, s = spelled ++ rest → IsEscape spelled value →
      escapeJoins spelled rest = false → ∃ spelled, s = spelled ++ rest ∧ IsStep spelled ∧
        IsEscape (lineFeeds spelled) value ∧ escapeJoins (lineFeeds spelled) rest = false ∧
        ∀ t, lowAhead ('\\' :: lineFeeds spelled ++ t) = lowAhead ('\\' :: s) := by
    rintro spelled rfl hspelled hjoins
    refine ⟨spelled, rfl, hspelled.isStep, ?_⟩
    rw [lineFeeds_of_notMem hspelled.noReturn]
    exact ⟨hspelled, hjoins, fun t => hspelled.low t rest⟩
  have hfeed : IsEscape ['\n'] [] := isEscape_char (by decide) (by decide) fun t _ => rfl
  cases s with
  | nil => cases h
  | cons c s =>
    by_cases hc : isEscapeLetter c = false
    · obtain ⟨rfl, hescape, hjoins⟩ := isEscape_other hc h
      exact hkept [c] rfl hescape hjoins
    have hletter : c ∈ ['\r', 'n', 't', 'r', 'b', 'v', 'f', 'x', 'u'] :=
      List.contains_iff_mem.1 (Bool.not_eq_false _ ▸ hc)
    simp only [List.mem_cons, List.not_mem_nil, or_false] at hletter
    rcases hletter with rfl | rfl | rfl | rfl | rfl | rfl | rfl | rfl | rfl
    · -- A return, with a line feed behind it or without one.
      by_cases hnext : ∃ t, s = '\n' :: t
      · obtain ⟨t, rfl⟩ := hnext
        cases h
        exact ⟨['\r', '\n'], rfl, ⟨'\r', ['\n'], rfl, rfl, by decide⟩, hfeed, rfl, fun t => rfl⟩
      · have halone : takeEscape false ('\r' :: s) = some ([], s) := by
          rw [takeEscape]
          · rfl
          all_goals simp_all
        cases halone.symm.trans h
        exact ⟨['\r'], rfl, isStep_cons '\r' nofun, hfeed, rfl, fun t => rfl⟩
    · cases h
      exact hkept ['n'] rfl (isEscape_char (by decide) (by decide) fun t _ => rfl) rfl
    · cases h
      exact hkept ['t'] rfl (isEscape_char (by decide) (by decide) fun t _ => rfl) rfl
    · cases h
      exact hkept ['r'] rfl (isEscape_char (by decide) (by decide) fun t _ => rfl) rfl
    · cases h
      exact hkept ['b'] rfl (isEscape_char (by decide) (by decide) fun t _ => rfl) rfl
    · cases h
      exact hkept ['v'] rfl (isEscape_char (by decide) (by decide) fun t _ => rfl) rfl
    · cases h
      exact hkept ['f'] rfl (isEscape_char (by decide) (by decide) fun t _ => rfl) rfl
    · obtain ⟨⟨n, behind⟩, hn, h⟩ := Option.map_eq_some_iff.1 h
      cases h
      obtain ⟨digits, rfl, hdigits, hread⟩ := takeHex_spec hn
      have hreturn : '\r' ∉ digits := notMem_of_isCodeChar hdigits (by decide)
      refine hkept ('x' :: digits) rfl
        ⟨by simp [hreturn], isStep_cons 'x' hdigits, fun t _ => ?_, fun t t' => rfl⟩ rfl
      simp [takeEscape, hread t]
    · obtain ⟨⟨c, behind⟩, hc, h⟩ := Option.map_eq_some_iff.1 h
      cases h
      obtain ⟨u, rfl, hu, hjoins⟩ := takeUnicodeChar_spec hc
      exact hkept ('u' :: u) rfl hu hjoins

/-! ### Reading in front of a text -/

/-- The text reads as the value inside a template literal, in front of `after`. -/
inductive Reads (after : List Char) : List Char → List Char → Prop where
  | nil : Reads after [] []
  | plain {c : Char} {text value : List Char} (htick : c ≠ '`') (hbackslash : c ≠ '\\')
    (hreturn : c ≠ '\r') (hopen : c = '$' → (text ++ after).head? ≠ some '{')
    (h : Reads after text value) : Reads after (c :: text) (c :: value)
  | escape {spelled v text value : List Char} (hspelled : IsEscape spelled v)
    (hjoins : escapeJoins spelled (text ++ after) = false) (h : Reads after text value) :
    Reads after ('\\' :: spelled ++ text) (v ++ value)

/-- The end of a run, and the text behind it. -/
inductive Stop : List Char → RunEnd → List Char → Prop where
  | literal (rest : List Char) : Stop ('`' :: rest) .literal rest
  | substitution (rest : List Char) : Stop ('$' :: '{' :: rest) .substitution rest

section Reads

variable {after text value a b va vb : List Char}

/-- Two texts that are read one before the other are read together. -/
theorem reads_append (ha : Reads (b ++ after) a va) (hb : Reads after b vb) :
    Reads after (a ++ b) (va ++ vb) := by
  induction ha with
  | nil => exact hb
  | plain htick hbackslash hreturn hopen _ ih =>
    rw [List.cons_append, List.cons_append]
    -- What follows a character is looked at, so the text behind both parts has to be one.
    refine .plain htick hbackslash hreturn ?_ ih
    rwa [List.append_assoc]
  | escape hspelled hjoins _ ih =>
    rw [List.append_assoc, List.append_assoc]
    -- The same for an escape, which may join what follows.
    refine .escape hspelled ?_ ih
    rwa [List.append_assoc]

/-- What was read to its end has all its escapes complete. -/
theorem Reads.dangles_eq_false (h : Reads after text value) : dangles text = false := by
  induction h with
  | nil => rfl
  | plain _ hbackslash _ _ _ ih =>
    rw [dangles_cons hbackslash]
    exact ih
  | escape hspelled _ _ ih =>
    obtain ⟨c, rest, rfl, hrest, -⟩ := hspelled.isStep
    exact (dangles_append hrest).trans ih

/-- What the reader can see of a text without reading it. -/
structure SameAhead (s t : List Char) : Prop where
  brace : s.head? = some '{' ↔ t.head? = some '{'
  digit : digitAhead s = digitAhead t
  low : lowAhead s = lowAhead t

/-- Texts that begin alike look alike from before, if both or neither have a low half ahead. -/
theorem SameAhead.of_head {s t : List Char} (h : s.head? = t.head?) (hs : lowAhead s = lowAhead t) :
    SameAhead s t := by
  refine ⟨by rw [h], ?_, hs⟩
  cases s <;> cases t <;> simp_all [digitAhead]

/-- An escape joins what it sees ahead, and it sees no further. -/
theorem escapeJoins_congr {s t : List Char} (h : SameAhead s t) (spelled : List Char) :
    escapeJoins spelled s = escapeJoins spelled t := by
  unfold escapeJoins
  rw [h.digit, h.low]

/-- A low half ahead begins with a backslash. -/
theorem lowAhead_of_ne {c : Char} (hc : c ≠ '\\') (s : List Char) : lowAhead (c :: s) = false := by
  unfold lowAhead
  split
  · next heq => exact absurd (List.cons.inj heq).1 hc
  · rfl

/-- Of a character that begins no escape, only its kind is seen. -/
theorem SameAhead.of_plain {c d : Char} {s t : List Char} (hc : c ≠ '\\') (hd : d ≠ '\\')
    (hbrace : c = '{' ↔ d = '{') (hdigit : c.isDigit = d.isDigit) :
    SameAhead (c :: s) (d :: t) := by
  refine ⟨by simpa using hbrace, hdigit, ?_⟩
  rw [lowAhead_of_ne hc, lowAhead_of_ne hd]

/-- What is seen of a text that is read is seen of it alone. -/
theorem Reads.sameAhead (h : Reads after text value) (hne : text ≠ []) (t t' : List Char) :
    SameAhead (text ++ t) (text ++ t') := by
  -- By the first step of the text, which is there whatever follows.
  cases h with
  | nil => exact absurd rfl hne
  | plain _ hbackslash _ _ _ =>
    refine .of_head rfl ?_
    rw [List.cons_append, List.cons_append, lowAhead_of_ne hbackslash, lowAhead_of_ne hbackslash]
  | escape hspelled _ _ =>
    refine .of_head rfl ?_
    rw [List.append_assoc, List.append_assoc]
    exact hspelled.low _ _

/-- **A text reads in front of every text that it does not join with.** -/
theorem Reads.behind (h : Reads after text value) {right : List Char}
    (hright : opens right text = false) (hend : endJoins right text = false) :
    Reads right text value := by
  -- At each step what is ahead is either `right` itself, at the end of the text, or more of the
  -- text.
  induction h with
  | nil => exact .nil
  | @plain c text value htick hbackslash hreturn hopen htext ih =>
    rw [endJoins_cons hbackslash] at hend
    by_cases hne : text = []
    · subst hne
      refine .plain htick hbackslash hreturn (fun hc => ?_) (ih rfl rfl)
      subst hc
      simpa [opens] using hright
    · rw [opens_cons hbackslash hne] at hright
      refine .plain htick hbackslash hreturn (fun hc => ?_) (ih hright hend)
      rw [Ne, (htext.sameAhead hne right after).brace]
      exact hopen hc
  | @escape spelled v text value hspelled hjoins htext ih =>
    obtain ⟨c, rest, rfl, hrest, -⟩ := hspelled.isStep
    have hopens : opens right text = false := opens_of_append hrest hright
    rw [List.cons_append, List.cons_append, endJoins, Bool.or_eq_false_iff] at hend
    obtain ⟨hjoin, hend⟩ := hend
    refine .escape hspelled ?_ (ih hopens (endJoins_of_append hrest hend))
    by_cases hne : text = []
    · subst hne
      rwa [List.append_nil] at hjoin
    · rw [escapeJoins_congr (htext.sameAhead hne right after)]
      exact hjoins

/-- Only what is seen of the text behind matters. -/
theorem Reads.congr {after' : List Char} (h : Reads after text value)
    (hahead : SameAhead after after') : Reads after' text value := by
  -- In front of either text behind it, a text that is not empty is seen alike.
  have hsame : ∀ {text value}, Reads after text value →
      SameAhead (text ++ after) (text ++ after') := by
    intro text value h
    by_cases hne : text = []
    · subst hne
      exact hahead
    · exact h.sameAhead hne after after'
  induction h with
  | nil => exact .nil
  | plain htick hbackslash hreturn hopen htext ih =>
    refine .plain htick hbackslash hreturn (fun hc => ?_) ih
    rw [Ne, ← (hsame htext).brace]
    exact hopen hc
  | escape hspelled hjoins htext ih =>
    refine .escape hspelled ?_ ih
    rwa [← escapeJoins_congr (hsame htext)]

end Reads

/-! ### Runs -/

section Runs

variable {after rest text value : List Char} {stop : RunEnd}

/-- What is consumed up to the rest is what stands before it. -/
theorem consumed_append (text rest : List Char) : consumed (text ++ rest) rest = text := by
  simp [consumed]

/-- A run takes an escape whole, its spelling with line feeds only. -/
theorem takeRun_escape {s after value : List Char} (h : takeEscape false s = some (value, after))
    (bound : Nat) : takeRun (bound + 1) ('\\' :: s) =
      (takeRun bound after).map (·.prepend ('\\' :: lineFeeds (consumed s after))
        (some value)) := by
  rw [takeRun.eq_def]
  simp only [h]

/-- A run takes a plain character as it is. -/
theorem takeRun_plain {c : Char} {s : List Char} (htick : c ≠ '`') (hbackslash : c ≠ '\\')
    (hreturn : c ≠ '\r') (hopen : c = '$' → s.head? ≠ some '{') (bound : Nat) :
    takeRun (bound + 1) (c :: s) = (takeRun bound s).map (·.prepend [c] (some [c])) := by
  have hdollar : ∀ t, c = '$' → s = '{' :: t → False := by
    rintro t hc rfl
    exact hopen hc rfl
  rw [takeRun]
  · simp [hreturn]
  all_goals simp_all

/-- **What reads in front of the end of a run is taken as the run.** -/
theorem takeRun_of_reads (hstop : Stop after stop rest) (h : Reads after text value) {bound : Nat}
    (hbound : text.length < bound) :
    takeRun bound (text ++ after) = some ⟨text, some value, stop, rest⟩ := by
  -- By induction on how the text reads; each step of it is one step of the reader.
  induction h generalizing bound with
  | nil =>
    obtain ⟨bound, rfl⟩ : ∃ k, bound = k + 1 := ⟨bound - 1, by simp at hbound; omega⟩
    cases hstop <;> rfl
  | @plain c text value htick hbackslash hreturn hopen _ ih =>
    rw [List.length_cons] at hbound
    obtain ⟨bound, rfl⟩ : ∃ k, bound = k + 1 := ⟨bound - 1, by omega⟩
    rw [List.cons_append, takeRun_plain htick hbackslash hreturn hopen, ih (by omega)]
    rfl
  | @escape spelled v text value hspelled hjoins _ ih =>
    rw [List.cons_append, List.length_cons, List.length_append] at hbound
    obtain ⟨bound, rfl⟩ : ∃ k, bound = k + 1 := ⟨bound - 1, by omega⟩
    rw [List.append_assoc, List.cons_append, takeRun_escape (hspelled.reads _ hjoins),
      consumed_append, lineFeeds_of_notMem hspelled.noReturn, ih (by omega)]
    rfl

/-- The end of a run shows neither a brace, nor a digit, nor an escape. -/
theorem Stop.sameAhead {after' : List Char} {stop' : RunEnd} {rest' : List Char}
    (h : Stop after stop rest) (h' : Stop after' stop' rest') : SameAhead after after' := by
  cases h <;> cases h' <;> exact .of_plain (by decide) (by decide) (by decide) (by decide)

/-- The text of a run, as it is kept, reads in front of every end of a run, and what is seen of it
is what was seen of the text that it was taken from. -/
theorem reads_of_takeRun_aux {bound : Nat} {s : List Char} {r : Run} (h : takeRun bound s = some r)
    (hvalue : r.cooked = some value) (hstop : Stop after stop rest) :
    Reads after r.raw value ∧ SameAhead (r.raw ++ after) s := by
  -- Along the reader of runs. A step keeps what is ahead visible, so that the step before it is
  -- judged the same in front of the kept text and of the original one.
  fun_induction takeRun bound s generalizing r value with
  | case1 => cases h
  | case2 => cases h
  | case3 bound s =>
    cases h
    cases hvalue
    exact ⟨.nil, hstop.sameAhead (.literal s)⟩
  | case4 bound s =>
    cases h
    cases hvalue
    exact ⟨.nil, hstop.sameAhead (.substitution s)⟩
  -- An escape. It joined with nothing in the original text, so it joins with nothing in the kept
  -- one.
  | case5 bound s v behind hescape ih =>
    obtain ⟨r, hr, rfl⟩ := Option.map_eq_some_iff.1 h
    obtain ⟨cooked, hcooked, rfl⟩ := Option.map_eq_some_iff.1 hvalue
    obtain ⟨hreads, hahead⟩ := ih hr hcooked
    obtain ⟨spelled, rfl, -, hspelled, hjoins, hlow⟩ := takeEscape_spec hescape
    rw [← escapeJoins_congr hahead] at hjoins
    rw [consumed_append]
    refine ⟨.escape hspelled hjoins hreads, .of_head rfl ?_⟩
    exact (congrArg lowAhead (List.append_assoc _ _ _)).trans (hlow _)
  | case6 bound c s hescape ih =>
    obtain ⟨r, hr, rfl⟩ := Option.map_eq_some_iff.1 h
    cases hvalue
  | case7 => cases h
  | case8 bound s ih =>
    obtain ⟨r, hr, rfl⟩ := Option.map_eq_some_iff.1 h
    obtain ⟨cooked, hcooked, rfl⟩ := Option.map_eq_some_iff.1 hvalue
    obtain ⟨hreads, hahead⟩ := ih hr hcooked
    exact ⟨.plain (by decide) (by decide) (by decide) nofun hreads,
      .of_plain (by decide) (by decide) (by decide) (by decide)⟩
  | case9 bound c s htick hopen hbackslash _ kept =>
    rename_i ih
    obtain ⟨r, hr, rfl⟩ := Option.map_eq_some_iff.1 h
    obtain ⟨cooked, hcooked, rfl⟩ := Option.map_eq_some_iff.1 hvalue
    obtain ⟨hreads, hahead⟩ := ih hr hcooked
    -- A return is kept as a line feed, and any other plain character as it is.
    by_cases hreturn : c = '\r'
    · subst hreturn
      have hfeed : ('\n' : Char) = '$' → (r.raw ++ after).head? ≠ some '{' := nofun
      exact ⟨.plain (by decide) (by decide) (by decide) hfeed hreads,
        .of_plain (by decide) (by decide) (by decide) (by decide)⟩
    · have hkept : kept = c := if_neg hreturn
      rw [hkept]
      refine ⟨.plain htick hbackslash hreturn (fun hc hbrace => ?_) hreads,
        .of_plain hbackslash hbackslash Iff.rfl rfl⟩
      obtain ⟨t, ht⟩ := List.head?_eq_some_iff.1 (hahead.brace.1 hbrace)
      exact hopen t hc ht

/-- **The text of a run, as it is kept, reads in front of every end of a run.** -/
theorem reads_of_takeRun {bound : Nat} {s : List Char} {r : Run} (h : takeRun bound s = some r)
    (hvalue : r.cooked = some value) (hstop : Stop after stop rest) : Reads after r.raw value :=
  (reads_of_takeRun_aux h hvalue hstop).1

end Runs

/-- The run of a template literal reads as it says, in front of every end of a run. -/
def Quasi.WellRead (q : Quasi) : Prop :=
  ∀ {after stop rest}, Stop after stop rest → Reads after q.raw.toList q.cooked.toList

end Stencil.Script
