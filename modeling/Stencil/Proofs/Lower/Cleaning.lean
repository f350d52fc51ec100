import Mathlib.Data.List.DropRight
import Mathlib.Data.List.Induction
import Stencil.Lower.Text
import Stencil.Proofs.Text.Split

/-!
# Cleaned texts

A text between tags is cleaned in one run over its lines: each line is trimmed by its place, and
the line behind it is prepared for by a space, unless the last line with content is reached. This
module gives the rule that this comes to.

* `keptLines` — the lines of a text with their margins removed, without those that are left empty;
* `toList_cleanText` — a cleaned text is these lines with one space between each two of them;
* `filter_keptLines` — these lines hold every character that is no margin, in the same order.

The run decides on spaces by the lines before they are trimmed, and on emptiness by the lines after
that. The two agree behind the first line (`Line.trimmed_ne_nil`, `Line.trimmed_eq_nil`). A first
line of spaces alone differs only where it is the last line too, and no space is at stake there.

The main theorem is `cleanText_eq_rule`.
-/

namespace Stencil.Lower

/-! ### The rule -/

/-- Changes every line behind the first one. -/
def behindFirst (f : List Char → List Char) : List (List Char) → List (List Char)
  | [] => []
  | first :: rest => first :: rest.map f

/-- Changes every line before the last one. -/
def beforeLast (f : List Char → List Char) : List (List Char) → List (List Char)
  | [] => []
  | [last] => [last]
  | line :: next :: rest => f line :: beforeLast f (next :: rest)

/-- A line without the carriage returns at its end, and with its tabs as spaces. -/
def spaced (line : List Char) : List Char :=
  (line.rdropWhile (· == '\r')).map fun c => if c = '\t' then ' ' else c

/-- **The lines that are kept of a text**: cut at the line feeds, without the spaces at the start of
every line but the first and those at the end of every line but the last, if anything is left. -/
def keptLines (raw : List Char) : List (List Char) :=
  (beforeLast (List.rdropWhile (· == ' '))
    (behindFirst (List.dropWhile (· == ' ')) ((raw.splitOn '\n').map spaced))).filter (· ≠ [])

/-- The character is more than a margin. -/
def isInk (c : Char) : Bool :=
  c != ' ' && c != '\t' && c != '\r' && c != '\n'

/-! ### What trimming keeps -/

section

variable {p v : Char → Bool}

/-- Dropping characters that do not count leaves those that do. -/
theorem filter_dropWhile (h : ∀ c, p c = true → v c = false) (s : List Char) :
    (s.dropWhile p).filter v = s.filter v := by
  have hnone : (s.takeWhile p).filter v = [] :=
    List.filter_eq_nil_iff.2 fun c hc => by simp [h c (List.mem_takeWhile_imp hc)]
  conv_rhs => rw [← List.takeWhile_append_dropWhile (p := p) (l := s), List.filter_append, hnone]
  rfl

theorem filter_rdropWhile (h : ∀ c, p c = true → v c = false) (s : List Char) :
    (s.rdropWhile p).filter v = s.filter v := by
  unfold List.rdropWhile
  rw [List.filter_reverse, filter_dropWhile h, List.filter_reverse, List.reverse_reverse]

/-- Spaces may stand for tabs where neither counts. -/
theorem filter_tabs (hspace : v ' ' = false) (htab : v '\t' = false) (s : List Char) :
    (s.map fun c => if c = '\t' then ' ' else c).filter v = s.filter v := by
  induction s with
  | nil => rfl
  | cons c s ih =>
    rw [List.map_cons, List.filter_cons, List.filter_cons, ih]
    by_cases hc : c = '\t'
    · rw [hc, if_pos rfl, hspace, htab]
      rfl
    · rw [if_neg hc]

/-- Trimming a line takes nothing away but spaces and tabs. -/
theorem Line.filter_trimmed (hspace : v ' ' = false) (htab : v '\t' = false) (l : Line) :
    l.trimmed.filter v = l.chars.filter v := by
  have hspaces : ∀ c : Char, (c == ' ') = true → v c = false := fun c hc => by
    rw [beq_iff_eq.1 hc, hspace]
  have hmap := filter_tabs hspace htab l.chars
  -- The start is trimmed away behind the first line, and the end before the last.
  have hstart : (if l.isFirst then l.chars.map fun c => if c = '\t' then ' ' else c
      else (l.chars.map fun c => if c = '\t' then ' ' else c).dropWhile (· == ' ')).filter v
        = l.chars.filter v := by
    split
    · exact hmap
    · exact (filter_dropWhile hspaces _).trans hmap
  unfold trimmed
  dsimp only
  split
  · exact hstart
  · exact (filter_rdropWhile hspaces _).trans hstart

end

/-- A line has content if it is more than blanks and tabs. -/
theorem hasContent_iff {s : List Char} :
    hasContent s = true ↔ s.filter (fun c => c != ' ' && c != '\t') ≠ [] := by
  rw [hasContent, List.any_eq_true, ne_eq, List.filter_eq_nil_iff]
  push Not
  rfl

/-- A line with content keeps it. -/
theorem Line.trimmed_ne_nil {l : Line} (h : hasContent l.chars = true) : l.trimmed ≠ [] := by
  intro hnil
  refine hasContent_iff.1 h ?_
  rw [← filter_trimmed rfl rfl, hnil]
  rfl

/-- A line without content is given up, if it is not the first one. -/
theorem Line.trimmed_eq_nil {l : Line} (h : hasContent l.chars = false)
    (hfirst : l.isFirst = false) :
    l.trimmed = [] := by
  have hspaces : (l.chars.map fun c => if c = '\t' then ' ' else c).dropWhile (· == ' ') = [] := by
    rw [List.dropWhile_eq_nil_iff]
    refine List.forall_mem_map.2 fun c hc => ?_
    -- A character that is no content is a space or a tab, so the trimming at the start takes all of
    -- them.
    have hmargin : c = ' ' ∨ c = '\t' := by
      have hcontent := List.any_eq_false.1 h c hc
      by_contra hnot
      simp_all
    rcases hmargin with rfl | rfl <;> rfl
  unfold trimmed
  dsimp only
  rw [hfirst, if_neg Bool.false_ne_true, hspaces]
  split <;> rfl

/-! ### The lines by their places -/

section

variable (f : List Char → List Char)

/-- Changing the lines behind the first one keeps their number. -/
@[simp] theorem length_behindFirst (ls : List (List Char)) :
    (behindFirst f ls).length = ls.length := by
  cases ls with
  | nil => rfl
  | cons first rest => simp [behindFirst]

/-- The first line stays, all others are changed. -/
theorem getElem?_behindFirst (ls : List (List Char)) (i : Nat) :
    (behindFirst f ls)[i]? = ls[i]?.map fun line => if i == 0 then line else f line := by
  cases ls with
  | nil => rfl
  | cons first rest =>
    cases i with
    | zero => rfl
    | succ i => exact List.getElem?_map

/-- The last line stays, all others are changed. -/
theorem getElem?_beforeLast (ls : List (List Char)) (i : Nat) :
    (beforeLast f ls)[i]? = ls[i]?.map fun line => if i + 1 == ls.length then line else f line := by
  fun_induction beforeLast f ls generalizing i with
  | case1 => rfl
  | case2 last => cases i <;> rfl
  | case3 line next rest ih =>
    cases i with
    | zero => rfl
    | succ i => simpa using ih i

variable {f} {v : Char → Bool}

/-- A change that keeps what counts in each line keeps it in all of them. -/
theorem filter_flatten_behindFirst (h : ∀ s, (f s).filter v = s.filter v) (ls : List (List Char)) :
    (behindFirst f ls).flatten.filter v = ls.flatten.filter v := by
  cases ls with
  | nil => rfl
  | cons first rest =>
    simp only [behindFirst, List.flatten_cons, List.filter_append, List.filter_flatten,
      List.map_map]
    exact congrArg (_ ++ List.flatten ·) (List.map_congr_left fun s _ => h s)

/-- The same for the lines before the last one. -/
theorem filter_flatten_beforeLast (h : ∀ s, (f s).filter v = s.filter v) (ls : List (List Char)) :
    (beforeLast f ls).flatten.filter v = ls.flatten.filter v := by
  fun_induction beforeLast f ls with
  | case1 => rfl
  | case2 last => rfl
  | case3 line next rest ih =>
    rw [List.flatten_cons, List.filter_append, h, ih, List.flatten_cons (l := line),
      List.filter_append]

end

/-- The lines as they are trimmed, one after the other. -/
def trimmedLines (lines : List (List Char)) : List (List Char) :=
  lines.zipIdx.map fun (chars, i) => Line.trimmed ⟨chars, i == 0, i + 1 == lines.length⟩

/-- Trimming each line by its place is changing all lines but the first, then all but the last. -/
theorem trimmedLines_eq (lines : List (List Char)) :
    trimmedLines lines = beforeLast (List.rdropWhile (· == ' '))
      (behindFirst (List.dropWhile (· == ' '))
        (lines.map (List.map fun c => if c = '\t' then ' ' else c))) := by
  -- Line by line: which margins are trimmed depends on the number of the line only.
  refine List.ext_getElem? fun i => ?_
  rw [getElem?_beforeLast, getElem?_behindFirst, length_behindFirst, List.length_map,
    List.getElem?_map, trimmedLines, List.getElem?_map, List.getElem?_zipIdx]
  cases lines[i]? with
  | none => rfl
  | some chars =>
    simp only [Option.map_some, Nat.zero_add]
    rfl

/-! ### The last line with content -/

/-- The last line with content is the new one, if it has any. -/
theorem lastContent_append (lines : List (List Char)) (line : List Char) :
    lastContent (lines ++ [line]) =
      if hasContent line then lines.length else lastContent lines := by
  simp [lastContent, List.zipIdx_append, List.foldl_append]

/-- Behind the last line with content nothing follows that has content. Only a first line may
stand for it without content. -/
theorem exists_append_lastContent (lines : List (List Char)) (h : lines ≠ []) :
    ∃ front line back, lines = front ++ line :: back ∧ front.length = lastContent lines ∧
      (∀ chars ∈ back, hasContent chars = false) ∧ (front = [] ∨ hasContent line = true) := by
  -- From the end: the last line is the one that is looked for, or it goes to the back.
  induction lines using List.reverseRecOn with
  | nil => exact absurd rfl h
  | append_singleton lines line ih =>
    rw [lastContent_append]
    by_cases hline : hasContent line = true
    · rw [if_pos hline]
      exact ⟨lines, line, [], rfl, rfl, by simp, .inr hline⟩
    · rw [if_neg hline]
      by_cases hne : lines = []
      · subst hne
        exact ⟨[], line, [], rfl, rfl, by simp, .inl rfl⟩
      · obtain ⟨front, last, back, rfl, hlength, hback, hlast⟩ := ih hne
        refine ⟨front, last, back ++ [line], by simp, hlength, fun chars hchars => ?_, hlast⟩
        rcases List.mem_append.1 hchars with hmem | hmem
        · exact hback chars hmem
        · rw [List.mem_singleton.1 hmem]
          exact Bool.eq_false_iff.2 hline

/-! ### The spaces between lines -/

/-- A space behind every line that is not empty, up to a last one, joins these lines. -/
theorem flatten_eq_intercalate {front back : List (List Char)} {line : List Char}
    (hback : ∀ chars ∈ back, chars = []) (hline : front = [] ∨ line ≠ []) :
    (front.map fun chars => if chars.isEmpty then [] else chars ++ [' ']).flatten ++ line =
      [' '].intercalate ((front ++ line :: back).filter (· ≠ [])) := by
  have hnone : back.filter (· ≠ []) = [] :=
    List.filter_eq_nil_iff.2 fun chars hchars => by simp [hback chars hchars]
  rw [List.filter_append, List.filter_cons, hnone]
  by_cases hempty : line = []
  · -- The line is empty only where there is none before it.
    obtain rfl := hline.resolve_right (not_not.2 hempty)
    subst hempty
    rfl
  · -- Each line in front is followed by one space if it is kept, and it is not the last one kept,
    -- as `line` is.
    rw [if_pos (by simpa using hempty)]
    clear hline
    induction front with
    | nil => simp
    | cons first front ih =>
      rw [List.map_cons, List.flatten_cons, List.append_assoc, ih, List.filter_cons]
      by_cases hfirst : first = []
      · subst hfirst
        rfl
      · rw [if_neg (by simpa using hfirst), if_pos (by simpa using hfirst), List.cons_append,
          List.intercalate_cons_of_ne_nil (by simp)]

section

variable (trim : List Char × Nat → List Char)

/-- What comes of a line and its number: the trimmed line, and a space behind it if it is not the
last one, or nothing if there is nothing left of it. -/
def separated (last : Nat) (place : List Char × Nat) : List Char :=
  if (trim place).isEmpty then []
  else if place.2 == last then trim place else trim place ++ [' ']

variable {trim} {last : Nat} {place : List Char × Nat}

/-- A line before the last one with content is followed by a blank, if anything is left of it. -/
theorem separated_of_ne (h : place.2 ≠ last) :
    separated trim last place =
      (fun chars => if chars.isEmpty then [] else chars ++ [' ']) (trim place) := by
  rw [separated, beq_eq_false_iff_ne.2 h, if_neg Bool.false_ne_true]

/-- The last one is not. -/
theorem separated_last (line : List Char) :
    separated trim last (line, last) = trim (line, last) := by
  rw [separated, beq_self_eq_true, if_pos rfl]
  split
  · exact (List.isEmpty_iff.1 ‹_›).symm
  · rfl

/-- Nothing is left of a line that is trimmed away. -/
theorem separated_of_nil (h : trim place = []) : separated trim last place = [] := by
  rw [separated, h]
  rfl

variable (trim) in
/-- The same for lines that are trimmed on the way. -/
theorem flatten_separated {front back : List (List Char)} {line : List Char}
    (hback : ∀ place ∈ back.zipIdx (front.length + 1), trim place = [])
    (hline : front = [] ∨ trim (line, front.length) ≠ []) :
    ((front ++ line :: back).zipIdx.map (separated trim front.length)).flatten =
      [' '].intercalate (((front ++ line :: back).zipIdx.map trim).filter (· ≠ [])) := by
  -- The lines in front are those with smaller numbers.
  have hfront : front.zipIdx.map (separated trim front.length) =
      (front.zipIdx.map trim).map fun chars => if chars.isEmpty then [] else chars ++ [' '] := by
    rw [List.map_map]
    refine List.map_congr_left fun place hplace => separated_of_ne (Nat.ne_of_lt ?_)
    simpa using List.snd_lt_of_mem_zipIdx hplace
  have hnone : ((back.zipIdx (front.length + 1)).map (separated trim front.length)).flatten = [] :=
    List.flatten_eq_nil_iff.2 (List.forall_mem_map.2 fun place hplace =>
      separated_of_nil (hback place hplace))
  rw [List.zipIdx_append, List.zipIdx_cons, List.map_append, List.map_append, List.map_cons,
    List.map_cons, Nat.zero_add, List.flatten_append, List.flatten_cons, hfront, separated_last,
    hnone, List.append_nil]
  refine flatten_eq_intercalate (List.forall_mem_map.2 hback) (hline.imp_left fun h => ?_)
  rw [h]
  rfl

end

/-- A separator that does not count adds nothing. -/
theorem filter_intercalate {v : Char → Bool} (separator : Char) (h : v separator = false)
    (ls : List (List Char)) : ([separator].intercalate ls).filter v = ls.flatten.filter v := by
  induction ls with
  | nil => rfl
  | cons first rest ih =>
    -- There is no separator behind the last line.
    by_cases hrest : rest = []
    · simp [hrest]
    · rw [List.intercalate_cons_of_ne_nil hrest, List.filter_append, List.filter_append, ih,
        List.flatten_cons, List.filter_append, List.filter_singleton, h]
      simp

/-! ### Cleaned texts -/

/-- **A cleaned text is its kept lines with one space between each two of them.** -/
theorem toList_cleanText (raw : String) :
    (cleanText raw).toList = [' '].intercalate (keptLines raw.toList) := by
  have hkept : keptLines raw.toList =
      (trimmedLines ((Text.splitAt '\n' raw.toList).map (dropEnd '\r'))).filter (· ≠ []) := by
    rw [trimmedLines_eq, List.map_map, Text.splitAt_eq_splitOn]
    rfl
  obtain ⟨front, line, back, hlines, hlength, hback, hline⟩ :=
    exists_append_lastContent ((Text.splitAt '\n' raw.toList).map (dropEnd '\r'))
      (by simpa using Text.splitAt_ne_nil '\n' raw.toList)
  rw [hkept, cleanText, String.toList_ofList]
  dsimp only
  rw [← hlength, hlines]
  -- Trimming leaves nothing behind the last line with content, and something of this line itself.
  refine flatten_separated (fun place => Line.trimmed ⟨place.1, place.2 == 0,
    place.2 + 1 == (front ++ line :: back).length⟩) (fun place hplace => ?_)
    (hline.imp_right fun h => ?_)
  · have hmem : place.1 ∈ back := List.fst_mem_of_mem_zipIdx hplace
    have hle : front.length + 1 ≤ place.2 := List.le_snd_of_mem_zipIdx hplace
    exact Line.trimmed_eq_nil (hback _ hmem) (beq_eq_false_iff_ne.2 (by omega))
  · exact Line.trimmed_ne_nil h

/-- Cleaning keeps every character that is no margin, in its place among the others. -/
theorem filter_keptLines (raw : List Char) :
    (keptLines raw).flatten.filter isInk = raw.filter isInk := by
  have hspaces : ∀ c : Char, (c == ' ') = true → isInk c = false := fun c hc => by
    rw [beq_iff_eq.1 hc]
    rfl
  have hreturns : ∀ c : Char, (c == '\r') = true → isInk c = false := fun c hc => by
    rw [beq_iff_eq.1 hc]
    rfl
  have hspaced : ∀ line, (spaced line).filter isInk = line.filter isInk := fun line => by
    rw [spaced, filter_tabs rfl rfl, filter_rdropWhile hreturns]
  -- The margins go first, then the ends of the lines, and then the line feeds.
  calc (keptLines raw).flatten.filter isInk
      = ((raw.splitOn '\n').map spaced).flatten.filter isInk := by
        rw [keptLines, List.flatten_filter_ne_nil,
          filter_flatten_beforeLast (filter_rdropWhile hspaces),
          filter_flatten_behindFirst (filter_dropWhile hspaces)]
    _ = (raw.splitOn '\n').flatten.filter isInk := by
        rw [List.filter_flatten, List.map_map, List.filter_flatten]
        exact congrArg List.flatten (List.map_congr_left fun line _ => hspaced line)
    _ = raw.filter isInk := by
        rw [← filter_intercalate '\n' rfl, List.intercalate_splitOn]

/-- Nothing is put before the first of joined lines. -/
theorem isPrefix_intercalate {separator first : List Char} {ls : List (List Char)}
    (h : first ∈ ls.head?) : first <+: separator.intercalate ls := by
  obtain ⟨rest, rfl⟩ := List.head?_eq_some_iff.1 h
  by_cases hrest : rest = []
  · simp [hrest]
  · rw [List.intercalate_cons_of_ne_nil hrest, List.append_assoc]
    exact List.prefix_append _ _

/-- Nothing is put behind the last of joined lines. -/
theorem isSuffix_intercalate {separator last : List Char} {ls : List (List Char)}
    (h : last ∈ ls.getLast?) : last <:+ separator.intercalate ls := by
  induction ls with
  | nil => simp at h
  | cons first rest ih =>
    -- No separator stands behind the last part.
    by_cases hrest : rest = []
    · subst hrest
      obtain rfl : first = last := by simpa using h
      simp
    · rw [List.intercalate_cons_of_ne_nil hrest]
      rw [List.getLast?_cons_of_ne_nil hrest] at h
      exact (ih h).trans (List.suffix_append _ _)

/-- **Cleaning a text follows one rule.** The kept lines are joined by exactly one space, and no
space stands at either end of the whole but those of the lines themselves. The characters that are
no margins are those of the raw text. -/
theorem cleanText_eq_rule (raw : String) :
    (cleanText raw).toList = [' '].intercalate (keptLines raw.toList) ∧
      (cleanText raw).toList.filter isInk = raw.toList.filter isInk ∧
      (∀ first ∈ (keptLines raw.toList).head?, first <+: (cleanText raw).toList) ∧
      (∀ last ∈ (keptLines raw.toList).getLast?, last <:+ (cleanText raw).toList) := by
  rw [toList_cleanText]
  refine ⟨rfl, ?_, fun first => isPrefix_intercalate, fun last => isSuffix_intercalate⟩
  rw [filter_intercalate ' ' rfl, filter_keptLines]

example : cleanText " a\n \n\tb c \r\n" = " a b c" := by decide

end Stencil.Lower
