import Stencil.Text.Search

/-!
# Pieces between marks

A text is cut at each occurrence of a mark. The pieces are those of the standard library
(`splitAt_eq_splitOn`), so what is known about these is known about them: put together with the
mark, they are the text again. None of them holds the mark (`not_mem_of_mem_splitAt`), and the
first of them says how the text begins (`eq_or_exists_of_splitAt`).
-/

namespace Stencil.Text

/-- The pieces between marks are those of the standard library. -/
theorem splitAt_eq_splitOn (mark : Char) (s : List Char) : splitAt mark s = s.splitOn mark := by
  induction s with
  | nil => rfl
  | cons c s ih =>
    have hne := splitAt_ne_nil mark s
    rw [splitAt, List.splitOn_cons_eq_if_modifyHead, ← ih]
    -- A mark begins a new part; any other character goes in front of the first one, which exists.
    by_cases hc : c = mark
    · rw [if_pos hc, if_pos (beq_iff_eq.2 hc)]
    · rw [if_neg hc, if_neg (by rwa [beq_iff_eq])]
      cases h : splitAt mark s with
      | nil => exact absurd h hne
      | cons piece pieces => rfl

/-- The mark is in none of the pieces. -/
theorem not_mem_of_mem_splitAt {mark : Char} {s piece : List Char} (h : piece ∈ splitAt mark s) :
    mark ∉ piece := by
  induction s generalizing piece with
  | nil =>
    rw [splitAt, List.mem_singleton] at h
    rw [h]
    exact List.not_mem_nil
  | cons c rest ih =>
    rw [splitAt] at h
    split at h
    · rcases List.mem_cons.1 h with rfl | h
      · exact List.not_mem_nil
      · exact ih h
    · next hc =>
      -- The character goes to the front of the first piece of the rest.
      obtain ⟨first, others, hsplit⟩ := List.exists_cons_of_ne_nil (splitAt_ne_nil mark rest)
      rw [hsplit] at h ih
      rcases List.mem_cons.1 h with rfl | h
      · exact List.not_mem_cons_of_ne_of_not_mem (Ne.symm hc) (ih List.mem_cons_self)
      · exact ih (List.mem_cons_of_mem _ h)

/-- A text is its first piece, or this piece with the mark and more behind it. -/
theorem eq_or_exists_of_splitAt {mark : Char} {s first : List Char} {others : List (List Char)}
    (h : splitAt mark s = first :: others) : s = first ∨ ∃ rest, s = first ++ mark :: rest := by
  have hs : [mark].intercalate (first :: others) = s := by
    rw [← h, splitAt_eq_splitOn, List.intercalate_splitOn]
  -- Putting the parts together again, with a mark behind all but the last one.
  cases others with
  | nil =>
    rw [List.intercalate_singleton] at hs
    exact .inl hs.symm
  | cons next others =>
    rw [List.intercalate_cons_cons, List.append_assoc] at hs
    exact .inr ⟨_, hs.symm⟩

end Stencil.Text
