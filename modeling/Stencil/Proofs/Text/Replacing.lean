/-!
# Replacing a part of a text

Escapes are often put into a text by replacing one part after another, every replacement in the
whole text that the one before has left. `replaced part new` is one of them: the occurrences of
`part` are looked for from left to right, and the search goes on behind the one that was found.

* `replaced_singleton` — replacing a character spells the text character by character, so a few such
  replacements one after another do the same as one spelling that takes all of them;
* `replaced_append`, `replaced_cons` — of a longer part, what happens where it stands and where it
  does not.
-/

namespace Stencil.Text

/-- The text with every occurrence of `part` replaced by `new`, where `part` is not empty. -/
def replaced (part new : List Char) : List Char → List Char
  | [] => []
  | c :: rest =>
    if part.isPrefixOf (c :: rest) then new ++ replaced part new (rest.drop (part.length - 1))
    else c :: replaced part new rest
termination_by s => s.length
decreasing_by
  · simp only [List.length_drop, List.length_cons]
    omega
  · simp

variable {part new : List Char}

/-- In nothing there is nothing to replace. -/
theorem replaced_nil : replaced part new [] = [] := by
  rw [replaced]

/-- Where the part stands, it is replaced, and the search goes on behind it. -/
theorem replaced_append (hpart : part ≠ []) (rest : List Char) :
    replaced part new (part ++ rest) = new ++ replaced part new rest := by
  obtain ⟨c, tail, rfl⟩ := List.exists_cons_of_ne_nil hpart
  -- The part is found at the front, and the search goes on behind it.
  have hprefix : (c :: tail).isPrefixOf (c :: (tail ++ rest)) = true := by
    rw [List.isPrefixOf_iff_prefix]
    exact List.prefix_append (c :: tail) rest
  have hbehind : (tail ++ rest).drop ((c :: tail).length - 1) = rest := by
    rw [List.length_cons, Nat.add_sub_cancel]
    exact List.drop_left
  rw [List.cons_append, replaced, if_pos hprefix, hbehind]

/-- Where the part does not stand, the text goes on unchanged. -/
theorem replaced_cons {c : Char} {rest : List Char} (h : ¬ part <+: c :: rest) :
    replaced part new (c :: rest) = c :: replaced part new rest := by
  rw [replaced, if_neg (mt List.isPrefixOf_iff_prefix.1 h)]

/-- A single character is replaced wherever it occurs. -/
theorem replaced_singleton (d : Char) (new s : List Char) :
    replaced [d] new s = s.flatMap fun c => if c = d then new else [c] := by
  induction s with
  | nil => exact replaced_nil
  | cons c rest ih =>
    rw [List.flatMap_cons, ← ih]
    -- A character alone cannot overlap with itself, so the search goes on right behind it.
    by_cases hc : c = d
    · subst hc
      rw [if_pos rfl]
      exact replaced_append (List.cons_ne_nil c []) rest
    · have hprefix : ¬ [d] <+: c :: rest := by
        rw [List.cons_prefix_cons]
        exact fun h => hc h.1.symm
      rw [if_neg hc, replaced_cons hprefix, List.singleton_append]

end Stencil.Text
