/-!
# Searching in texts

Prefixes, suffixes and occurrences of one text in another, all decided on lists of characters.
-/

namespace Stencil.Text

/-- `part` occurs somewhere in `whole`. -/
def occursIn (part : List Char) : List Char → Bool
  | [] => part.isEmpty
  | c :: rest => part.isPrefixOf (c :: rest) || occursIn part rest

/-- `part` occurs somewhere in `whole`. -/
def contains (whole part : String) : Bool :=
  occursIn part.toList whole.toList

/-- `whole` begins with `part`. -/
def startsWith (whole part : String) : Bool :=
  part.toList.isPrefixOf whole.toList

/-- `whole` ends with `part`. -/
def endsWith (whole part : String) : Bool :=
  part.toList.isSuffixOf whole.toList

/-- The pieces of a text between the occurrences of a character; there is always at least one. -/
def splitAt (mark : Char) : List Char → List (List Char)
  | [] => [[]]
  | c :: rest =>
    if c = mark then [] :: splitAt mark rest
    else
      match splitAt mark rest with
      | [] => [[c]]
      | piece :: pieces => (c :: piece) :: pieces

/-- Splitting gives at least one part. -/
theorem splitAt_ne_nil (mark : Char) (s : List Char) : splitAt mark s ≠ [] := by
  cases s with
  | nil => simp [splitAt]
  | cons c rest =>
    rw [splitAt]
    split
    · simp
    · split <;> simp

end Stencil.Text
