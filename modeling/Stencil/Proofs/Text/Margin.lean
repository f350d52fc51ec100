import Mathlib.Data.List.TakeWhile
import Stencil.Text.Blank

/-!
# Texts in a margin

A text is often read without the blanks around it. `Framed blank s body` says that `s` is `body`
between two margins of blanks, for any class of blanks.

* `Framed.eq_filter`: a body without blanks is all of the text that is not blank, so a text frames
  at most one such body.
* `toList_trim`, `framed_trim`: removing the margin of a text gives the body.
-/

namespace Stencil.Text

/-- The text is the body between two margins of blanks. -/
def Framed (blank : Char → Bool) (s body : List Char) : Prop :=
  ∃ l r, s = l ++ body ++ r ∧ (∀ c ∈ l, blank c = true) ∧ ∀ c ∈ r, blank c = true

/-- The text has none of the blanks. -/
def Unblank (blank : Char → Bool) (s : List Char) : Prop :=
  ∀ c ∈ s, blank c = false

variable {blank wide : Char → Bool} {s body body' : List Char}

/-- A character of a framed text is a blank or one of the body. -/
theorem Framed.mem_or (h : Framed blank s body) {c : Char} (hc : c ∈ s) :
    blank c = true ∨ c ∈ body := by
  obtain ⟨l, r, rfl, hl, hr⟩ := h
  rw [List.mem_append, List.mem_append] at hc
  rcases hc with (hc | hc) | hc
  · exact .inl (hl c hc)
  · exact .inr hc
  · exact .inl (hr c hc)

/-- The text frames nothing if it is all blanks. -/
theorem framed_nil_iff : Framed blank s [] ↔ ∀ c ∈ s, blank c = true := by
  constructor
  · intro h c hc
    exact (h.mem_or hc).resolve_right List.not_mem_nil
  · intro h
    exact ⟨s, [], by simp, h, List.forall_mem_nil _⟩

/-- Margins of one class are margins of another if it has all the blanks that occur. -/
theorem Framed.of_blanks (h : Framed blank s body)
    (hblanks : ∀ c ∈ s, blank c = true → wide c = true) : Framed wide s body := by
  obtain ⟨l, r, rfl, hl, hr⟩ := h
  refine ⟨l, r, rfl, fun c hc => ?_, fun c hc => ?_⟩
  · exact hblanks c (List.mem_append_left _ (List.mem_append_left _ hc)) (hl c hc)
  · exact hblanks c (List.mem_append_right _ hc) (hr c hc)

/-- A body without blanks is what is left of the text without its blanks. -/
theorem Framed.eq_filter (h : Framed blank s body) (hbody : Unblank blank body) :
    body = s.filter fun c => !blank c := by
  obtain ⟨l, r, rfl, hl, hr⟩ := h
  have hnone {m : List Char} (hm : ∀ c ∈ m, blank c = true) : m.filter (fun c => !blank c) = [] :=
    List.filter_eq_nil_iff.2 fun c hc => by simp [hm c hc]
  have hall : body.filter (fun c => !blank c) = body :=
    List.filter_eq_self.2 fun c hc => by simp [hbody c hc]
  simp [hnone hl, hnone hr, hall]

/-- So there is one such body. -/
theorem Framed.unique (h : Framed blank s body) (hbody : Unblank blank body)
    (h' : Framed blank s body') (hbody' : Unblank blank body') : body = body' :=
  (h.eq_filter hbody).trans (h'.eq_filter hbody').symm

/-! ### Removing the margin -/

/-- Dropping blanks drops the margin and stops behind it. -/
theorem dropWhile_margin {m s : List Char} (hm : ∀ c ∈ m, blank c = true)
    (hs : ∀ c ∈ s.head?, blank c = false) : (m ++ s).dropWhile blank = s := by
  rw [List.dropWhile_append_of_pos hm]
  cases s with
  | nil => rfl
  | cons c cs => exact List.dropWhile_cons_of_neg (by simp [hs c rfl])

/-- A text without blanks has none backwards. -/
theorem Unblank.reverse (h : Unblank blank s) : Unblank blank s.reverse :=
  fun c hc => h c (List.mem_reverse.1 hc)

theorem Unblank.head (h : Unblank blank s) : ∀ c ∈ s.head?, blank c = false :=
  fun c hc => h c (List.mem_of_mem_head? hc)

/-- Trimming leaves the body. -/
theorem toList_trim {s : String} (h : Framed isBlank s.toList body)
    (hbody : Unblank isBlank body) : (trim s).toList = body := by
  obtain ⟨l, r, hs, hl, hr⟩ := h
  unfold trim trimEnd trimStart
  rw [hs, String.toList_ofList, String.toList_ofList]
  cases body with
  | nil =>
    have hall : ∀ c ∈ l ++ r, isBlank c = true := List.forall_mem_append.2 ⟨hl, hr⟩
    rw [List.append_nil, List.dropWhile_eq_nil_iff.2 hall]
    rfl
  | cons b bs =>
    -- Trimming stops at the body, from the front and then from the back.
    have hstart : ∀ c ∈ (b :: bs ++ r).head?, isBlank c = false := by
      rintro _ ⟨⟩
      exact hbody b (List.mem_cons_self ..)
    have hr' : ∀ c ∈ r.reverse, isBlank c = true := fun c hc => hr c (List.mem_reverse.1 hc)
    rw [List.append_assoc, dropWhile_margin hl hstart, List.reverse_append,
      dropWhile_margin hr' hbody.reverse.head, List.reverse_reverse]

/-- What is left without the margin is a body of the text. -/
theorem framed_trim (s : String) : Framed isBlank s.toList (trim s).toList := by
  unfold trim trimEnd trimStart
  rw [String.toList_ofList, String.toList_ofList]
  generalize hd : s.toList.dropWhile isBlank = d
  refine ⟨s.toList.takeWhile isBlank, (d.reverse.takeWhile isBlank).reverse, ?_, ?_, ?_⟩
  · rw [List.append_assoc, ← List.reverse_append, List.takeWhile_append_dropWhile,
      List.reverse_reverse, ← hd, List.takeWhile_append_dropWhile]
  · exact fun c hc => List.mem_takeWhile_imp hc
  · exact fun c hc => List.mem_takeWhile_imp (List.mem_reverse.1 hc)

end Stencil.Text
