/-!
# Dictionaries

A dictionary from texts to values. Its entries are kept in strictly increasing order of the keys,
so two dictionaries with the same look-ups are equal, and every walk over a dictionary follows the
order of the keys by code point.
-/

namespace Stencil

/-- A dictionary with entries in strictly increasing order of the keys. -/
structure Dict (α : Type) where
  entries : List (String × α)
  sorted : entries.Pairwise (fun a b => a.1 < b.1)

namespace Dict

variable {α β : Type}

/-- A dictionary is its entries. -/
@[ext] theorem ext {a b : Dict α} (h : a.entries = b.entries) : a = b := by
  cases a
  cases b
  cases h
  rfl

instance [DecidableEq α] : DecidableEq (Dict α) := fun a b =>
  decidable_of_iff (a.entries = b.entries) <| by
    cases a; cases b; simp

/-- The dictionary without entries. -/
def empty : Dict α where
  entries := []
  sorted := List.Pairwise.nil

instance : Inhabited (Dict α) := ⟨empty⟩

/-- The value under a key. -/
def get? (d : Dict α) (key : String) : Option α :=
  d.entries.lookup key

/-- The keys in increasing order. -/
def keys (d : Dict α) : List String :=
  d.entries.map Prod.fst

/-- The values in the order of their keys. -/
def values (d : Dict α) : List α :=
  d.entries.map Prod.snd

/-! ### Insertion -/

/-- Puts an entry in its place, over an entry with the same key. -/
def insertEntry (key : String) (value : α) : List (String × α) → List (String × α)
  | [] => [(key, value)]
  | (k, v) :: rest =>
    if key < k then (key, value) :: (k, v) :: rest
    else if key = k then (key, value) :: rest
    else (k, v) :: insertEntry key value rest

/-- Inserting brings in the entry and no other. -/
theorem mem_insertEntry {key : String} {value : α} {es : List (String × α)} {e : String × α}
    (h : e ∈ insertEntry key value es) : e = (key, value) ∨ e ∈ es := by
  induction es with
  | nil => simpa [insertEntry] using h
  | cons head rest ih =>
    obtain ⟨k, v⟩ := head
    rw [insertEntry] at h
    -- The entry goes in front of the first larger key, in the place of an equal one, or further on.
    split at h
    · simpa using h
    · split at h
      · rcases List.mem_cons.1 h with h | h
        · exact .inl h
        · exact .inr (List.mem_cons_of_mem _ h)
      · rcases List.mem_cons.1 h with h | h
        · exact .inr (h ▸ List.mem_cons_self)
        · exact (ih h).imp_right (List.mem_cons_of_mem _)

/-- The entries stay in the order of their keys. -/
theorem sorted_insertEntry (key : String) (value : α) {es : List (String × α)}
    (h : es.Pairwise (fun a b => a.1 < b.1)) :
    (insertEntry key value es).Pairwise (fun a b => a.1 < b.1) := by
  induction es with
  | nil => exact List.pairwise_singleton _ _
  | cons head rest ih =>
    obtain ⟨k, v⟩ := head
    obtain ⟨hhead, hrest⟩ := List.pairwise_cons.1 h
    rw [insertEntry]
    split
    · -- In front of a larger key: all keys behind it are larger still.
      rename_i hlt
      refine List.pairwise_cons.2 ⟨fun e he => ?_, h⟩
      rcases List.mem_cons.1 he with rfl | he
      · exact hlt
      · exact String.lt_trans hlt (hhead e he)
    · rename_i hnlt
      split
      · rename_i heq
        exact List.pairwise_cons.2 ⟨fun e he => heq ▸ hhead e he, hrest⟩
      · -- Further on: what is inserted there comes from the rest, or is the new entry, and both are
        -- larger.
        rename_i hne
        refine List.pairwise_cons.2 ⟨fun e he => ?_, ih hrest⟩
        rcases mem_insertEntry he with rfl | he
        · exact Std.lt_of_le_of_ne (String.not_lt.1 hnlt) (Ne.symm hne)
        · exact hhead e he

/-- The dictionary with `value` under `key`. -/
def insert (d : Dict α) (key : String) (value : α) : Dict α where
  entries := insertEntry key value d.entries
  sorted := sorted_insertEntry key value d.sorted

/-- The dictionary of a list of entries; the last entry for a key counts. -/
def ofList (es : List (String × α)) : Dict α :=
  es.foldl (fun d e => d.insert e.1 e.2) empty

/-! ### Other operations -/

/-- The dictionary without the key. -/
def erase (d : Dict α) (key : String) : Dict α where
  entries := d.entries.filter fun e => e.1 != key
  sorted := d.sorted.filter _

/-- The dictionary without any of the keys. -/
def eraseAll (d : Dict α) (keys : List String) : Dict α :=
  keys.foldl erase d

/-- The dictionary with every value replaced. -/
def mapValues (f : String → α → β) (d : Dict α) : Dict β where
  entries := d.entries.map fun e => (e.1, f e.1 e.2)
  sorted := by
    rw [List.pairwise_map]
    exact d.sorted

/-- The key has a value. -/
def contains (d : Dict α) (key : String) : Bool :=
  (d.get? key).isSome

/-- The empty dictionary answers nothing. -/
@[simp] theorem get?_empty (key : String) : (empty : Dict α).get? key = none := rfl

@[simp] theorem entries_mapValues (f : String → α → β) (d : Dict α) :
    (d.mapValues f).entries = d.entries.map fun e => (e.1, f e.1 e.2) := rfl

/-! ### Look-ups -/

/-- The first entry answers its own key. -/
theorem lookup_cons_eq_ite (k k' : String) (v : α) (es : List (String × α)) :
    ((k', v) :: es).lookup k = if k = k' then some v else es.lookup k := by
  rw [List.lookup_cons]
  by_cases hk : k = k'
  · rw [if_pos hk, beq_iff_eq.2 hk]
  · rw [if_neg hk, beq_false_of_ne hk]

/-- A dictionary has one entry for a key at most, so a look-up finds every entry. -/
theorem get?_eq_some_iff {d : Dict α} {key : String} {value : α} :
    d.get? key = some value ↔ (key, value) ∈ d.entries := by
  obtain ⟨es, hsorted⟩ := d
  change es.lookup key = some value ↔ (key, value) ∈ es
  induction es with
  | nil => simp
  | cons head rest ih =>
    obtain ⟨k, v⟩ := head
    obtain ⟨hhead, hrest⟩ := List.pairwise_cons.1 hsorted
    rw [lookup_cons_eq_ite, List.mem_cons, Prod.mk.injEq]
    -- Keys are in order, so the key of the first entry does not occur again.
    by_cases hkey : key = k
    · rw [if_pos hkey]
      refine ⟨fun h => .inl ⟨hkey, (Option.some.inj h).symm⟩, ?_⟩
      rintro (⟨-, rfl⟩ | h)
      · rfl
      · exact absurd (hkey ▸ hhead _ h) (String.lt_irrefl _)
    · rw [if_neg hkey, ih hrest]
      exact ⟨.inr, fun h => h.resolve_left fun heq => hkey heq.1⟩

/-- The values are those that some key answers. -/
theorem mem_values_iff {d : Dict α} {value : α} :
    value ∈ d.values ↔ ∃ key, d.get? key = some value := by
  rw [values, List.mem_map]
  constructor
  · rintro ⟨⟨key, _⟩, he, rfl⟩
    exact ⟨key, get?_eq_some_iff.2 he⟩
  · rintro ⟨key, h⟩
    exact ⟨(key, value), get?_eq_some_iff.1 h, rfl⟩

/-- An inserted key answers the new value, all others what they did. -/
theorem lookup_insertEntry (key k : String) (value : α) (es : List (String × α)) :
    (insertEntry key value es).lookup k = if k = key then some value else es.lookup k := by
  induction es with
  | nil => rw [insertEntry, lookup_cons_eq_ite]
  | cons head rest ih =>
    obtain ⟨k', v⟩ := head
    rw [insertEntry]
    split
    · rw [lookup_cons_eq_ite]
    · split
      · next heq =>
        rw [lookup_cons_eq_ite, lookup_cons_eq_ite, heq]
        split <;> rfl
      · -- The first key is neither the new one nor in its place, so looking it up does not see the
        -- insertion.
        next hne =>
        rw [lookup_cons_eq_ite, lookup_cons_eq_ite, ih]
        by_cases hk : k = k'
        · rw [if_pos hk, if_pos hk, if_neg (hk ▸ Ne.symm hne)]
        · rw [if_neg hk, if_neg hk]

theorem get?_insert (d : Dict α) (key k : String) (value : α) :
    (d.insert key value).get? k = if k = key then some value else d.get? k :=
  lookup_insertEntry key k value d.entries

/-- A mapped dictionary answers the mapped value. -/
@[simp] theorem get?_mapValues (f : String → α → β) (d : Dict α) (key : String) :
    (d.mapValues f).get? key = (d.get? key).map (f key) := by
  obtain ⟨es, hsorted⟩ := d
  change (es.map fun e => (e.1, f e.1 e.2)).lookup key = (es.lookup key).map (f key)
  -- The order of the keys is not needed, and would stand in the way of the induction.
  clear hsorted
  induction es with
  | nil => rfl
  | cons head rest ih =>
    obtain ⟨k, v⟩ := head
    rw [List.map_cons, lookup_cons_eq_ite, lookup_cons_eq_ite, ih]
    by_cases hkey : key = k
    · rw [if_pos hkey, if_pos hkey, hkey]
      rfl
    · rw [if_neg hkey, if_neg hkey]

/-- Inserting and then mapping is mapping and then inserting the mapped value. -/
theorem mapValues_insert (f : String → α → β) (d : Dict α) (key : String) (value : α) :
    (d.insert key value).mapValues f = (d.mapValues f).insert key (f key value) := by
  refine ext ?_
  change (insertEntry key value d.entries).map (fun e => (e.1, f e.1 e.2))
    = insertEntry key (f key value) (d.entries.map fun e => (e.1, f e.1 e.2))
  induction d.entries with
  | nil => rfl
  | cons e rest ih =>
    rw [List.map_cons, insertEntry, insertEntry]
    -- Both sides insert at the same place, since only the keys decide it.
    by_cases hlt : key < e.1
    · rw [if_pos hlt, if_pos hlt, List.map_cons, List.map_cons]
    · rw [if_neg hlt, if_neg hlt]
      by_cases heq : key = e.1
      · rw [if_pos heq, if_pos heq, List.map_cons]
      · rw [if_neg heq, if_neg heq, List.map_cons, ih]

/-! ### Dictionaries of sorted entries -/

/-- A key behind all others is inserted at the end. -/
theorem insertEntry_of_lt {key : String} {value : α} {es : List (String × α)}
    (h : ∀ e ∈ es, e.1 < key) : insertEntry key value es = es ++ [(key, value)] := by
  induction es with
  | nil => rfl
  | cons head rest ih =>
    obtain ⟨k, v⟩ := head
    have hk : k < key := h (k, v) List.mem_cons_self
    rw [insertEntry, if_neg (String.lt_asymm hk), if_neg (String.ne_of_lt hk).symm,
      ih fun e he => h e (List.mem_cons_of_mem _ he), List.cons_append]

/-- So sorted entries are inserted in their order. -/
theorem entries_foldl_insert {es : List (String × α)} {d : Dict α}
    (h : (d.entries ++ es).Pairwise (fun a b => a.1 < b.1)) :
    (es.foldl (fun d e => d.insert e.1 e.2) d).entries = d.entries ++ es := by
  -- The next entry comes after all that are in, so it goes to the end.
  induction es generalizing d with
  | nil => rw [List.foldl_nil, List.append_nil]
  | cons e rest ih =>
    have hlt : ∀ e' ∈ d.entries, e'.1 < e.1 := fun e' he' =>
      (List.pairwise_append.1 h).2.2 e' he' e List.mem_cons_self
    have hinsert : (d.insert e.1 e.2).entries = d.entries ++ [e] := insertEntry_of_lt hlt
    rw [List.append_cons] at h
    rw [List.foldl_cons, ih (hinsert ▸ h), hinsert, List.append_assoc, List.singleton_append]

/-- The dictionary of sorted entries has these entries. -/
theorem entries_ofList {es : List (String × α)} (h : es.Pairwise (fun a b => a.1 < b.1)) :
    (ofList es).entries = es :=
  entries_foldl_insert h

end Dict

end Stencil
