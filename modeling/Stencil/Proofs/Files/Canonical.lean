import Stencil.Files
import Stencil.Proofs.Outcome
import Stencil.Proofs.Text.Split

/-!
# Canonical paths

Every path that leads to something has one canonical spelling, the path of the location it leads to.
Paths are compared by their components, and a spelling can be given up for another one only if
nothing depends on it. For canonical paths nothing can:

* `Location.Proper` — the names of a location are names and not detours;
* `Files.Direct` — a proper location without a link on the way down to it;
* `direct_of_locate` — a walk along a path only ever leads to such locations, through whatever
  links;
* `components_pathOf` — the components of the path of a proper location are its names;
* `eq_of_same_pathOf` — so two of these paths that are the same are equal as texts;
* `canonical_of_same` — and whatever is the same as the path of a direct location leads there.
-/

namespace Stencil

/-! ### Proper locations -/

/-- A name that can stand in a directory: it is neither empty nor a detour, and it holds no
separator. -/
structure IsEntryName (name : String) : Prop where
  ne_empty : name ≠ ""
  ne_current : name ≠ "."
  ne_parent : name ≠ ".."
  no_separator : '/' ∉ name.toList

/-- Every name of the location is one. -/
def Location.Proper (l : Location) : Prop :=
  ∀ name ∈ l, IsEntryName name

/-- The pieces of a path have no separator. -/
theorem Path.no_separator_of_mem_pieces {p : Path} {piece : String} (h : piece ∈ p.pieces) :
    '/' ∉ piece.toList := by
  rw [Path.pieces, List.mem_map] at h
  obtain ⟨s, hs, rfl⟩ := h
  rw [String.toList_ofList]
  exact Text.not_mem_of_mem_splitAt hs

/-- The piece in front of the first separator of an absolute path is empty. -/
theorem Path.pieces_of_isAbsolute {p : Path} (h : p.isAbsolute = true) :
    ∃ rest, p.pieces = "" :: rest := by
  obtain ⟨tail, htail⟩ := List.isPrefixOf_iff_prefix.1 h
  have htext : p.text.toList = '/' :: tail := htail.symm
  refine ⟨(Text.splitAt '/' tail).map String.ofList, ?_⟩
  rw [Path.pieces, htext, Text.splitAt, if_pos rfl, List.map_cons]

/-- No piece spells the root directory. -/
theorem Path.component?_ne_root (piece : String) : Path.component? piece ≠ some .root := by
  unfold Path.component?
  split
  · simp
  · split <;> simp

/-- A path with the root directory for its first component is absolute, and its pieces spell the
components below. -/
theorem Path.filterMap_pieces {p : Path} {cs : List Path.Component}
    (h : p.components = .root :: cs) :
    p.isAbsolute = true ∧ p.pieces.filterMap Path.component? = cs := by
  unfold Path.components at h
  by_cases habsolute : p.isAbsolute = true
  · obtain ⟨rest, hpieces⟩ := Path.pieces_of_isAbsolute habsolute
    rw [hpieces] at h ⊢
    simp only [if_pos habsolute] at h
    exact ⟨habsolute, (List.cons.inj h).2⟩
  · -- Every component comes from a piece then, or stands for the current directory.
    split at h
    · cases h
    · next first rest hpieces =>
      have hmem : Path.Component.root ∈ (if first = "." then [Path.Component.current]
          else (Path.component? first).toList) ++ rest.filterMap Path.component? := by
        rw [if_neg habsolute] at h
        rw [h]
        exact List.mem_cons_self
      rcases List.mem_append.1 hmem with hmem | hmem
      · split at hmem
        · cases List.mem_singleton.1 hmem
        · exact absurd (Option.mem_toList.1 hmem) (Path.component?_ne_root first)
      · obtain ⟨piece, -, hpiece⟩ := List.mem_filterMap.1 hmem
        exact absurd hpiece (Path.component?_ne_root piece)

namespace Files

/-- An absolute path is the same from everywhere. -/
theorem absolute?_of_isAbsolute {fs : Files} {p : Path} (h : p.isAbsolute = true) :
    fs.absolute? p = some p := by
  have hne : ¬p.text = "" := by
    intro hempty
    rw [Path.isAbsolute, hempty] at h
    exact absurd h (by decide)
  -- Joining an absolute path forgets the current directory.
  have hjoin : fs.current.join p.text = p := if_pos h
  unfold absolute?
  simp only [hjoin, h, decide_eq_false hne]
  rfl

/-- The name of an entry is a component as it stands. -/
theorem component?_of_isEntryName {name : String} (h : IsEntryName name) :
    Path.component? name = some (.name name) := by
  have hidle : (name = "" || name = "." : Bool) = false := by
    rw [decide_eq_false h.ne_empty, decide_eq_false h.ne_current]
    rfl
  rw [Path.component?, if_neg (ne_true_of_eq_false hidle), if_neg h.ne_parent]

/-- Conversely a piece that is such a component is the name of an entry. -/
theorem isEntryName_of_component? {name : String} (hseparator : '/' ∉ name.toList)
    (h : Path.component? name = some (.name name)) : IsEntryName name := by
  unfold Path.component? at h
  split at h
  · cases h
  · next hidle =>
    rw [Bool.or_eq_true, decide_eq_true_eq, decide_eq_true_eq, not_or] at hidle
    split at h
    · cases h
    · next hparent => exact ⟨hidle.1, hidle.2, hparent, hseparator⟩

/-- **What a step can do**: an idle piece stays, a parent goes up by dropping a name, and a name is
added. -/
theorem step_ok {fs : Files} {here l : Location} {piece : String}
    (h : fs.step here piece = .ok l) :
    (Path.component? piece = none ∧ l = here) ∨
      (Path.component? piece = some .parent ∧ l = here.dropLast) ∨
      (Path.component? piece = some (.name piece) ∧ l = here ++ [piece]) := by
  unfold step at h
  split at h
  · cases h
  · cases h
  · -- Both sides read the piece by the same three cases.
    by_cases hidle : (piece = "" || piece = "." : Bool) = true
    · rw [if_pos hidle] at h
      cases h
      exact .inl ⟨by rw [Path.component?, if_pos hidle], rfl⟩
    · rw [if_neg hidle] at h
      by_cases hparent : piece = ".."
      · rw [if_pos hparent] at h
        cases h
        exact .inr (.inl ⟨by rw [Path.component?, if_neg hidle, if_pos hparent], rfl⟩)
      · rw [if_neg hparent] at h
        cases h
        exact .inr (.inr ⟨by rw [Path.component?, if_neg hidle, if_neg hparent], rfl⟩)

/-! ### Direct locations -/

/-- The location is proper, and no link stands on the way down to it or at it. -/
structure Direct (fs : Files) (l : Location) : Prop where
  proper : l.Proper
  unlinked : ∀ m, m <+: l → fs.link? m = none

/-- No link stands on the way to the root. -/
theorem direct_nil (fs : Files) : fs.Direct [] where
  proper _ h := absurd h List.not_mem_nil
  unlinked m h := by
    rw [List.prefix_nil.1 h]
    rfl

theorem Direct.dropLast {fs : Files} {l : Location} (h : fs.Direct l) : fs.Direct l.dropLast where
  proper name hname := h.proper name (List.dropLast_subset l hname)
  unlinked m hm := h.unlinked m (hm.trans l.dropLast_prefix)

/-- A step from a direct location leads to a direct one, unless there is a link. -/
theorem Direct.step {fs : Files} {here l : Location} {piece : String} (hhere : fs.Direct here)
    (hpiece : '/' ∉ piece.toList) (h : fs.step here piece = .ok l) (hlink : fs.link? l = none) :
    fs.Direct l := by
  rcases step_ok h with ⟨-, rfl⟩ | ⟨-, rfl⟩ | ⟨hname, rfl⟩
  · exact hhere
  · exact hhere.dropLast
  · -- Only a step to a name leads further, and its link is the one that is excluded.
    constructor
    · intro name hmem
      rcases List.mem_append.1 hmem with hmem | hmem
      · exact hhere.proper name hmem
      · rw [List.mem_singleton.1 hmem]
        exact isEntryName_of_component? hpiece hname
    · intro m hm
      rcases List.prefix_concat_iff.1 hm with rfl | hm
      · exact hlink
      · exact hhere.unlinked m hm

/-- A step leads to a location in a directory that is direct. -/
theorem Direct.directory {fs : Files} {here l : Location} {piece : String} (hhere : fs.Direct here)
    (h : fs.step here piece = .ok l) : fs.Direct l.dropLast := by
  rcases step_ok h with ⟨-, rfl⟩ | ⟨-, rfl⟩ | ⟨-, rfl⟩
  · exact hhere.dropLast
  · exact hhere.dropLast.dropLast
  · rwa [List.dropLast_concat]

/-- A first step either leads on, or to a link that is followed. -/
theorem steps_cons {fs : Files} {follow : Location → List String → Except Access Location}
    {here l : Location} {piece : String} {rest : List String}
    (h : fs.steps follow here (piece :: rest) = .ok l) :
    ∃ next, fs.step here piece = .ok next ∧
      ((fs.link? next = none ∧ fs.steps follow next rest = .ok l) ∨
        ∃ target, fs.link? next = some target ∧
          follow (if target.isAbsolute then [] else next.dropLast) (target.pieces ++ rest)
            = .ok l) := by
  obtain ⟨next, hstep, h⟩ := bind_eq_ok.1 h
  refine ⟨next, hstep, ?_⟩
  -- A link is followed before the walk goes on.
  split at h
  · next hlink => exact .inl ⟨hlink, h⟩
  · next target hlink => exact .inr ⟨target, hlink, h⟩

/-- Steps lead from direct locations to direct ones if following a link does. -/
theorem Direct.steps {fs : Files} {follow : Location → List String → Except Access Location}
    (hfollow : ∀ here pieces l, fs.Direct here → (∀ piece ∈ pieces, '/' ∉ piece.toList) →
      follow here pieces = .ok l → fs.Direct l)
    {pieces : List String} {here l : Location} (hhere : fs.Direct here)
    (hpieces : ∀ piece ∈ pieces, '/' ∉ piece.toList) (h : fs.steps follow here pieces = .ok l) :
    fs.Direct l := by
  -- By induction on the pieces, from location to location.
  induction pieces generalizing here with
  | nil =>
    cases h
    exact hhere
  | cons piece rest ih =>
    obtain ⟨hpiece, hrest⟩ := List.forall_mem_cons.1 hpieces
    obtain ⟨next, hstep, ⟨hlink, hsteps⟩ | ⟨target, -, hfollowed⟩⟩ := steps_cons h
    · exact ih (hhere.step hpiece hstep hlink) hrest hsteps
    · -- The link is left for a walk along its own pieces, from the root directory or from its own.
      refine hfollow _ _ l ?_ ?_ hfollowed
      · split
        · exact direct_nil fs
        · exact hhere.directory hstep
      · intro piece hmem
        rcases List.mem_append.1 hmem with hmem | hmem
        · exact Path.no_separator_of_mem_pieces hmem
        · exact hrest piece hmem

/-- A walk ends where no link stands on the way. -/
theorem Direct.walk {fs : Files} {links : Nat} {pieces : List String} {here l : Location}
    (hhere : fs.Direct here) (hpieces : ∀ piece ∈ pieces, '/' ∉ piece.toList)
    (h : fs.walk links here pieces = .ok l) : fs.Direct l := by
  -- By induction on the links that may still be followed.
  induction links generalizing here pieces l with
  | zero => exact hhere.steps (fun _ _ _ _ _ h => by cases h) hpieces h
  | succ links ih => exact hhere.steps (fun _ _ _ hhere hpieces h => ih hhere hpieces h) hpieces h

/-- **A path leads to direct locations only**, whatever links and detours it goes through. -/
theorem direct_of_locate {fs : Files} {p : Path} {l : Location} (h : fs.locate p = .ok l) :
    fs.Direct l := by
  unfold locate at h
  split at h
  · cases h
  · exact (direct_nil fs).walk (fun _ hpiece => Path.no_separator_of_mem_pieces hpiece) h

/-- What is found at a path is the entry where the path leads. -/
theorem find_eq_ok {fs : Files} {p : Path} {l : Location} {e : Entry}
    (h : fs.find p = .ok (l, e)) : fs.locate p = .ok l ∧ fs.get? l = some e := by
  obtain ⟨found, hlocate, h⟩ := bind_eq_ok.1 h
  split at h
  · next e' he' =>
    cases h
    exact ⟨hlocate, he'⟩
  · cases h

/-- What a path leads to stands at a direct location. -/
theorem find_ok {fs : Files} {p : Path} {l : Location} {e : Entry} (h : fs.find p = .ok (l, e)) :
    fs.Direct l ∧ fs.get? l = some e :=
  ⟨direct_of_locate (find_eq_ok h).1, (find_eq_ok h).2⟩

/-! ### The path of a location -/

/-- The path of a location has its names as pieces, behind the one before the first separator. -/
theorem pieces_pathOf {l : Location} (h : l.Proper) (hne : l ≠ []) :
    (pathOf l).pieces = "" :: l := by
  obtain ⟨name, rest, rfl⟩ := List.exists_cons_of_ne_nil hne
  -- The path starts with a separator, so the first piece is empty; no name has one, so the rest are
  -- the names.
  have htext : (pathOf (name :: rest)).text.toList
      = [] ++ '/' :: ['/'].intercalate (name.toList :: rest.map String.toList) := by
    rw [pathOf, String.toList_append, String.toList_intercalate]
    rfl
  have hmarks : ∀ piece ∈ name.toList :: rest.map String.toList, '/' ∉ piece := by
    intro piece hpiece
    rw [← List.map_cons, List.mem_map] at hpiece
    obtain ⟨n, hn, rfl⟩ := hpiece
    exact (h n hn).no_separator
  rw [Path.pieces, htext, Text.splitAt_eq_splitOn,
    List.splitOn_append_cons_self_of_not_mem List.not_mem_nil,
    List.splitOn_intercalate _ hmarks (List.cons_ne_nil _ _), List.map_cons, List.map_cons,
    List.map_map]
  have hround : ∀ names : List String, names.map (String.ofList ∘ String.toList) = names := by
    intro names
    induction names with
    | nil => rfl
    | cons n names ih => rw [List.map_cons, ih, Function.comp_apply, String.ofList_toList]
  rw [hround, String.ofList_toList]

/-- The components of the path of a proper location are its names below the root directory. -/
theorem components_pathOf {l : Location} (h : l.Proper) :
    (pathOf l).components = .root :: l.map .name := by
  by_cases hl : l = []
  · rw [hl]
    decide +kernel
  · -- The path of a location below the root directory is absolute and has the names for its pieces.
    have habsolute : (pathOf l).isAbsolute = true := by
      rw [Path.isAbsolute, Text.startsWith, pathOf, String.toList_append]
      rfl
    -- No name is a detour, so each of them is a component.
    have hnames : l.filterMap Path.component? = l.map .name := by
      clear hl habsolute
      induction l with
      | nil => rfl
      | cons name rest ih =>
        obtain ⟨hname, hrest⟩ := List.forall_mem_cons.1 h
        rw [List.filterMap_cons_some (component?_of_isEntryName hname), ih hrest, List.map_cons]
    rw [Path.components, pieces_pathOf h hl]
    change (if (pathOf l).isAbsolute then [Path.Component.root] else _) ++ l.filterMap _ = _
    rw [if_pos habsolute, hnames]
    rfl

/-- **Canonical paths have one spelling.** -/
theorem eq_of_same_pathOf {l l' : Location} (h : l.Proper) (h' : l'.Proper)
    (hsame : (pathOf l).same (pathOf l') = true) : l = l' := by
  rw [Path.same, beq_iff_eq, components_pathOf h, components_pathOf h'] at hsame
  have hmap : l.map Path.Component.name = l'.map Path.Component.name :=
    (List.cons.inj hsame).2
  exact (List.map_inj_right fun a b hab => Path.Component.name.inj hab).1 hmap

/-! ### Spellings of canonical paths -/

/-- Steps along names without links, with idle pieces between them, go down along the names. -/
theorem steps_of_names {fs : Files} {follow : Location → List String → Except Access Location}
    {pieces names : List String} {here l : Location}
    (hnames : pieces.filterMap Path.component? = names.map .name)
    (hunlinked : ∀ m, m <+: here ++ names → fs.link? m = none)
    (h : fs.steps follow here pieces = .ok l) : l = here ++ names := by
  induction pieces generalizing here names with
  | nil =>
    have hnil : names = [] := List.map_eq_nil_iff.1 hnames.symm
    cases h
    rw [hnil, List.append_nil]
  | cons piece rest ih =>
    obtain ⟨next, hstep, hnext⟩ := steps_cons h
    rcases step_ok hstep with ⟨hnone, rfl⟩ | ⟨hparent, -⟩ | ⟨hname, rfl⟩
    · rw [List.filterMap_cons_none hnone] at hnames
      rcases hnext with ⟨-, hsteps⟩ | ⟨target, hlink, -⟩
      · exact ih hnames hunlinked hsteps
      · exact absurd ((hunlinked _ (List.prefix_append _ _)).symm.trans hlink) (by simp)
    · -- The parent directory is no name.
      rw [List.filterMap_cons_some hparent] at hnames
      cases names <;> cases hnames
    · rw [List.filterMap_cons_some hname] at hnames
      cases names with
      | nil => cases hnames
      | cons name names =>
        obtain ⟨heq, hrest⟩ := List.cons.inj hnames
        obtain rfl := Path.Component.name.inj heq
        rw [List.append_cons] at hunlinked ⊢
        rcases hnext with ⟨-, hsteps⟩ | ⟨target, hlink, -⟩
        · exact ih hrest hunlinked hsteps
        · exact absurd ((hunlinked _ (List.prefix_append _ _)).symm.trans hlink) (by simp)

/-- A walk along names without links on the way ends at those names. -/
theorem walk_of_names {fs : Files} {links : Nat} {pieces names : List String} {l : Location}
    (hnames : pieces.filterMap Path.component? = names.map .name) (hdirect : fs.Direct names)
    (h : fs.walk links [] pieces = .ok l) : l = names := by
  have hunlinked : ∀ m, m <+: [] ++ names → fs.link? m = none := hdirect.unlinked
  cases links <;> exact steps_of_names hnames hunlinked h

/-- **Every spelling of a canonical path leads there**, if it leads anywhere. -/
theorem canonical_of_same {fs : Files} {p q : Path} {l : Location} (hl : fs.Direct l)
    (hsame : p.same (pathOf l) = true) (h : fs.canonical p = .ok q) : q = pathOf l := by
  rw [Path.same_iff, components_pathOf hl.proper] at hsame
  obtain ⟨habsolute, hnames⟩ := Path.filterMap_pieces hsame
  obtain ⟨found, hfind, rfl⟩ := map_eq_ok.1 h
  -- The path was found, so the walk along its pieces went through; with the same components it went
  -- through the names.
  have hlocate := (find_eq_ok hfind).1
  unfold locate at hlocate
  split at hlocate
  · cases hlocate
  · next r hr =>
    rw [absolute?_of_isAbsolute habsolute] at hr
    obtain rfl := Option.some.inj hr
    exact congrArg pathOf (walk_of_names hnames hl hlocate)

end Files

end Stencil
