import Mathlib.Data.List.Basic
import Stencil.Bundle.Resolve
import Stencil.Proofs.Outcome
import Stencil.Proofs.Text.Split

/-!
# Specifiers relative to the importing file

A specifier whose first piece is `.` or `..` means a path from the directory of the importing file.
This module says where such a specifier is looked for.

* `places` — the files that a candidate can stand for, in their order: the path itself, the path
  with each extension of modules, and for a directory its main file and its index;
* `consulted` — what is looked at to find the first of them;
* `ResolvesAmong` — the specifier stands for the first file among the places of candidates, and
  nothing else is looked at (`resolvesAmong_candidates`);
* `ResolvesBeside` — the only candidate is the path from the importing file.

A specifier counts as a path by how its text begins, and this takes the separator behind the first
piece along. So the specifiers `.` and `..` themselves, where there is no separator, are taken for
names of packages. The main theorem is `resolvesBeside_of_isRelative`.
-/

namespace Stencil.Bundle

/-! ### Relative specifiers -/

/-- The first piece of the specifier is the directory itself or the one above. -/
def IsRelative (specifier : String) : Prop :=
  (Path.mk specifier).pieces.head? = some "." ∨ (Path.mk specifier).pieces.head? = some ".."

instance (specifier : String) : Decidable (IsRelative specifier) :=
  inferInstanceAs (Decidable (_ ∨ _))

/-- A text is its first piece, or starts with this piece and the separator behind it. -/
theorem eq_or_startsWith_of_head? {s piece start : String}
    (h : (Path.mk s).pieces.head? = some piece) (hstart : start.toList = piece.toList ++ ['/']) :
    s = piece ∨ Text.startsWith s start = true := by
  obtain ⟨first, others, hsplit⟩ := List.exists_cons_of_ne_nil (Text.splitAt_ne_nil '/' s.toList)
  rw [Path.pieces, hsplit] at h
  obtain rfl : String.ofList first = piece := Option.some.inj h
  -- The first piece is the whole text, or a separator follows it.
  rcases Text.eq_or_exists_of_splitAt hsplit with hs | ⟨rest, hs⟩
  · exact .inl (by rw [← hs, String.ofList_toList])
  · refine .inr (List.isPrefixOf_iff_prefix.2 ⟨rest, ?_⟩)
    rw [hs, hstart, String.toList_ofList, List.append_assoc]
    rfl

/-- A relative specifier is taken for a path unless it has one piece only. -/
theorem isPathSpecifier_of_isRelative {specifier : String} (h : IsRelative specifier)
    (hself : specifier ≠ ".") (habove : specifier ≠ "..") : isPathSpecifier specifier = true := by
  -- Without a separator behind it the piece would be the specifier itself.
  unfold isPathSpecifier
  rcases h with h | h
  · have hstart : Text.startsWith specifier "./" = true :=
      (eq_or_startsWith_of_head? h (by decide)).resolve_left hself
    rw [hstart, Bool.true_or, Bool.true_or]
  · have hstart : Text.startsWith specifier "../" = true :=
      (eq_or_startsWith_of_head? h (by decide)).resolve_left habove
    rw [hstart, Bool.or_true, Bool.true_or]

/-! ### Places -/

/-- The files that a directory can stand for: the one its manifest names, and its index. -/
def mainPlaces (fs : Files) (directory : Path) : List Path :=
  (mainOf? fs directory).toList.flatMap (fun main => spellings (directory.join main))
    ++ spellings (directory.join "index")

/-- The files that a candidate can stand for, in their order. -/
def places (fs : Files) (candidate : Path) : List Path :=
  spellings candidate ++ if fs.isDirectory candidate then mainPlaces fs candidate else []

/-- What is looked at to find the file that a candidate stands for. The candidate itself is the
first of its places. -/
def consulted (fs : Files) (candidate : Path) : List Path :=
  candidate.join "package.json" :: places fs candidate

/-- **A candidate stands for the first of its places that is a file.** -/
theorem moduleAt?_eq (fs : Files) (candidate : Path) :
    moduleAt? fs candidate = (places fs candidate).find? fs.isFile := by
  unfold moduleAt? directoryAt? places mainPlaces
  rw [List.find?_append]
  -- A candidate that is a directory has more places: those of its main file.
  split
  · rw [List.find?_append]
    cases mainOf? fs candidate with
    | none => rfl
    | some main =>
      rw [Option.toList_some, List.flatMap_singleton]
      rfl
  · rfl

section

variable {fs fs' : Files} {candidate : Path}

/-- A candidate is among its own places. -/
theorem candidate_mem_places : candidate ∈ places fs candidate :=
  List.mem_append_left _ List.mem_cons_self

/-- Whether a path is a file depends on what is found there. -/
theorem isFile_congr {p : Path} (h : fs'.find p = fs.find p) : fs'.isFile p = fs.isFile p := by
  unfold Files.isFile
  rw [h]

/-- File systems that agree on what is consulted for the one have the same places. -/
theorem places_congr (h : ∀ p ∈ consulted fs candidate, fs'.find p = fs.find p) :
    places fs' candidate = places fs candidate := by
  have hdirectory : fs'.isDirectory candidate = fs.isDirectory candidate := by
    unfold Files.isDirectory
    rw [h candidate (List.mem_cons_of_mem _ candidate_mem_places)]
  have hmain : mainOf? fs' candidate = mainOf? fs candidate := by
    unfold mainOf? Files.read
    rw [h _ List.mem_cons_self]
  -- The snapshots are asked only whether it is a directory and for its main file.
  unfold places mainPlaces
  rw [hdirectory, hmain]

/-- So where a candidate leads depends on the paths that are consulted. -/
theorem moduleAt?_congr (h : ∀ p ∈ consulted fs candidate, fs'.find p = fs.find p) :
    moduleAt? fs' candidate = moduleAt? fs candidate := by
  have hfiles : ∀ p ∈ places fs candidate, fs'.isFile p = fs.isFile p := fun p hp =>
    isFile_congr (h p (List.mem_cons_of_mem _ hp))
  rw [moduleAt?_eq, moduleAt?_eq, places_congr h, ← List.head?_filter, ← List.head?_filter,
    List.filter_congr hfiles]

/-- Every file has a canonical path. -/
theorem exists_canonical {p : Path} (h : fs.isFile p = true) : ∃ q, fs.canonical p = .ok q := by
  unfold Files.isFile at h
  unfold Files.canonical
  cases hfind : fs.find p with
  | ok found => exact ⟨_, rfl⟩
  | error cause =>
    rw [hfind] at h
    cases h

end

/-! ### Resolution -/

/-- **A specifier resolves among candidates**: it stands for the first file among the places of the
candidates, nothing else is looked at, and there is no answer where none of these places is a
file. -/
structure ResolvesAmong (fs : Files) (importer : Path) (specifier : String) (tried : List Path) :
    Prop where
  ok_iff : ∀ path, resolve fs importer specifier = .ok path ↔
    ∃ file, (tried.flatMap (places fs)).find? fs.isFile = some file ∧ fs.canonical file = .ok path
  exists_ok_iff : (∃ path, resolve fs importer specifier = .ok path) ↔
    ∃ file ∈ tried.flatMap (places fs), fs.isFile file = true
  unresolved_of_no_file : (∀ path, resolve fs importer specifier ≠ .ok path) →
    resolve fs importer specifier = .error (.unresolved specifier importer)
  only : ∀ fs' : Files, (∀ p ∈ tried.flatMap (consulted fs), fs'.find p = fs.find p) →
    resolve fs' importer specifier = resolve fs importer specifier

/-- The specifier is looked for beside the importing file, as a path from its directory. -/
def ResolvesBeside (fs : Files) (importer : Path) (specifier : String) : Prop :=
  ResolvesAmong fs importer specifier [(importDirectory importer).join specifier]

/-- The specifier is looked for as a package, in the directory of the importing file and in each one
above it. -/
def ResolvesInPackages (fs : Files) (importer : Path) (specifier : String) : Prop :=
  ResolvesAmong fs importer specifier
    ((importDirectory importer).ancestors.map fun up => (up.join "node_modules").join specifier)

section

variable {fs : Files} {importer : Path} {specifier : String}

/-- The first file of candidates is the first among all their places. -/
theorem findSome?_moduleAt? (fs : Files) (tried : List Path) :
    tried.findSome? (moduleAt? fs) = (tried.flatMap (places fs)).find? fs.isFile := by
  rw [List.find?_flatMap]
  exact congrArg (tried.findSome? ·) (funext (moduleAt?_eq fs))

/-- **Every specifier resolves among its candidates.** -/
theorem resolvesAmong_candidates (fs : Files) (importer : Path) (specifier : String) :
    ResolvesAmong fs importer specifier (candidates importer specifier) := by
  have hok : ∀ path, resolve fs importer specifier = .ok path ↔
      ∃ file, ((candidates importer specifier).flatMap (places fs)).find? fs.isFile = some file ∧
        fs.canonical file = .ok path := by
    intro path
    unfold resolve
    rw [findSome?_moduleAt?]
    cases hfind : ((candidates importer specifier).flatMap (places fs)).find? fs.isFile with
    | none => exact ⟨nofun, nofun⟩
    | some file =>
      obtain ⟨q, hq⟩ := exists_canonical (List.find?_some hfind)
      dsimp only
      rw [hq]
      constructor
      · rintro ⟨⟩
        exact ⟨file, rfl, hq⟩
      · rintro ⟨_, ⟨⟩, hpath⟩
        rw [hq] at hpath
        rw [Except.ok.inj hpath]
  refine ⟨hok, ⟨?_, ?_⟩, fun hnone => ?_, fun fs' hagree => ?_⟩
  · rintro ⟨path, hpath⟩
    obtain ⟨file, hfile, -⟩ := (hok path).1 hpath
    exact ⟨file, List.mem_of_find?_eq_some hfile, List.find?_some hfile⟩
  · rintro ⟨file, hfile, hisFile⟩
    -- The first file is at this place or before it.
    obtain ⟨first, hfirst⟩ :=
      Option.isSome_iff_exists.1 (List.find?_isSome.2 ⟨file, hfile, hisFile⟩)
    obtain ⟨path, hpath⟩ := exists_canonical (List.find?_some hfirst)
    exact ⟨path, (hok path).2 ⟨first, hfirst, hpath⟩⟩
  · cases hfind : ((candidates importer specifier).flatMap (places fs)).find? fs.isFile with
    | none => rw [resolve, findSome?_moduleAt?, hfind]
    | some file =>
      obtain ⟨path, hpath⟩ := exists_canonical (List.find?_some hfind)
      exact absurd ((hok path).2 ⟨file, hfind, hpath⟩) (hnone path)
  · -- The two file systems have the same modules at the candidates, and the one that is found has
    -- the same canonical path.
    have hmodules : ∀ c ∈ candidates importer specifier, moduleAt? fs' c = moduleAt? fs c :=
      fun c hc => moduleAt?_congr fun p hp => hagree p (List.mem_flatMap.2 ⟨c, hc, hp⟩)
    unfold resolve
    rw [← List.head?_filterMap, List.filterMap_congr hmodules, List.head?_filterMap]
    cases hfound : (candidates importer specifier).findSome? (moduleAt? fs) with
    | none => rfl
    | some found =>
      rw [findSome?_moduleAt?] at hfound
      obtain ⟨c, hc, hplace⟩ := List.mem_flatMap.1 (List.mem_of_find?_eq_some hfound)
      have hfind := hagree found (List.mem_flatMap.2 ⟨c, hc, List.mem_cons_of_mem _ hplace⟩)
      dsimp only
      unfold Files.canonical
      rw [hfind]

end

/-- **Relative specifiers resolve beside the importing file, except for `.` and `..` themselves.**
In every file system, a specifier whose first piece is `.` or `..` stands for the first file among
the places of the path from the importing file, and nothing else is looked at. The specifiers `.`
and `..` are looked for as packages, in the directories for packages around the importing file and
nowhere else. -/
theorem resolvesBeside_of_isRelative {specifier : String} (h : IsRelative specifier) (fs : Files)
    (importer : Path) :
    (specifier ≠ "." → specifier ≠ ".." → ResolvesBeside fs importer specifier) ∧
    (specifier = "." ∨ specifier = ".." → ResolvesInPackages fs importer specifier) := by
  -- Resolution searches the candidates in order, and the test on the specifier picks them.
  have hamong := resolvesAmong_candidates fs importer specifier
  unfold candidates at hamong
  refine ⟨fun hself habove => ?_, fun hdots => ?_⟩
  · rwa [if_pos (isPathSpecifier_of_isRelative h hself habove)] at hamong
  · have hpackage : isPathSpecifier specifier = false := by
      rcases hdots with rfl | rfl <;> decide
    rwa [hpackage] at hamong

/-- A directory beside the one of the importing file, with a manifest that names its main file
without the extension. -/
theorem resolvesBeside_of_isRelative_main :
    let fs : Files := { entries := [(["a"], .directory), (["a", "page.js"], .file (some "")),
      (["b"], .directory), (["b", "package.json"], .file (some "\x7b\"main\":\"m\"\x7d")),
      (["b", "m.js"], .file (some "")), (["b", "index.js"], .file (some ""))] }
    IsRelative "../b" ∧ ResolvesBeside fs ⟨"/a/page.js"⟩ "../b" ∧
      resolve fs ⟨"/a/page.js"⟩ "../b" = .ok ⟨"/b/m.js"⟩ := by
  intro fs
  have hrelative : IsRelative "../b" := by decide
  exact ⟨hrelative, (resolvesBeside_of_isRelative hrelative fs _).1 (by decide) (by decide),
    eq_ok_of_toOption (by decide +kernel)⟩

/-- **The specifier `..` can lead back to the importing file.** Next to a directory for packages,
the way down into that directory and up again ends where it started, so the file found is the index
of the directory itself and not the one of the directory above. -/
theorem parent_specifier_leads_back :
    let fs : Files := { entries := [(["index.js"], .file (some "")), (["a"], .directory),
      (["a", "index.js"], .file (some "")), (["a", "node_modules"], .directory)] }
    let importer : Path := ⟨"/a/index.js"⟩
    IsRelative ".." ∧ resolve fs importer ".." = .ok importer ∧
      (places fs ((importDirectory importer).join "..")).find? fs.isFile
        = some ⟨"/a/../index.js"⟩ ∧
      fs.canonical ⟨"/a/../index.js"⟩ = .ok ⟨"/index.js"⟩ ∧
      ¬ResolvesBeside fs importer ".." := by
  intro fs importer
  have hresolve : resolve fs importer ".." = .ok importer :=
    eq_ok_of_toOption (by decide +kernel)
  have hfirst : (places fs ((importDirectory importer).join "..")).find? fs.isFile
      = some ⟨"/a/../index.js"⟩ := by decide +kernel
  have hcanonical : fs.canonical ⟨"/a/../index.js"⟩ = .ok ⟨"/index.js"⟩ :=
    eq_ok_of_toOption (by decide +kernel)
  refine ⟨by decide, hresolve, hfirst, hcanonical, fun h => ?_⟩
  -- The first of the places is a file, and a canonical path is unique.
  obtain ⟨file, hfile, himporter⟩ := (ResolvesAmong.ok_iff h importer).1 hresolve
  rw [List.flatMap_singleton] at hfile
  obtain rfl : _ = file := Option.some.inj (hfirst.symm.trans hfile)
  have hsame : (⟨"/index.js"⟩ : Path) = importer :=
    Except.ok.inj (hcanonical.symm.trans himporter)
  revert hsame
  decide

end Stencil.Bundle
