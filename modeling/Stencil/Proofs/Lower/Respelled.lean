import Mathlib.Logic.Equiv.Basic
import Stencil.Proofs.Lower.Marks

/-!
# A module under two spellings of its file

A module is lowered with the path of its file as it was given. The path gets into the result in
three places: it is the file of every component and the place every import is required from, and a
default export without a name is named after it. Everything else is the same for two spellings `f`
and `g` of one path:

* `respelling f g` — the names, with the two names for such a default export swapped;
* `Component.respell f g` — a component, if it is of the file `f`, as one of the file `g`;
* `Lowered.Respelled f g` — one module lowered under both spellings.

Each step of the first pass commutes with the swap (`respell_add`), since a name of the script has
no colon and the two names have one. For the same reason the swap keeps the order of the names that
a module declares (`respelling_lt`), and the first of its default exports stays the first. Tags can
have a colon, but the pass does not look at them. The main theorem is `Lowered.optimized_respelled`.
-/

namespace Stencil

open Script (IsTagName IsWord Expr Form Function Item Declarator DeclarationKind ImportName Stmt
  Module)
open Lower (anonymousName)

/-! ### Dictionaries with their keys renamed -/

namespace Dict

variable {α β : Type} {σ : Equiv.Perm String}

/-- A look-up does not see the renaming of keys that are not there. -/
theorem get?_of_fixed {look : String → Option α}
    (h : ∀ key, (look key).isSome = true → σ key = key) (key : String) :
    look (σ key) = look key := by
  by_cases hkey : (look key).isSome = true
  · rw [h key hkey]
  · by_cases hrenamed : (look (σ key)).isSome = true
    · -- The renamed key is fixed, so it is the key itself.
      have heq : σ key = key := σ.injective (h (σ key) hrenamed)
      rw [heq]
    · rw [Option.not_isSome_iff_eq_none.1 hkey, Option.not_isSome_iff_eq_none.1 hrenamed]

/-- Renaming the keys and mapping the values of the entries renames and maps the dictionary. -/
theorem get?_ofList_rename (φ : α → β) (es : List (String × α)) (key : String) :
    (ofList (es.map fun e => (σ e.1, φ e.2))).get? (σ key) = ((ofList es).get? key).map φ := by
  -- Generalised over the dictionary that the fold has reached, whose keys `σ` need only fix.
  have hfold : ∀ (d : Dict α) (d' : Dict β), (∀ k, d'.get? (σ k) = (d.get? k).map φ) →
      ∀ k, ((es.map fun e => (σ e.1, φ e.2)).foldl (fun d e => d.insert e.1 e.2) d').get? (σ k)
        = ((es.foldl (fun d e => d.insert e.1 e.2) d).get? k).map φ := by
    induction es with
    | nil => exact fun d d' h => h
    | cons e rest ih =>
      intro d d' h
      refine ih (d.insert e.1 e.2) (d'.insert (σ e.1) (φ e.2)) fun k => ?_
      rw [get?_insert, get?_insert]
      by_cases hk : k = e.1
      · rw [if_pos hk, if_pos (congrArg σ hk), Option.map_some]
      · rw [if_neg hk, if_neg (σ.injective.ne hk), h k]
  exact hfold empty empty (fun _ => rfl) key

/-- What a dictionary answers is one of the entries it was built from. -/
theorem mem_of_get?_ofList {es : List (String × α)} {key : String} {value : α}
    (h : (ofList es).get? key = some value) : (key, value) ∈ es := by
  -- What the fold holds is an entry of the list or was in the dictionary it started from.
  have hfold : ∀ d : Dict α, (es.foldl (fun d e => d.insert e.1 e.2) d).get? key = some value →
      (key, value) ∈ es ∨ d.get? key = some value := by
    clear h
    induction es with
    | nil => exact fun d h => .inr h
    | cons e rest ih =>
      intro d h
      rcases ih (d.insert e.1 e.2) h with hmem | hget
      · exact .inl (List.mem_cons_of_mem _ hmem)
      · rw [get?_insert] at hget
        split at hget
        · next heq =>
          cases hget
          exact .inl (heq ▸ List.mem_cons_self)
        · exact .inr hget
  exact (hfold empty h).resolve_right nofun

/-- **The first value that passes a check** is the same under other keys, if these are in the same
order where the check is passed. -/
theorem find?_values_rename {d e : Dict α} {check : α → Bool} {φ : α → α}
    (hget : ∀ key, e.get? (σ key) = (d.get? key).map φ)
    (hcheck : ∀ value ∈ d.values, check (φ value) = check value)
    (hmono : ∀ j a k b, d.get? j = some a → check a = true → d.get? k = some b → check b = true →
      j < k → σ j < σ k) :
    e.values.find? check = (d.values.find? check).map φ := by
  have : Std.Irrefl fun a b : String × α => a.1 < b.1 := ⟨fun a => String.lt_irrefl a.1⟩
  have : Std.Antisymm fun a b : String × α => a.1 < b.1 :=
    ⟨fun _ _ hab hba => absurd hba (String.lt_asymm hab)⟩
  have hpasses {j : String} {a : α} (ha : (j, a) ∈ d.entries) : check (φ a) = check a :=
    hcheck a (List.mem_map.2 ⟨_, ha, rfl⟩)
  have hfilter : e.entries.filter (fun x => check x.2)
      = (d.entries.filter fun x => check x.2).map fun x => (σ x.1, φ x.2) := by
    -- Both sides are sorted by key, so it is enough that they have the same entries.
    refine List.Pairwise.eq_of_mem_iff (e.sorted.filter _) ?_ fun x => ?_
    · refine List.pairwise_map.2 (List.Pairwise.imp_of_mem ?_ (d.sorted.filter _))
      rintro ⟨j, a⟩ ⟨k, b⟩ ha hb hlt
      obtain ⟨ha, hca⟩ := List.mem_filter.1 ha
      obtain ⟨hb, hcb⟩ := List.mem_filter.1 hb
      exact hmono j a k b (get?_eq_some_iff.2 ha) hca (get?_eq_some_iff.2 hb) hcb hlt
    · rw [List.mem_filter, List.mem_map]
      constructor
      · rintro ⟨hx, hcx⟩
        obtain ⟨key, value⟩ := x
        -- Every key is the new name of some key.
        obtain ⟨j, rfl⟩ := σ.surjective key
        rw [← get?_eq_some_iff, hget] at hx
        obtain ⟨a, ha, rfl⟩ := Option.map_eq_some_iff.1 hx
        have ha := get?_eq_some_iff.1 ha
        exact ⟨(j, a), List.mem_filter.2 ⟨ha, (hpasses ha).symm.trans hcx⟩, rfl⟩
      · rintro ⟨⟨j, a⟩, hmem, rfl⟩
        obtain ⟨ha, hca⟩ := List.mem_filter.1 hmem
        have hnew : e.get? (σ j) = some (φ a) := by
          rw [hget, get?_eq_some_iff.2 ha, Option.map_some]
        exact ⟨get?_eq_some_iff.1 hnew, (hpasses ha).trans hca⟩
  rw [find?_values, find?_values, hfilter, List.head?_map, Option.map_map, Option.map_map]
  rfl

end Dict

/-! ### Names of default exports -/

/-- Swaps the two names for a default export without a name. -/
def respelling (f g : Path) : Equiv.Perm String :=
  Equiv.swap (anonymousName (some f)) (anonymousName (some g))

/-- The name after one file becomes the name after the other. -/
theorem respelling_anonymousName (f g : Path) :
    respelling f g (anonymousName (some f)) = anonymousName (some g) :=
  Equiv.swap_apply_left _ _

/-- All other names stay. -/
theorem respelling_of_ne {f g : Path} {name : String} (hf : name ≠ anonymousName (some f))
    (hg : name ≠ anonymousName (some g)) : respelling f g name = name :=
  Equiv.swap_apply_of_ne_of_ne hf hg

/-- Behind a colon the name goes on with the path. -/
theorem toList_anonymousName (p : Path) :
    (anonymousName (some p)).toList = "DefaultComponent".toList ++ ':' :: p.text.toList :=
  String.toList_append

/-- The name is no word. -/
theorem ne_anonymousName {name : String} (h : IsWord name.toList) (p : Path) :
    name ≠ anonymousName (some p) := by
  rintro rfl
  refine h.notMem (c := ':') (by decide) ?_
  rw [toList_anonymousName]
  exact List.mem_append_right _ List.mem_cons_self

/-- Names of the script stay as they are. -/
theorem respelling_of_isWord {f g : Path} {name : String} (h : IsWord name.toList) :
    respelling f g name = name :=
  respelling_of_ne (ne_anonymousName h f) (ne_anonymousName h g)

/-- What follows the first colon does not matter for a text without one. -/
theorem lt_append_colon {cs : List Char} (h : ':' ∉ cs) (before rest rest' : List Char) :
    cs < before ++ ':' :: rest ↔ cs < before ++ ':' :: rest' := by
  -- Up to the colon the two right sides agree, and `cs` has none, so the comparison is decided by
  -- then.
  induction before generalizing cs with
  | nil =>
    cases cs with
    | nil => exact iff_of_true (List.nil_lt_cons _ _) (List.nil_lt_cons _ _)
    | cons c cs =>
      have hc : c ≠ ':' := fun heq => h (heq ▸ List.mem_cons_self)
      rw [List.nil_append, List.nil_append, List.cons_lt_cons_iff, List.cons_lt_cons_iff]
      exact or_congr_right (iff_of_false (fun h => hc h.1) fun h => hc h.1)
  | cons b before ih =>
    cases cs with
    | nil => exact iff_of_true (List.nil_lt_cons _ _) (List.nil_lt_cons _ _)
    | cons c cs =>
      rw [List.cons_append, List.cons_append, List.cons_lt_cons_iff, List.cons_lt_cons_iff,
        ih fun hmem => h (List.mem_cons_of_mem _ hmem)]

/-- A name of the script comes before the generated names of all files or before none. -/
theorem lt_anonymousName_iff {name : String} (h : IsWord name.toList) (f g : Path) :
    name < anonymousName (some f) ↔ name < anonymousName (some g) := by
  rw [String.lt_iff, String.lt_iff, toList_anonymousName, toList_anonymousName]
  exact lt_append_colon (h.notMem (by decide)) _ _ _

/-- The names that the module of a file can declare its components under. -/
def Declarable (file : Path) (name : String) : Prop :=
  IsWord name.toList ∨ name = anonymousName (some file)

/-- **The names that a module declares keep their order**, since those of the script have no
colon. -/
theorem respelling_lt {f g : Path} {j k : String} (hj : Declarable f j) (hk : Declarable f k)
    (h : j < k) : respelling f g j < respelling f g k := by
  rcases hj with hj | rfl
  · rw [respelling_of_isWord hj]
    rcases hk with hk | rfl
    · rwa [respelling_of_isWord hk]
    · rw [respelling_anonymousName]
      exact (lt_anonymousName_iff hj f g).1 h
  · rw [respelling_anonymousName]
    rcases hk with hk | rfl
    · -- A name of the script is never between the two, so it comes after both or before both.
      rw [respelling_of_isWord hk]
      have hnot : ¬k < anonymousName (some g) := fun hlt =>
        String.lt_asymm h ((lt_anonymousName_iff hk f g).2 hlt)
      exact Std.lt_of_le_of_ne (String.not_lt.1 hnot) (ne_anonymousName hk g).symm
    · exact absurd h (String.lt_irrefl _)

/-! ### The first pass -/

/-- The import as one of another file. -/
def Dependency.requiredBy (file : Path) (d : Dependency) : Dependency :=
  { d with requiredFrom := some file }

/-- A component of the file `f` as one of the file `g`; all others stay as they are. -/
def Component.respell (f g : Path) (c : Component) : Component :=
  if c.file = some f then
    { c with
      signature := { c.signature with name := respelling f g c.signature.name }
      file := some g }
  else c

namespace Lower

/-- The candidate under another name. -/
def Candidate.rename (σ : Equiv.Perm String) (k : Candidate) : Candidate :=
  { k with name := σ k.name }

/-- A candidate is renamed like its name. -/
theorem rename_candidate? (σ : Equiv.Perm String) (name : String) (isDefault : Bool)
    (fn : Function) :
    (candidate? name isDefault fn).map (·.rename σ) = candidate? (σ name) isDefault fn := by
  unfold candidate?
  rw [Option.map_map]
  rfl

/-- The same of a candidate whose name has to be one of a component, if both names are or neither
is. -/
theorem rename_component? {σ : Equiv.Perm String} {name : String}
    (h : isComponentName (σ name) = isComponentName name) (isDefault : Bool) (fn : Function) :
    (component? name isDefault fn).map (·.rename σ) = component? (σ name) isDefault fn := by
  unfold component?
  rw [h]
  split
  · exact rename_candidate? σ name isDefault fn
  · rfl

/-- The name of a default export without a name is one of a component. -/
theorem isComponentName_anonymousName (file : Path) :
    isComponentName (anonymousName (some file)) = true := by
  unfold isComponentName anonymousName
  rw [String.toList_append]
  rfl

namespace Harvest

/-- What a module declares, with its imports and its default export under the other spelling. -/
def respell (f g : Path) (h : Harvest) : Harvest :=
  { h with
    dependencies := h.dependencies.mapValues fun _ d => d.requiredBy g
    candidates := h.candidates.map (·.rename (respelling f g)) }

variable {f g : Path}

/-- If each step commutes with respelling, so does the fold. -/
theorem respell_foldl {α : Type} {step step' : Harvest → α → Harvest} {as : List α}
    (hstep : ∀ h, ∀ a ∈ as, step' (h.respell f g) a = (step h a).respell f g) (h : Harvest) :
    as.foldl step' (h.respell f g) = (as.foldl step h).respell f g := by
  induction as generalizing h with
  | nil => rfl
  | cons a as ih =>
    rw [List.foldl_cons, List.foldl_cons, hstep h a List.mem_cons_self]
    exact ih (fun h a ha => hstep h a (List.mem_cons_of_mem _ ha)) (step h a)

/-- A candidate is added under its respelled name. -/
theorem respell_addCandidate (h : Harvest) (c : Option Candidate) :
    (h.respell f g).addCandidate (c.map (·.rename (respelling f g)))
      = (h.addCandidate c).respell f g := by
  unfold addCandidate respell
  rw [List.map_append]
  cases c <;> rfl

/-- An import is required from the other file; its tag is a name and stays. -/
theorem respell_addImport (source : String) (h : Harvest) (n : ImportName) :
    (h.respell f g).addImport (some g) source n = (h.addImport (some f) source n).respell f g := by
  -- What is recorded of an import depends on the file in one field only.
  have hrecord (name : String) (imported : Option String) :
      addImport.record (some g) source (h.respell f g) name imported
        = (addImport.record (some f) source h name imported).respell f g := by
    unfold addImport.record respell
    rw [Dict.mapValues_insert]
    rfl
  cases n with
  | default name => exact hrecord name none
  | named name imported => exact hrecord name _
  | whole name => rfl

/-- A constant is judged by the constants before it, which are the same. -/
theorem respell_addConstant (h : Harvest) (name code : String) :
    (h.respell f g).addConstant name code = (h.addConstant name code).respell f g := by
  unfold addConstant
  rw [apply_ite (respell f g)]
  rfl

/-- Prop types are kept by names of the script, which stay. -/
theorem respell_addPropTypes (h : Harvest) (e : Expr) :
    (h.respell f g).addPropTypes e = (h.addPropTypes e).respell f g := by
  unfold addPropTypes
  split
  · split
    · rfl
    · rfl
  · rfl

/-- A component with a name of the script keeps it. -/
theorem respell_addComponent (h : Harvest) {name : String} (hname : IsWord name.toList)
    (isDefault : Bool) (fn : Function) :
    (h.respell f g).addCandidate (component? name isDefault fn)
      = (h.addCandidate (component? name isDefault fn)).respell f g := by
  have hfixed : respelling f g name = name := respelling_of_isWord hname
  have hrename := rename_component? (congrArg isComponentName hfixed) isDefault fn
  rw [hfixed] at hrename
  rw [← respell_addCandidate, hrename]

/-- A variable has a name of the script. -/
theorem respell_addVariable (kind : DeclarationKind) (h : Harvest) {d : Declarator}
    (hd : d.Named IsTagName) :
    (h.respell f g).addVariable kind d = (h.addVariable kind d).respell f g := by
  unfold addVariable
  -- A variable adds a component, a constant or nothing.
  split
  · next name value =>
    split
    · exact respell_addComponent h hd.1 false _
    · exact respell_addComponent h hd.1 false _
    · split
      · exact respell_addConstant h name value.bare.text
      · rfl
  · rfl

/-- So has everything that a declaration declares. -/
theorem respell_addDeclaration (h : Harvest) {s : Stmt} (hs : s.Named IsTagName) :
    (h.respell f g).addDeclaration s = (h.addDeclaration s).respell f g := by
  unfold addDeclaration
  split
  · next kind declarators =>
    have hall := Script.declaratorsNamed_iff.1 hs
    exact respell_foldl (fun h d hd => respell_addVariable kind h (hall d hd)) h
  · next fn =>
    obtain ⟨name, params, rest, body⟩ := fn
    -- A function without a name adds no candidate.
    cases name with
    | none => exact respell_addCandidate h none
    | some n => exact respell_addComponent h (hs.1 n rfl) false _
  · rfl

/-- A default export is named in the script, or after the file. -/
theorem respell_addDefault (h : Harvest) (e : Expr) :
    (h.respell f g).addDefault (some g) e = (h.addDefault (some f) e).respell f g := by
  unfold addDefault
  split
  · next fn =>
    rw [← respell_addCandidate, rename_candidate?, respelling_anonymousName]
  · rfl
  · rfl

/-- The same of a function that is exported where it is declared. -/
theorem respell_addDefaultFunction (h : Harvest) {fn : Function} (hfn : fn.Named IsTagName) :
    (h.respell f g).addDefaultFunction (some g) fn
      = (h.addDefaultFunction (some f) fn).respell f g := by
  obtain ⟨name, params, rest, body⟩ := fn
  cases name with
  | none =>
    -- Both names look like those of components.
    have hlook : isComponentName (respelling f g (anonymousName (some f)))
        = isComponentName (anonymousName (some f)) := by
      rw [respelling_anonymousName, isComponentName_anonymousName, isComponentName_anonymousName]
    have hrename := rename_component? hlook true (.mk none params rest body)
    rw [respelling_anonymousName] at hrename
    unfold addDefaultFunction
    rw [← respell_addCandidate, Function.name, Option.getD_none, Option.getD_none, hrename]
  | some n => exact respell_addComponent h (hfn.1 n rfl) true _

/-- One step of the first pass. -/
theorem respell_add (h : Harvest) {item : Item} (hitem : item.Named IsTagName) :
    (h.respell f g).add (some g) item = (h.add (some f) item).respell f g := by
  unfold add
  -- Only default exports ask for the file; the other items are harvested alike.
  split
  · exact respell_foldl (fun h n _ => respell_addImport _ h n) h
  · exact respell_addPropTypes h _
  · exact respell_addDeclaration h hitem
  · exact respell_addDeclaration h hitem
  · exact respell_addDefaultFunction h hitem
  · exact respell_addDefault h _
  · rfl

end Harvest

/-- **What a module declares under two spellings of its file.** -/
theorem harvest_respelled {f g : Path} {source : String} {m : Module}
    (h : Module.parse? source = some m) : harvest (some g) m
      = (harvest (some f) m).respell f g := by
  have hitems := Script.named_of_parse? h
  exact Harvest.respell_foldl
    (fun h item hitem => Harvest.respell_add h (hitems item hitem)) {}

end Lower

/-! ### Components -/

namespace Component

variable {f g : Path}

/-- A component of the file gets the other file and the respelled name. -/
theorem respell_of_file {c : Component} (h : c.file = some f) :
    c.respell f g = { c with
      signature := { c.signature with name := respelling f g c.signature.name }
      file := some g } :=
  if_pos h

/-- A component of any other file stays as it is. -/
theorem respell_of_file_ne {c : Component} (h : c.file ≠ some f) : c.respell f g = c :=
  if_neg h

@[simp] theorem body_respell (c : Component) : (c.respell f g).body = c.body := by
  unfold respell
  split <;> rfl

@[simp] theorem isDefault_respell (c : Component) : (c.respell f g).isDefault = c.isDefault := by
  unfold respell
  split <;> rfl

/-- A call binds the same props to it. -/
@[simp] theorem bind_respell (c : Component) (attributes : List Attribute) :
    (c.respell f g).signature.bind attributes = c.signature.bind attributes := by
  unfold respell
  split <;> rfl

/-- The passes read the props and the constants of a component, not its name. -/
theorem optimize_respell (c : Component) :
    (c.respell f g).optimize = c.optimize.respell f g := by
  unfold respell optimize
  split <;> rfl

end Component

namespace Lower.Harvest

variable {f g : Path} {h : Harvest}

section

variable (hplain : h.Plain (some f))

include hplain

/-- The candidate that is exported by its name is the same one. -/
theorem marked_respell :
    (h.respell f g).marked = h.marked.map (·.rename (respelling f g)) := by
  unfold marked respell
  rw [List.map_map, List.map_map]
  refine List.map_congr_left fun k _ => ?_
  -- The default's name is a name of the script, and the respelling fixes it.
  have hname : (h.defaultName == some (respelling f g k.name))
      = (h.defaultName == some k.name) := by
    cases hdefault : h.defaultName with
    | none => rfl
    | some n =>
      have hn : respelling f g n = n :=
        respelling_of_isWord (hplain.defaultName n hdefault)
      rw [Bool.eq_iff_iff, beq_iff_eq, beq_iff_eq, Option.some.injEq, Option.some.injEq]
      nth_rewrite 1 [← hn]
      exact (respelling f g).injective.eq_iff
  rw [Function.comp_apply, Function.comp_apply]
  unfold Candidate.rename
  rw [hname]

/-- Whether props are required is looked up by a name of the script. -/
theorem withRequired_respell (name : String) (c : Component) :
    withRequired h.required (respelling f g name) (c.respell f g)
      = (withRequired h.required name c).respell f g := by
  -- The required names are read off the script too, and are fixed for the same reason.
  have hget : h.required.get? (respelling f g name) = h.required.get? name :=
    Dict.get?_of_fixed (fun key hkey => respelling_of_isWord (hplain.required key hkey)) name
  unfold withRequired
  rw [hget]
  cases h.required.get? name with
  | none => rfl
  | some names =>
    unfold Component.respell
    dsimp only
    split <;> rfl

/-- The component that a respelled module keeps under a respelled name is the respelled
component. -/
theorem component_respell (name : String) :
    ((h.respell f g).components (some g)).get? (respelling f g name)
      = ((h.components (some f)).get? name).map (·.respell f g) := by
  -- Before the required props are added, every entry is renamed on its own.
  have hentries : (h.respell f g).marked.map
      (fun k => (k.name, k.component (h.respell f g).constants (some g)))
        = (h.marked.map fun k => (k.name, k.component h.constants (some f))).map
          fun e => (respelling f g e.1, e.2.respell f g) := by
    rw [marked_respell hplain, List.map_map, List.map_map]
    refine List.map_congr_left fun k _ => ?_
    have hfile : (k.component h.constants (some f)).file = some f := rfl
    rw [Function.comp_apply, Function.comp_apply, Component.respell_of_file hfile]
    rfl
  unfold components
  rw [Dict.get?_mapValues, Dict.get?_mapValues, hentries, Dict.get?_ofList_rename, Option.map_map,
    Option.map_map]
  refine congrArg (Option.map · _) (funext fun c => ?_)
  exact withRequired_respell hplain name c

end

/-- The imports are the same, required from the other file. -/
theorem dependencies_respell (h : Harvest) :
    ((h.respell f g).table (some g)).dependencies
      = (h.table (some f)).dependencies.mapValues fun _ d => d.requiredBy g := by
  -- The same elements are made of the same returns, and they mark imports whatever these are.
  have hmarks : (h.respell f g).marks = h.marks := List.flatMap_map ..
  unfold table
  rw [hmarks]
  exact foldl_mark_mapValues (fun _ => rfl) h.marks h.dependencies

/-- A component has a name of the script or is named after the file. -/
theorem Plain.name_of_components {file : Option Path} (hplain : h.Plain file) {name : String}
    {c : Component} (hc : (h.components file).get? name = some c) :
    IsWord name.toList ∨ name = anonymousName file := by
  unfold components at hc
  rw [Dict.get?_mapValues] at hc
  obtain ⟨c₀, hc₀, -⟩ := Option.map_eq_some_iff.1 hc
  obtain ⟨marked, hmarked, heq⟩ := List.mem_map.1 (Dict.mem_of_get?_ofList hc₀)
  -- Components are filed under the names of their candidates.
  obtain ⟨k, hk, rfl⟩ := List.mem_map.1 hmarked
  cases heq
  exact (hplain.candidates k hk).name

end Lower.Harvest

/-! ### Lowered sources -/

/-- The table of a module under two spellings of its file. -/
structure Table.Respelled (f g : Path) (t t' : Table) : Prop where
  component : ∀ name, t'.components.get? (respelling f g name)
    = (t.components.get? name).map (·.respell f g)
  dependencies : t'.dependencies = t.dependencies.mapValues fun _ d => d.requiredBy g

/-- **A module lowered under two spellings of its file.** -/
structure Lowered.Respelled (f g : Path) (l l' : Lowered) : Prop where
  table : l.table.Respelled f g l'.table
  tree : ∃ c : Component, l.tree = .root [c.node] ∧ l'.tree = .root [(c.respell f g).node]

/-- The tags of lowered siblings are tags of the script. -/
theorem Lower.builds_tags {Q : String → Prop} :
    BuildsNodes Q fun ns => ∀ tag ∈ Node.tagsOfList ns, Q tag where
  nil := nofun
  append has hbs := by
    rw [Node.tagsOfList_append]
    exact List.forall_mem_append.2 ⟨has, hbs⟩
  text _ := nofun
  interpolation _ := nofun
  -- Only elements have tags.
  element _ _ htag hcs := by
    rw [Node.tagsOfList_singleton, Node.tags]
    exact List.forall_mem_cons.2 ⟨htag, hcs⟩
  condition _ _ _ has hbs := by
    rw [Node.tagsOfList_singleton, Node.tags, Node.tagsOfOption_slotOf, Node.tagsOfOption_slotOf]
    exact List.forall_mem_append.2 ⟨has, hbs⟩
  iteration _ _ hbody := by
    rw [Node.tagsOfList_singleton, Node.tags]
    exact hbody

namespace Lowered

section Sources

variable {file : Path} {source : String} {l : Lowered}

/-- The same of every component of a module that was lowered and optimized. -/
theorem declarable (h : Lowered.optimized (some file) source = .ok l) {name : String}
    {c : Component} (hc : l.table.components.get? name = some c) : Declarable file name := by
  obtain ⟨l₀, hl₀, -, htable⟩ := optimized_ok h
  obtain ⟨m, -, hm, htable₀, -, -⟩ := ofSource_ok hl₀
  rw [htable, htable₀] at hc
  unfold Table.optimize at hc
  rw [Dict.get?_mapValues] at hc
  obtain ⟨c₀, hc₀, -⟩ := Option.map_eq_some_iff.1 hc
  exact (Lower.plain_harvest hm).name_of_components hc₀

/-- Lowering resolves no import. -/
theorem unresolved (h : Lowered.optimized (some file) source = .ok l) {d : Dependency}
    (hd : d ∈ l.table.dependencies.values) : d.path = none := by
  obtain ⟨l₀, hl₀, -, htable⟩ := optimized_ok h
  obtain ⟨m, -, hm, htable₀, -, -⟩ := ofSource_ok hl₀
  rw [htable, htable₀] at hd
  obtain ⟨name, hname⟩ := Dict.mem_values_iff.1 hd
  -- The passes keep the imports, and a mark leaves the path of an import as it is.
  have hname : (Lower.Harvest.table (some file) _).dependencies.get? name = some d := hname
  rw [Lower.Harvest.get?_dependencies_table] at hname
  obtain ⟨d₀, hd₀, rfl⟩ := Option.map_eq_some_iff.1 hname
  exact (Lower.plain_harvest hm).unresolved d₀ (Dict.mem_values_iff.2 ⟨name, hd₀⟩)

/-- The tags in its bodies are tags of the script. -/
theorem isTagName_tags {file : Option Path} (h : Lowered.optimized file source = .ok l)
    {c : Component} (hc : c ∈ l.table.components.values) :
    ∀ tag ∈ Node.tagsOfList c.body, IsTagName tag := by
  obtain ⟨l₀, hl₀, -, htable⟩ := optimized_ok h
  rw [htable] at hc
  obtain ⟨-, c₀, hc₀, rfl⟩ := Dict.mem_values_mapValues hc
  intro tag htag
  exact built_body Lower.builds_tags hl₀ hc₀ tag ((tags_optimize c₀).subset htag)

theorem isTagName_tree {file : Option Path} (h : Lowered.optimized file source = .ok l) :
    ∀ tag ∈ l.tree.tags, IsTagName tag := by
  obtain ⟨l₀, hl₀, htree, htable⟩ := optimized_ok h
  obtain ⟨c, hdefault, hroot⟩ := (mirrors_ofSource hl₀).optimize
  rw [← htable] at hdefault
  rw [htree, hroot, Node.tags, Node.tagsOfList_singleton]
  exact isTagName_tags h (List.mem_of_find?_eq_some hdefault)

/-- The components of a bundle have tags of the sources it is made of. -/
theorem isTagName_merged {fs : Files} {g : Bundle.Graph}
    (h : Lowered.optimized (some file) source = .ok l) (hg : Bundle.build fs file l = .ok g)
    {c : Component} (hc : c ∈ g.merged.1.optimize.components.values) :
    ∀ tag ∈ Node.tagsOfList c.body, IsTagName tag := by
  obtain ⟨-, c₀, hc₀, rfl⟩ := Dict.mem_values_mapValues hc
  obtain ⟨p, s, l₀, -, hl₀, hc₀⟩ := Bundle.exists_source_of_merged h hg hc₀
  intro tag htag
  exact isTagName_tags hl₀ hc₀ tag ((tags_optimize c₀).subset htag)

end Sources

section Spellings

variable {f g : Path} {l l' : Lowered}

/-- The first default export is the first one under both spellings. -/
theorem default?_respelled {t t' : Table} (h : t.Respelled f g t')
    (hname : ∀ name c, t.components.get? name = some c → Declarable f name) :
    t'.default? = t.default?.map (·.respell f g) := by
  refine Dict.find?_values_rename h.component (fun c _ => c.isDefault_respell) ?_
  intro j a k b ha _ hb _ hlt
  exact respelling_lt (hname j a ha) (hname k b hb) hlt

/-- Optimizing does not look at names, so it keeps two spellings apart by their names only. -/
theorem Respelled.optimize (h : Respelled f g l l') :
    Respelled f g ⟨l.tree.optimize, l.table.optimize⟩ ⟨l'.tree.optimize, l'.table.optimize⟩ where
  table.component name := by
    -- The passes go through the components one by one, under the names that they are filed by.
    unfold Table.optimize
    rw [Dict.get?_mapValues, Dict.get?_mapValues, h.table.component, Option.map_map,
      Option.map_map]
    exact congrArg (Option.map · _) (funext fun c => c.optimize_respell)
  table.dependencies := h.table.dependencies
  tree := by
    obtain ⟨c, htree, htree'⟩ := h.tree
    refine ⟨c.optimize, ?_, ?_⟩
    · rw [htree, optimize_root_node]
    · rw [htree', optimize_root_node, c.optimize_respell]

/-- The whole lowering of one module: both spellings fail with one code, or their results differ by
the respelling. -/
theorem ofModule_respelled {source : String} {m : Module} (hm : Module.parse? source = some m) :
    (∃ l l', ofModule (some f) m = .ok l ∧ ofModule (some g) m = .ok l' ∧ Respelled f g l l') ∨
    ∃ e e', ofModule (some f) m = .error e ∧ ofModule (some g) m = .error e' ∧
      e.code = e'.code := by
  -- What is plain about the harvest gives the respelled table, and from it the default of one is
  -- that of the other.
  have hplain : (Lower.harvest (some f) m).Plain (some f) := Lower.plain_harvest hm
  have htable : ((Lower.harvest (some f) m).table (some f)).Respelled f g
      ((Lower.harvest (some g) m).table (some g)) := by
    have hharvest : Lower.harvest (some g) m = (Lower.harvest (some f) m).respell f g :=
      Lower.harvest_respelled hm
    rw [hharvest]
    exact ⟨Lower.Harvest.component_respell hplain, Lower.Harvest.dependencies_respell _⟩
  have hdefault := default?_respelled htable fun name c => hplain.name_of_components
  unfold ofModule ofTable
  rw [hdefault]
  cases ((Lower.harvest (some f) m).table (some f)).default? with
  | none => exact .inr ⟨_, _, rfl, rfl, rfl⟩
  | some c => exact .inl ⟨_, _, rfl, rfl, htable, c, rfl, rfl⟩

/-- **Lowering under two spellings.** A source is lowered under both or under neither, and then for
the same kind of reason. -/
theorem optimized_respelled (source : String) :
    (∃ l l', optimized (some f) source = .ok l ∧ optimized (some g) source = .ok l' ∧
      Respelled f g l l') ∨
    ∃ e e', optimized (some f) source = .error e ∧ optimized (some g) source = .error e' ∧
      e.code = e'.code := by
  unfold optimized ofSource
  cases hm : Module.parse? source with
  | none => exact .inr ⟨_, _, rfl, rfl, rfl⟩
  | some m =>
    dsimp only
    -- Parsing does not see the spelling; what the two lowerings give is optimized alike.
    rcases ofModule_respelled hm with ⟨l, l', hl, hl', h⟩ | ⟨e, e', he, he', hcode⟩
    · rw [hl, hl']
      exact .inl ⟨_, _, rfl, rfl, h.optimize⟩
    · rw [he, he']
      exact .inr ⟨_, _, rfl, rfl, hcode⟩

end Spellings

end Lowered

end Stencil
