import Stencil.Proofs.Engine.Embedding
import Stencil.Proofs.Optimize.Leaves
import Stencil.Proofs.Text.Split

/-!
# Where the texts of a template come from

Besides code, a template shows texts. They are the leaves of its tree, together with the
interpolations, and there are three ways to come by one: a text that stands between tags, without
its layout; a string literal that is an operand of a choice; and the value of an interpolation that
the optimizer finds to be a literal.

* `Lower.notMem_cleanText` — a text between tags has lost its line feeds;
* `Leaf.ComesFrom` — these ways, for texts and for interpolations;
* `Lower.Assembled.comesFrom` — lowering has no others, and `Leaf.ComesFrom.degraded` — nor has the
  optimizer;
* `leaves_of_lays` — inlining makes up no leaf;
* `comesFrom_layout` — so this is where the texts and the interpolations of a compilation come from.
-/

namespace Stencil

open Script (Expr)
open Resolution (unresolved known)

/-! ### Texts between tags -/

namespace Lower

/-- Dropping an end brings in nothing. -/
theorem dropEnd_subset (c : Char) (s : List Char) : dropEnd c s ⊆ s := by
  intro d hd
  have hmem := (List.dropWhile_sublist (· == c)).subset (List.mem_reverse.1 hd)
  exact List.mem_reverse.1 hmem

/-- Trimming a line adds nothing but spaces. -/
theorem Line.notMem_trimmed {l : Line} {c : Char} (hspace : c ≠ ' ') (h : c ∉ l.chars) :
    c ∉ l.trimmed := by
  -- Tabs become spaces, and neither is `c`.
  have hspaced : c ∉ l.chars.map fun c => if c = '\t' then ' ' else c := by
    intro hmem
    obtain ⟨d, hd, heq⟩ := List.mem_map.1 hmem
    split at heq
    · exact hspace heq.symm
    · exact h (heq ▸ hd)
  -- Only the first line keeps what it starts with; the last one keeps its end in the same way.
  have hstart : c ∉ (if l.isFirst then l.chars.map fun c => if c = '\t' then ' ' else c
      else (l.chars.map fun c => if c = '\t' then ' ' else c).dropWhile (· == ' ')) := by
    split
    · exact hspaced
    · exact fun hmem => hspaced ((List.dropWhile_sublist _).subset hmem)
  unfold trimmed
  dsimp only
  split
  · exact hstart
  · exact fun hmem => hstart (dropEnd_subset ' ' _ hmem)

/-- **A text between tags keeps no line feed**: the lines with content are joined by spaces. -/
theorem notMem_cleanText (raw : String) : '\n' ∉ (cleanText raw).toList := by
  unfold cleanText
  dsimp only
  rw [String.toList_ofList]
  intro hmem
  obtain ⟨piece, hpiece, hmem⟩ := List.mem_flatten.1 hmem
  obtain ⟨⟨chars, i⟩, hline, rfl⟩ := List.mem_map.1 hpiece
  -- Lines are what stands between line feeds, less a carriage return.
  have hchars : '\n' ∉ chars := by
    obtain ⟨line, hsplit, rfl⟩ := List.mem_map.1 (List.fst_mem_of_mem_zipIdx hline)
    exact fun h => Text.not_mem_of_mem_splitAt hsplit (dropEnd_subset '\r' line h)
  dsimp only at hmem
  split at hmem
  · cases hmem
  · split at hmem
    · exact Line.notMem_trimmed (by decide) hchars hmem
    · -- Between two lines with content stands one space.
      rcases List.mem_append.1 hmem with hmem | hmem
      · exact Line.notMem_trimmed (by decide) hchars hmem
      · exact absurd hmem (by decide)

end Lower

/-! ### Ways to come by a leaf -/

/-- The expression is a string literal with this value. The optimizer knows it by its text, and
takes `undefined` for an empty one. -/
def Script.Expr.Spells (e : Expr) (value : String) : Prop :=
  e.form = .string value ∨ constantText? ⟨e.text⟩ = some value

/-- The leaf comes from a text between tags, or from a copied expression that `R` holds of. -/
def Leaf.ComesFrom (R : Lower.Copy → Prop) : Leaf → Prop
  | .text value =>
    (∃ raw, value = Lower.cleanText raw) ∨ ∃ e, R (.verbatim e) ∧ e.Spells value
  | .interpolation code => ∃ e, R (.verbatim e) ∧ code = ⟨e.text⟩

/-- The leaves of the siblings come from there. The scopes do not matter, so any will do. -/
def LeavesComeFrom (R : Lower.Copy → Prop) (ns : List Node) : Prop :=
  ∃ scope, ∀ l ∈ leavesAmong unresolved scope ns, l.2.ComesFrom R

variable {R R' : Lower.Copy → Prop}

/-- A leaf that comes from copies comes from more copies. -/
theorem Leaf.ComesFrom.mono (h : ∀ c, R c → R' c) {leaf : Leaf} (hleaf : leaf.ComesFrom R) :
    leaf.ComesFrom R' := by
  cases leaf with
  | text value => exact hleaf.imp_right fun ⟨e, he, hspells⟩ => ⟨e, h _ he, hspells⟩
  | interpolation code => exact hleaf.imp fun e he => ⟨h _ he.1, he.2⟩

/-- An interpolation that degrades to a text is one of a literal. -/
theorem Leaf.ComesFrom.degraded {leaf : Leaf} (h : leaf.ComesFrom R) :
    leaf.degraded.ComesFrom R := by
  cases leaf with
  | text value => exact h
  | interpolation code =>
    obtain ⟨e, he, rfl⟩ := h
    -- An interpolation is one afterwards, or has become the text that its code spells.
    cases hconstant : constantText? ⟨e.text⟩ with
    | none =>
      rw [Leaf.degraded_of_no_constantText? hconstant]
      exact ⟨e, he, rfl⟩
    | some value =>
      rw [Leaf.degraded_of_constantText? hconstant]
      exact .inr ⟨e, he, .inr hconstant⟩

/-! ### Lowering and optimizing -/

/-- Nodes that are put into one place keep their leaves. -/
theorem leavesOfBranch_slotOf (resolution : Resolution) (scope : Scope) (ns : List Node) :
    leavesOfBranch resolution scope (Node.slotOf ns) = leavesAmong resolution scope ns := by
  match ns with
  | [] => rfl
  | [n] => exact (leavesAmong_singleton resolution scope n).symm
  | _ :: _ :: _ => rfl

/-- **The leaves of lowered nodes** are texts between tags, copied string literals, and copied
expressions, whichever of the conditions are looked through. -/
theorem Lower.Assembled.comesFrom {ns : List Node} (h : Assembled R ns) (resolution : Resolution) :
    ∀ scope, ∀ l ∈ leavesAmong resolution scope ns, l.2.ComesFrom R := by
  induction h with
  | nil => exact nofun
  | append _ _ iha ihb =>
    intro scope
    rw [leavesAmong_append, List.forall_mem_append]
    exact ⟨iha scope, ihb scope⟩
  | cleaned raw =>
    intro scope
    rw [leavesAmong_singleton, Node.leaves, List.forall_mem_singleton]
    exact .inl ⟨raw, rfl⟩
  | literal hc =>
    intro scope
    rw [leavesAmong_singleton, Node.leaves, List.forall_mem_singleton]
    exact .inr ⟨_, hc, .inl rfl⟩
  | interpolation hc =>
    intro scope
    rw [leavesAmong_singleton, Node.leaves, List.forall_mem_singleton]
    exact ⟨_, hc, rfl⟩
  | element tag _ _ ih =>
    intro scope
    rw [leavesAmong_singleton, Node.leaves]
    exact ih scope
  | @condition c as bs _ _ _ iha ihb =>
    intro scope
    rw [leavesAmong_singleton]
    -- A condition that is looked through has the leaves of one branch only.
    cases hresolved : resolution scope c.code with
    | none =>
      rw [leaves_condition_of_unknown hresolved, leavesOfBranch_slotOf, leavesOfBranch_slotOf,
        List.forall_mem_append]
      exact ⟨iha scope, ihb scope⟩
    | some taken =>
      rw [leaves_condition_of_known hresolved]
      cases taken with
      | true =>
        rw [if_pos rfl, leavesOfBranch_slotOf]
        exact iha scope
      | false =>
        rw [if_neg Bool.false_ne_true, leavesOfBranch_slotOf]
        exact ihb scope
  | iteration params _ _ ih =>
    intro scope
    rw [leavesAmong_singleton, Node.leaves]
    exact ih _

/-- An optimized component has leaves of these kinds, too. -/
theorem leavesComeFrom_optimized {file : Option Path} {source : String} {l : Lowered}
    (h : Lowered.optimized file source = .ok l) {c : Component}
    (hc : c ∈ l.table.components.values) : LeavesComeFrom (SourceCopies file source) [c.node] := by
  obtain ⟨l₀, hl₀, -, htable⟩ := Lowered.optimized_ok h
  rw [htable] at hc
  obtain ⟨-, c₀, hc₀, rfl⟩ := Dict.mem_values_mapValues hc
  refine ⟨Dict.empty, fun leaf hleaf => ?_⟩
  rw [leavesAmong_singleton, leaves_optimize_component] at hleaf
  -- The leaves of the optimized component are those of the lowered one, degraded.
  obtain ⟨before, hbefore, rfl⟩ := List.mem_map.1 hleaf
  have hfrom : before.2.ComesFrom (SourceCopies file source) :=
    (assembled_body hl₀ hc₀).comesFrom known c₀.signature.constants before hbefore
  exact hfrom.degraded

/-! ### The layout -/

mutual

/-- The texts and the interpolations of a piece. -/
def Piece.leaves : Piece → List Leaf
  | .element _ content => leavesAll content
  | .text value => [.text value]
  | .interpolation code => [.interpolation code]
  | .condition _ consequent alternate => leavesOfPieces consequent ++ leavesOfPieces alternate
  | .iteration _ body => leavesAll body
  | .scope _ body => leavesAll body

def leavesAll : List Piece → List Leaf
  | [] => []
  | p :: rest => p.leaves ++ leavesAll rest

def leavesOfPieces : Option (List Piece) → List Leaf
  | none => []
  | some ps => leavesAll ps

end

/-- The leaves of pieces side by side stand side by side. -/
theorem leavesAll_append (ps qs : List Piece) :
    leavesAll (ps ++ qs) = leavesAll ps ++ leavesAll qs := by
  induction ps with
  | nil => rfl
  | cons p ps ih => rw [List.cons_append, leavesAll, leavesAll, ih, List.append_assoc]

/-- A branch that is replaced by pieces has their leaves, or none. -/
theorem leavesOfPieces_map (b : Option Node) {ps : List Piece} {P : Leaf → Prop}
    (h : ∀ leaf ∈ leavesAll ps, P leaf) :
    ∀ leaf ∈ leavesOfPieces (b.map fun _ => ps), P leaf := by
  cases b with
  | none => exact nofun
  | some n => exact h

namespace LeavesComeFrom

/-- Leaves of a first node and of the others. -/
theorem cons {n : Node} {ns : List Node} (h : LeavesComeFrom R (n :: ns)) :
    (∃ scope, ∀ l ∈ n.leaves unresolved scope, l.2.ComesFrom R) ∧ LeavesComeFrom R ns := by
  obtain ⟨scope, h⟩ := h
  rw [leavesAmong, List.forall_mem_append] at h
  exact ⟨⟨scope, h.1⟩, ⟨scope, h.2⟩⟩

/-- The leaves of a branch are those of the list it gives. -/
theorem of_branch {scope : Scope} {b : Option Node}
    (h : ∀ l ∈ leavesOfBranch unresolved scope b, l.2.ComesFrom R) :
    LeavesComeFrom R b.toList := by
  refine ⟨scope, ?_⟩
  cases b with
  | none => exact nofun
  | some n =>
    rw [Option.toList_some, leavesAmong_singleton]
    exact h

end LeavesComeFrom

/-- **Inlining makes up no leaf**: the leaves of the pieces are those of a site, of its slots and of
the table. -/
theorem leaves_of_lays {t : Table} (ht : ∀ c ∈ t.components.values, LeavesComeFrom R c.body)
    {s : Site} {ps : List Piece} (h : Lays t s ps) (hnodes : LeavesComeFrom R s.nodes)
    (hslots : ∀ slot ∈ s.slots, LeavesComeFrom R slot) :
    ∀ leaf ∈ leavesAll ps, leaf.ComesFrom R := by
  induction h with
  | nil => exact nofun
  | root _ _ ihcs ihns | fragment _ _ ihcs ihns =>
    obtain ⟨⟨scope, hcs⟩, hns⟩ := hnodes.cons
    rw [leavesAll_append, List.forall_mem_append]
    exact ⟨ihcs ⟨scope, hcs⟩ hslots, ihns hns hslots⟩
  | mixin _ _ ihcs ihns =>
    obtain ⟨⟨scope, hcs⟩, hns⟩ := hnodes.cons
    rw [leavesAll_append, List.forall_mem_append]
    exact ⟨ihcs ⟨_, hcs⟩ hslots, ihns hns hslots⟩
  | plain _ _ _ ihcs ihns | recursive _ _ _ _ ihcs ihns =>
    obtain ⟨⟨scope, hcs⟩, hns⟩ := hnodes.cons
    rw [leavesAll, Piece.leaves, List.forall_mem_append]
    exact ⟨ihcs ⟨scope, hcs⟩ hslots, ihns hns hslots⟩
  | inlined hresolve _ _ _ ihbody ihns =>
    obtain ⟨⟨scope, hcs⟩, hns⟩ := hnodes.cons
    have hbody := ht _ (Table.mem_values_of_resolve? hresolve)
    rw [leavesAll, Piece.leaves, List.forall_mem_append]
    -- The children of the call wait for a slot of the body.
    exact ⟨ihbody hbody (List.forall_mem_cons.2 ⟨⟨scope, hcs⟩, hslots⟩), ihns hns hslots⟩
  | emptyText _ ihns => exact ihns hnodes.cons.2 hslots
  | text _ _ ihns | interpolation _ _ ihns =>
    obtain ⟨⟨scope, hleaf⟩, hns⟩ := hnodes.cons
    rw [leavesAll, Piece.leaves, List.singleton_append, List.forall_mem_cons]
    exact ⟨hleaf _ (List.mem_singleton_self _), ihns hns hslots⟩
  | slot _ _ _ ihslot ihns =>
    obtain ⟨hslot, houter⟩ := List.forall_mem_cons.1 hslots
    rw [leavesAll_append, List.forall_mem_append]
    exact ⟨ihslot hslot houter, ihns hnodes.cons.2 hslots⟩
  | condition _ _ _ ihyes ihno ihns =>
    obtain ⟨⟨scope, hbranches⟩, hns⟩ := hnodes.cons
    rw [leaves_condition_of_unknown rfl, List.forall_mem_append] at hbranches
    have hyes := LeavesComeFrom.of_branch hbranches.1
    have hno := LeavesComeFrom.of_branch hbranches.2
    rw [leavesAll, Piece.leaves, List.forall_mem_append, List.forall_mem_append]
    exact ⟨⟨leavesOfPieces_map _ (ihyes hyes hslots), leavesOfPieces_map _ (ihno hno hslots)⟩,
      ihns hns hslots⟩
  | iteration _ _ ihbody ihns =>
    obtain ⟨⟨scope, hbody⟩, hns⟩ := hnodes.cons
    rw [leavesAll, Piece.leaves, List.forall_mem_append]
    exact ⟨ihbody ⟨_, hbody⟩ hslots, ihns hns hslots⟩

/-! ### Compilations -/

/-- Lowering copies this from one of the sources that compiling takes in. -/
def Copied (fs : Files) (o : Options) (source : String) (c : Lower.Copy) : Prop :=
  ∃ file s, TakesIn fs o source file s ∧ SourceCopies file s c

namespace LeavesComeFrom

/-- Leaves that come from copies come from more copies. -/
theorem mono (h : ∀ c, R c → R' c) {ns : List Node} (hns : LeavesComeFrom R ns) :
    LeavesComeFrom R' ns := by
  obtain ⟨scope, hns⟩ := hns
  exact ⟨scope, fun l hl => (hns l hl).mono h⟩

/-- The leaves of a component are those of its body. -/
theorem body {c : Component} (h : LeavesComeFrom R [c.node]) : LeavesComeFrom R c.body := by
  obtain ⟨_, hbody⟩ := h.cons.1
  exact ⟨c.signature.constants, hbody⟩

/-- A root around a component has the same leaves. -/
theorem root {c : Component} (h : LeavesComeFrom R [c.node]) :
    LeavesComeFrom R [.root [c.node]] := by
  obtain ⟨scope, h⟩ := h
  refine ⟨scope, ?_⟩
  rw [leavesAmong_singleton]
  exact h

end LeavesComeFrom

variable {fs : Files} {o : Options} {source : String} {l l' : Lowered}

/-- The tree and the table that a template is generated from have leaves of these kinds. Bundling
optimizes both once more, and changes nothing by it. -/
theorem leavesComeFrom_bundled (hl : Lowered.optimized o.file source = .ok l)
    (hl' : (l.bundled fs o.file).result = .ok l') :
    LeavesComeFrom (Copied fs o source) [l'.tree] ∧
      ∀ c ∈ l'.table.components.values, LeavesComeFrom (Copied fs o source) c.body := by
  obtain ⟨l₀, hl₀, htree, htable⟩ := Lowered.optimized_ok hl
  obtain ⟨c, hdefault, hroot⟩ := (mirrors_ofSource hl₀).optimize
  rw [← htable] at hdefault
  have hown {c : Component} (hc : c ∈ l.table.components.values) :
      LeavesComeFrom (Copied fs o source) [c.node] :=
    (leavesComeFrom_optimized hl hc).mono fun copy hcopy => ⟨o.file, source, .root, hcopy⟩
  -- The tree mirrors the default component, so its leaves are those of a component of the table.
  have hleaves : LeavesComeFrom (Copied fs o source) [l.tree] := by
    rw [htree, hroot]
    exact (hown (List.mem_of_find?_eq_some hdefault)).root
  cases hfile : o.file with
  | none =>
    rw [hfile] at hl'
    cases hl'
    exact ⟨hleaves, fun c hc => (hown hc).body⟩
  | some file =>
    rw [hfile] at hl hl'
    obtain ⟨table, hlinked, hrest⟩ := Outcome.result_bind_iff.1 hl'
    obtain ⟨g, hg, rfl⟩ := Bundle.link_ok hlinked
    cases hrest
    constructor
    · -- Optimizing again changes nothing: the tree is optimized already.
      have hfixed : l.tree.optimize = l.tree := by
        rw [htree]
        exact optimize_optimize_node l₀.tree
      rw [hfixed]
      exact hleaves
    · intro c hc
      obtain ⟨-, c₀, hc₀, rfl⟩ := Dict.mem_values_mapValues hc
      -- A component of the merged table is one of some loaded module, which was optimized as well.
      obtain ⟨p, s, l₁, hmade, hl₁, hc₁⟩ := Bundle.exists_source_of_merged hl hg hc₀
      have htakes : TakesIn fs o source (some p) s := .bundled hfile (hfile ▸ hl) hg hmade
      rw [Component.optimize_of_optimized hl₁ hc₁]
      exact ((leavesComeFrom_optimized hl₁ hc₁).mono
        fun copy hcopy => ⟨some p, s, htakes, hcopy⟩).body

/-- **Where the texts and the interpolations of a compilation come from.** -/
theorem comesFrom_layout (hl : Lowered.optimized o.file source = .ok l)
    (hl' : (l.bundled fs o.file).result = .ok l') :
    ∀ leaf ∈ leavesAll (l'.tree.layout l'.table), leaf.ComesFrom (Copied fs o source) := by
  obtain ⟨htree, htable⟩ := leavesComeFrom_bundled hl hl'
  exact leaves_of_lays htable (lays_site_iff.2 rfl) htree nofun

/-- What comes of copied codes lasts through the optimizer. -/
theorem lasting_becomes (R : Lower.Copy → Prop) :
    Lasting fun code => ∃ c, R c ∧ c.code.Becomes code where
  name := fun ⟨c, hc, hcode⟩ hguard => ⟨c, hc, hcode.name hguard⟩
  folded := fun ⟨c, hc, hcode⟩ hfold => ⟨c, hc, hcode.folded hfold⟩

/-- All the codes of a compilation come of copied ones. -/
theorem becomes_layout (hl : Lowered.optimized o.file source = .ok l)
    (hl' : (l.bundled fs o.file).result = .ok l') :
    ∀ code ∈ codesAll (l'.tree.layout l'.table),
      ∃ c, Copied fs o source c ∧ c.code.Becomes code := by
  obtain ⟨htree, htable⟩ := lasting_bundled (lasting_becomes (Copied fs o source)) hl hl'
    fun file s c htakes hc => ⟨c, ⟨file, s, htakes, hc⟩, .same⟩
  exact codes_layout htree htable

end Stencil
