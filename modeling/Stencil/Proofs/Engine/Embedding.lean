import Stencil.Proofs.Engine.Refusal
import Stencil.Proofs.Lower.Copying
import Stencil.Proofs.Lower.Mirror

/-!
# Markup in code

The engines embed the codes of a template: EJS and Pug as they are. A code with markup in it is no
script any more, so the question is where such a code can come from.

Every code is copied from a source by lowering (`SourceCopies`). What becomes of it afterwards
(`Code.Becomes`) is little: the optimizer reduces a guard to the name it tests, and writes the
constant parts of a template literal out. Bundling and inlining put codes together and make none
(`codes_of_lays`). A name holds no markup, so a code with markup is a code as lowering has copied
it, or a folded template literal. This is `compile_markup`; markup that lowering looks into is never
embedded.
-/

namespace Stencil

open Script (Expr)

/-- The code reads as an expression that holds markup. -/
def Code.hasMarkup (code : Code) : Bool :=
  (Expr.parse? code.text).any Expr.hasMarkup

/-- The code is a template literal with constant substitutions written out. -/
def Code.IsFolded (code : Code) : Prop :=
  ∃ text scope, foldTemplate? text scope = some code.text

/-- What the optimizer can make of a code. -/
inductive Code.Becomes (code : Code) : Code → Prop
  | same : Becomes code code
  | name {code' : Code} {name : String} : Becomes code code' →
    guardName? code'.text = some name → Becomes code ⟨name⟩
  | folded {code' : Code} {scope : Scope} {text : String} : Becomes code code' →
    foldTemplate? (Text.trim code'.text) scope = some text → Becomes code ⟨text⟩

/-- A name holds no markup. -/
theorem hasMarkup_name {w : String} (h : Script.IsName w) : Code.hasMarkup ⟨w⟩ = false := by
  unfold Code.hasMarkup
  rw [Script.parse?_name h]
  rfl

/-- Code with markup in it was left as it is, or is a folded template. -/
theorem Code.Becomes.eq_or_isFolded {code code' : Code} (h : code.Becomes code')
    (hmarkup : code'.hasMarkup = true) : code' = code ∨ code'.IsFolded := by
  cases h with
  | same => exact .inl rfl
  | name _ hguard =>
    rw [hasMarkup_name (isName_of_guardName? hguard)] at hmarkup
    cases hmarkup
  | folded _ hfold => exact .inr ⟨_, _, hfold⟩

/-! ### The optimizer -/

/-- Nothing that the optimizer makes of a code takes the property from it. -/
structure Lasting (P : Code → Prop) : Prop where
  name : ∀ {code : Code} {name : String}, P code → guardName? code.text = some name → P ⟨name⟩
  folded : ∀ {code : Code} {scope : Scope} {text : String}, P code →
    foldTemplate? (Text.trim code.text) scope = some text → P ⟨text⟩

namespace Lasting

variable {P : Code → Prop} (hP : Lasting P)
include hP

/-- The test that a guard is reduced to has the property. -/
theorem reduceTest {test : Code} (h : P test) : P (reduceTest test) := by
  unfold Stencil.reduceTest
  split
  · next name hname => exact hP.name h hname
  · exact h

/-- Settling ends with the code it began with, or with one that it has folded. -/
theorem settle? {scope : Scope} {code code' : Code}
    (h : code.settle? scope = some (.dynamic code')) (hcode : P code) : P code' := by
  -- Settling may not end, so this is about the values it ends with, by induction on its calls.
  have hend : ∀ code value, Code.settle? scope code = some value → P code →
      ∀ code', value = .dynamic code' → P code' := by
    refine Code.settle?.partial_correctness scope _
      fun loop ih code value hvalue hcode code' hcode' => ?_
    subst hcode'
    split at hvalue
    · next hdone =>
      subst hvalue
      exact eq_of_settleOnce hdone ▸ hcode
    · next folded hagain =>
      have hfolded : P folded := hP.folded hcode (foldTemplate?_of_settleOnce hagain)
      exact ih _ _ hvalue hfolded code' rfl
  exact hend code _ h hcode code' rfl

/-- So has the code of an attribute that has settled, by induction on the looks. -/
theorem simplify? {scope : Scope} {a b : Attribute} (h : a.simplify? scope = some b)
    (ha : ∀ code ∈ a.value.code?, P code) : ∀ code ∈ b.value.code?, P code := by
  unfold Attribute.simplify? at h
  split at h
  · -- Only a dynamic value is code before, and only a value that is still dynamic is code
    -- afterwards.
    next code hcode =>
    rw [settleFrom?_eq_settle?] at h
    obtain ⟨value, hvalue, rfl⟩ := Option.map_eq_some_iff.1 h
    intro code' hcode'
    cases value with
    | dynamic settled =>
      cases hcode'
      exact hP.settle? hvalue (ha code (by rw [hcode]; rfl))
    | flag on => cases hcode'
    | literal text => cases hcode'
  · cases h
    exact ha

/-- So have the codes of all attributes that are left. -/
theorem attributes {scope : Scope} {attributes : List Attribute}
    (h : ∀ code ∈ attributes.filterMap (·.value.code?), P code) :
    ∀ code ∈ (attributes.filterMap (·.simplify? scope)).filterMap (·.value.code?), P code := by
  intro code hcode
  obtain ⟨b, hb, hcode⟩ := List.mem_filterMap.1 hcode
  obtain ⟨a, ha, hab⟩ := List.mem_filterMap.1 hb
  exact hP.simplify? hab (fun code hcode => h code (List.mem_filterMap.2 ⟨a, ha, hcode⟩)) code hcode

end Lasting

section Simplify

variable {P : Code → Prop}

/-! One theorem for each function of the pass, by recursion on the tree. -/

mutual

/-- Simplifying a node keeps the property of its codes. -/
theorem lasting_simplify (hP : Lasting P) (scope : Scope) : ∀ n : Node,
    (∀ code ∈ n.codes, P code) → ∀ code ∈ (n.simplify scope).codes, P code
  | .root cs, h => lasting_simplifyChildren hP scope cs h
  | .fragment cs, h => lasting_simplifyChildren hP scope cs h
  -- The codes of an element are those of its attributes and those of its children.
  | .element tag as cs, h => by
    rw [Node.codes, List.forall_mem_append] at h
    rw [Node.simplify, Node.codes, List.forall_mem_append]
    exact ⟨hP.attributes h.1, lasting_simplifyChildren hP scope cs h.2⟩
  | .text _, h => h
  | .interpolation _, h => h
  | .condition test consequent alternate, h => by
    rw [Node.codes, List.cons_append, List.forall_mem_cons, List.forall_mem_append] at h
    obtain ⟨htest, hconsequent, halternate⟩ := h
    -- The test is kept here: it is reduced only where the condition stands among siblings or in a
    -- slot.
    rw [Node.simplify, Node.codes, List.cons_append, List.forall_mem_cons, List.forall_mem_append]
    exact ⟨htest, lasting_simplifyBranch hP scope consequent hconsequent,
      lasting_simplifyBranch hP scope alternate halternate⟩
  | .iteration loop body, h => by
    rw [Node.codes, List.forall_mem_cons] at h
    rw [Node.simplify, Node.codes, List.forall_mem_cons]
    exact ⟨h.1, lasting_simplifyChildren hP (loop.scopeInside scope) body h.2⟩
  | .mixin signature cs, h => lasting_simplifyChildren hP signature.constants cs h
termination_by n => (sizeOf n, 0)

theorem lasting_simplifyChildren (hP : Lasting P) (scope : Scope) : ∀ cs : List Node,
    (∀ code ∈ Node.codesOfList cs, P code) →
      ∀ code ∈ Node.codesOfList (simplifyChildren scope cs), P code
  | [], h => h
  | n :: rest, h => by
    rw [Node.codesOfList, List.forall_mem_append] at h
    rw [simplifyChildren, Node.codesOfList_append, List.forall_mem_append]
    exact ⟨lasting_simplifyAmong hP scope n h.1, lasting_simplifyChildren hP scope rest h.2⟩
termination_by cs => (sizeOf cs, 0)

/-- So do the nodes that are put in place of one node. -/
theorem lasting_simplifyAmong (hP : Lasting P) (scope : Scope) (n : Node)
    (h : ∀ code ∈ n.codes, P code) :
    ∀ code ∈ Node.codesOfList (n.simplifyAmong scope), P code := by
  rcases n.kept_cases with hkept | ⟨code, rfl⟩ | ⟨test, consequent, alternate, rfl⟩
  · rw [simplifyAmong_of_kept scope hkept, Node.codesOfList_singleton]
    exact lasting_simplify hP scope n h
  · rw [Node.simplifyAmong]
    -- A constant interpolation becomes a text, which has no code.
    split
    · exact nofun
    · rw [Node.codesOfList_singleton]
      exact h
  · rw [Node.codes, List.cons_append, List.forall_mem_cons, List.forall_mem_append] at h
    obtain ⟨htest, hconsequent, halternate⟩ := h
    rw [Node.simplifyAmong]
    -- Where the truth of the test is known, only the branch that is taken is left.
    split
    · exact lasting_simplifyTaken hP scope consequent hconsequent
    · exact lasting_simplifyTaken hP scope alternate halternate
    · rw [Node.codesOfList_singleton, Node.codes, List.cons_append, List.forall_mem_cons,
        List.forall_mem_append]
      exact ⟨hP.reduceTest htest, lasting_simplifyBranch hP scope consequent hconsequent,
        lasting_simplifyBranch hP scope alternate halternate⟩
termination_by (sizeOf n, 1)

/-- So do the nodes of a branch that is taken. -/
theorem lasting_simplifyTaken (hP : Lasting P) (scope : Scope) : ∀ b : Option Node,
    (∀ code ∈ Node.codesOfOption b, P code) →
      ∀ code ∈ Node.codesOfList (simplifyTaken scope b), P code
  | none, h => h
  | some n, h => by
    rcases simplifyTaken_cases scope n with ⟨cs, rfl⟩ | htaken
    · exact lasting_simplifyChildren hP scope cs h
    · rw [htaken]
      exact lasting_simplifyAmong hP scope n h
termination_by b => (sizeOf b, 2)

theorem lasting_simplifyBranch (hP : Lasting P) (scope : Scope) : ∀ b : Option Node,
    (∀ code ∈ Node.codesOfOption b, P code) →
      ∀ code ∈ Node.codesOfOption (simplifyBranch scope b), P code
  | none, h => h
  | some n, h => lasting_simplifySlot hP scope n h
termination_by b => (sizeOf b, 2)

/-- So does what is left of a node that stands alone in its place. -/
theorem lasting_simplifySlot (hP : Lasting P) (scope : Scope) (n : Node)
    (h : ∀ code ∈ n.codes, P code) :
    ∀ code ∈ Node.codesOfOption (n.simplifySlot scope), P code := by
  rcases n.kept_cases with hkept | ⟨code, rfl⟩ | ⟨test, consequent, alternate, rfl⟩
  · rw [simplifySlot_of_kept scope hkept]
    exact lasting_simplify hP scope n h
  · rw [Node.simplifySlot]
    split
    · exact nofun
    · exact h
  · -- A condition in a slot is one of its branches where the test is known; if it stays, the guard
    -- in its test is reduced.
    rw [Node.codes, List.cons_append, List.forall_mem_cons, List.forall_mem_append] at h
    obtain ⟨htest, hconsequent, halternate⟩ := h
    rw [Node.simplifySlot]
    split
    · exact lasting_simplifyBranch hP scope consequent hconsequent
    · exact lasting_simplifyBranch hP scope alternate halternate
    · rw [Node.codesOfOption, Node.codes, List.cons_append, List.forall_mem_cons,
        List.forall_mem_append]
      exact ⟨hP.reduceTest htest, lasting_simplifyBranch hP scope consequent hconsequent,
        lasting_simplifyBranch hP scope alternate halternate⟩
termination_by (sizeOf n, 1)

end

end Simplify

/-! Marking attributes as required changes no code. -/

/-- Marking attributes leaves their codes. -/
theorem code?_markRequired (required : Option (List String)) (attributes : List Attribute) :
    (attributes.map (·.markRequired required)).filterMap (·.value.code?) =
      attributes.filterMap (·.value.code?) := by
  rw [List.filterMap_map]
  congr 1
  funext a
  exact congrArg AttributeValue.code? (value_markRequired required a)

mutual

/-- Marking a tree leaves its codes. -/
theorem codes_markRequiredIn (required : Option (List String)) :
    ∀ n : Node, (n.markRequiredIn required).codes = n.codes
  | .root cs => codes_markRequiredAll required cs
  | .fragment cs => codes_markRequiredAll required cs
  | .element tag attributes cs => by
    rw [Node.markRequiredIn, Node.codes, Node.codes, code?_markRequired,
      codes_markRequiredAll required cs]
  | .text _ => rfl
  | .interpolation _ => rfl
  | .condition test consequent alternate => by
    rw [Node.markRequiredIn, Node.codes, Node.codes, codes_markRequiredBranch required consequent,
      codes_markRequiredBranch required alternate]
  | .iteration loop body => by
    rw [Node.markRequiredIn, Node.codes, Node.codes, codes_markRequiredAll required body]
  -- The required names change here, but not what is marked.
  | .mixin signature cs => codes_markRequiredAll (some signature.requiredNames) cs

theorem codes_markRequiredAll (required : Option (List String)) :
    ∀ cs : List Node, Node.codesOfList (markRequiredAll required cs) = Node.codesOfList cs
  | [] => rfl
  | n :: rest => by
    rw [markRequiredAll, Node.codesOfList, Node.codesOfList, codes_markRequiredIn required n,
      codes_markRequiredAll required rest]

theorem codes_markRequiredBranch (required : Option (List String)) :
    ∀ b : Option Node, Node.codesOfOption (markRequiredBranch required b) = Node.codesOfOption b
  | none => rfl
  | some n => codes_markRequiredIn required n

end

/-- Optimizing a tree keeps a lasting property of its codes. -/
theorem Lasting.optimize {P : Code → Prop} (hP : Lasting P) {n : Node}
    (h : ∀ code ∈ n.codes, P code) : ∀ code ∈ n.optimize.codes, P code := by
  rw [Node.optimize, Node.markRequired, codes_markRequiredIn]
  exact lasting_simplify hP Dict.empty n h

theorem Lasting.optimize_component {P : Code → Prop} (hP : Lasting P) {c : Component}
    (h : ∀ code ∈ Node.codesOfList c.body, P code) :
    ∀ code ∈ Node.codesOfList c.optimize.body, P code := by
  rw [Component.optimize, codes_markRequiredAll]
  exact lasting_simplifyChildren hP c.signature.constants c.body h

/-! ### Sources -/

/-- The body of a component is put together out of what lowering copies from its source. -/
theorem assembled_body {file : Option Path} {source : String} {l : Lowered}
    (h : Lowered.ofSource file source = .ok l) {c : Component}
    (hc : c ∈ l.table.components.values) :
    Lower.Assembled (SourceCopies file source) c.body := by
  obtain ⟨m, -, hm, htable, -, -⟩ := Lowered.ofSource_ok h
  rw [htable] at hc
  -- The body is what a candidate of the module returns.
  obtain ⟨k, hk, hbody⟩ := Lower.Harvest.exists_candidate_of_mem hc
  rw [hbody]
  exact (Lower.assembled_function (Lower.reads_harvest file m k hk)).mono
    fun copy hcopy => ⟨m, hm, k, hk, hcopy⟩

/-- A lowered and optimized source has the codes that lowering copies, where they are not folded or
reduced to names. -/
theorem lasting_optimized {P : Code → Prop} (hP : Lasting P) {file : Option Path} {source : String}
    {l : Lowered} (h : Lowered.optimized file source = .ok l)
    (hcopies : ∀ c, SourceCopies file source c → P c.code) :
    (∀ code ∈ l.tree.codes, P code) ∧
      ∀ c ∈ l.table.components.values, ∀ code ∈ Node.codesOfList c.body, P code := by
  obtain ⟨l₀, hl₀, htree, htable⟩ := Lowered.optimized_ok h
  have hbody : ∀ c ∈ l₀.table.components.values, ∀ code ∈ Node.codesOfList c.body, P code := by
    intro c hc code hcode
    obtain ⟨copy, hcopy, rfl⟩ := (assembled_body hl₀ hc).exists_copy code hcode
    exact hcopies copy hcopy
  constructor
  · obtain ⟨-, c, -, -, hdefault, hroot⟩ := Lowered.ofSource_ok hl₀
    rw [htree]
    refine hP.optimize ?_
    -- The tree is the body of the default component, under a root.
    rw [hroot, Node.codes, Node.codesOfList_singleton]
    exact hbody c (List.mem_of_find?_eq_some hdefault)
  · intro c hc
    rw [htable] at hc
    obtain ⟨-, c₀, hc₀, rfl⟩ := Dict.mem_values_mapValues hc
    exact hP.optimize_component (hbody c₀ hc₀)

/-! ### The layout -/

/-- The code that a prop is bound to. -/
def Binding.code? (b : Binding) : Option Code :=
  b.value.bind AttributeValue.code?

mutual

/-- The codes that a piece embeds. -/
def Piece.codes : Piece → List Code
  | .element head content => head.attributes.filterMap (·.value.code?) ++ codesAll content
  | .text _ => []
  | .interpolation code => [code]
  | .condition test consequent alternate =>
    test :: codesOfBranch consequent ++ codesOfBranch alternate
  | .iteration loop body => loop.iterable :: codesAll body
  | .scope bindings body => bindings.filterMap Binding.code? ++ codesAll body

def codesAll : List Piece → List Code
  | [] => []
  | p :: rest => p.codes ++ codesAll rest

def codesOfBranch : Option (List Piece) → List Code
  | none => []
  | some ps => codesAll ps

end

/-- The codes of pieces side by side are those of both. -/
theorem codesAll_append (ps qs : List Piece) :
    codesAll (ps ++ qs) = codesAll ps ++ codesAll qs := by
  induction ps with
  | nil => rfl
  | cons p ps ih => rw [List.cons_append, codesAll, codesAll, ih, List.append_assoc]

/-- A prop is bound to the code of an attribute of the call. -/
theorem mem_codes_of_bind {s : Signature} {attributes : List Attribute} {code : Code}
    (h : code ∈ (s.bind attributes).filterMap Binding.code?) :
    code ∈ attributes.filterMap (·.value.code?) := by
  obtain ⟨b, hb, hcode⟩ := List.mem_filterMap.1 h
  obtain ⟨p, -, rfl⟩ := List.mem_map.1 hb
  obtain ⟨value, hvalue, hcode⟩ := Option.bind_eq_some_iff.1 hcode
  obtain ⟨a, ha, rfl⟩ := Option.map_eq_some_iff.1 hvalue
  exact List.mem_filterMap.2 ⟨a, List.mem_of_find?_eq_some ha, hcode⟩

/-- A branch that is replaced by pieces has their codes, or none. -/
theorem codesOfBranch_map (b : Option Node) {ps : List Piece} {P : Code → Prop}
    (h : ∀ code ∈ codesAll ps, P code) : ∀ code ∈ codesOfBranch (b.map fun _ => ps), P code := by
  cases b with
  | none => exact nofun
  | some n => exact h

/-- A branch has the codes of the list it gives. -/
theorem Node.codesOfList_toList (b : Option Node) : codesOfList b.toList = codesOfOption b := by
  cases b with
  | none => rfl
  | some n => exact codesOfList_singleton n

/-- **Inlining makes no code**: what holds of the codes of a site, of its slots and of the table
holds of the codes of the pieces. -/
theorem codes_of_lays {P : Code → Prop} {t : Table}
    (ht : ∀ c ∈ t.components.values, ∀ code ∈ Node.codesOfList c.body, P code) {s : Site}
    {ps : List Piece} (h : Lays t s ps) (hnodes : ∀ code ∈ Node.codesOfList s.nodes, P code)
    (hslots : ∀ slot ∈ s.slots, ∀ code ∈ Node.codesOfList slot, P code) :
    ∀ code ∈ codesAll ps, P code := by
  induction h with
  | nil => exact nofun
  | root _ _ ihcs ihns | fragment _ _ ihcs ihns | mixin _ _ ihcs ihns =>
    rw [Node.codesOfList, Node.codes, List.forall_mem_append] at hnodes
    rw [codesAll_append, List.forall_mem_append]
    exact ⟨ihcs hnodes.1 hslots, ihns hnodes.2 hslots⟩
  | plain _ _ _ ihcs ihns | recursive _ _ _ _ ihcs ihns =>
    rw [Node.codesOfList, Node.codes, List.forall_mem_append, List.forall_mem_append] at hnodes
    obtain ⟨⟨hattributes, hcs⟩, hns⟩ := hnodes
    rw [codesAll, Piece.codes, List.forall_mem_append, List.forall_mem_append]
    exact ⟨⟨hattributes, ihcs hcs hslots⟩, ihns hns hslots⟩
  | inlined hresolve _ _ _ ihbody ihns =>
    rw [Node.codesOfList, Node.codes, List.forall_mem_append, List.forall_mem_append] at hnodes
    obtain ⟨⟨hattributes, hcs⟩, hns⟩ := hnodes
    have hbody := ht _ (Table.mem_values_of_resolve? hresolve)
    rw [codesAll, Piece.codes, List.forall_mem_append, List.forall_mem_append]
    refine ⟨⟨fun code hcode => hattributes code (mem_codes_of_bind hcode), ?_⟩, ihns hns hslots⟩
    -- The children of the call wait for a slot of the body.
    exact ihbody hbody (List.forall_mem_cons.2 ⟨hcs, hslots⟩)
  | emptyText _ ihns =>
    rw [Node.codesOfList, Node.codes, List.nil_append] at hnodes
    exact ihns hnodes hslots
  | text _ _ ihns =>
    rw [Node.codesOfList, Node.codes, List.nil_append] at hnodes
    rw [codesAll, Piece.codes, List.nil_append]
    exact ihns hnodes hslots
  | slot _ _ _ ihslot ihns =>
    rw [Node.codesOfList, List.forall_mem_append] at hnodes
    -- What fills the slot was written outside of the component, where only the outer slots are.
    obtain ⟨hslot, houter⟩ := List.forall_mem_cons.1 hslots
    rw [codesAll_append, List.forall_mem_append]
    exact ⟨ihslot hslot houter, ihns hnodes.2 hslots⟩
  | interpolation _ _ ihns =>
    rw [Node.codesOfList, Node.codes, List.forall_mem_append] at hnodes
    rw [codesAll, Piece.codes, List.forall_mem_append]
    exact ⟨hnodes.1, ihns hnodes.2 hslots⟩
  | condition _ _ _ ihyes ihno ihns =>
    rw [Node.codesOfList, Node.codes, List.cons_append, List.cons_append, List.forall_mem_cons,
      List.forall_mem_append, List.forall_mem_append, ← Node.codesOfList_toList,
      ← Node.codesOfList_toList] at hnodes
    obtain ⟨htest, ⟨hyes, hno⟩, hns⟩ := hnodes
    rw [codesAll, Piece.codes, List.cons_append, List.cons_append, List.forall_mem_cons,
      List.forall_mem_append, List.forall_mem_append]
    exact ⟨htest, ⟨codesOfBranch_map _ (ihyes hyes hslots), codesOfBranch_map _ (ihno hno hslots)⟩,
      ihns hns hslots⟩
  | iteration _ _ ihbody ihns =>
    rw [Node.codesOfList, Node.codes, List.cons_append, List.forall_mem_cons,
      List.forall_mem_append] at hnodes
    obtain ⟨hiterable, hbody, hns⟩ := hnodes
    rw [codesAll, Piece.codes, List.cons_append, List.forall_mem_cons, List.forall_mem_append]
    exact ⟨hiterable, ihbody hbody hslots, ihns hns hslots⟩

/-- Every code of a layout is one of the tree or of a component in the table. -/
theorem codes_layout {P : Code → Prop} {n : Node} {t : Table} (hn : ∀ code ∈ n.codes, P code)
    (ht : ∀ c ∈ t.components.values, ∀ code ∈ Node.codesOfList c.body, P code) :
    ∀ code ∈ codesAll (n.layout t), P code := by
  refine codes_of_lays ht (lays_site_iff.2 rfl) ?_ nofun
  rw [← Node.codesOfList_singleton] at hn
  exact hn

/-! ### Compilations -/

/-- Compiling a source takes in the source `s` of this file: it is the source itself, or one of the
modules that its bundle is made of. -/
inductive TakesIn (fs : Files) (o : Options) (source : String) : Option Path → String → Prop
  | root : TakesIn fs o source o.file source
  | bundled {file : Path} {l : Lowered} {g : Bundle.Graph} {p : Path} {s : String} :
    o.file = some file → Lowered.optimized o.file source = .ok l →
    Bundle.build fs file l = .ok g → Bundle.MadeOf fs file source g p s →
    TakesIn fs o source (some p) s

/-- What lasts through the optimizer and holds of all the codes that lowering copies holds of the
codes of the tree and of the table that a template is generated from. -/
theorem lasting_bundled {P : Code → Prop} (hP : Lasting P) {fs : Files} {o : Options}
    {source : String} {l l' : Lowered} (hl : Lowered.optimized o.file source = .ok l)
    (hl' : (l.bundled fs o.file).result = .ok l')
    (hcopies : ∀ file s c, TakesIn fs o source file s → SourceCopies file s c → P c.code) :
    (∀ code ∈ l'.tree.codes, P code) ∧
      ∀ c ∈ l'.table.components.values, ∀ code ∈ Node.codesOfList c.body, P code := by
  have hroot := lasting_optimized hP hl fun c => hcopies o.file source c .root
  cases hfile : o.file with
  | none =>
    rw [hfile] at hl'
    cases hl'
    exact hroot
  | some file =>
    rw [hfile] at hl hl'
    obtain ⟨table, htable, hrest⟩ := Outcome.result_bind_iff.1 hl'
    obtain ⟨g, hg, rfl⟩ := Bundle.link_ok htable
    cases hrest
    refine ⟨hP.optimize hroot.1, fun c hc => ?_⟩
    -- The table is optimized once more; before that, its components are those of the sources.
    obtain ⟨-, c₀, hc₀, rfl⟩ := Dict.mem_values_mapValues hc
    obtain ⟨p, s, l₁, hmade, hl₁, hc₁⟩ := Bundle.exists_source_of_merged hl hg hc₀
    have htakes : TakesIn fs o source (some p) s := .bundled hfile (hfile ▸ hl) hg hmade
    have hbody := (lasting_optimized hP hl₁ fun c => hcopies (some p) s c htakes).2 c₀ hc₁
    exact hP.optimize_component hbody

/-- **Markup is embedded only where it is copied.** If a source compiles, every code that its
template embeds comes from an expression that lowering copies out of one of the sources that were
taken in. If the code reads as an expression with markup, it is the copied code itself, or a folded
template literal. -/
theorem compile_markup {fs : Files} {o : Options} {source out : String}
    (h : (compile fs o source).result = .ok out) :
    ∃ l l' body, Lowered.optimized o.file source = .ok l ∧
      (l.bundled fs o.file).result = .ok l' ∧
      (o.engine.print o.level (l'.tree.layout l'.table)).result = .ok body ∧ out = o.wrap body ∧
      ∀ code ∈ codesAll (l'.tree.layout l'.table),
        ∃ file s c, TakesIn fs o source file s ∧ SourceCopies file s c ∧ c.code.Becomes code ∧
          (code.hasMarkup = true → code = c.code ∨ code.IsFolded) := by
  obtain ⟨l, hl, h⟩ := Outcome.result_bind_iff.1 h
  obtain ⟨l', hl', h⟩ := Outcome.result_bind_iff.1 h
  obtain ⟨body, hbody, h⟩ := Outcome.result_bind_iff.1 h
  cases h
  -- That a code is copied from a source and has become what it is lasts through the optimizer, so
  -- it is carried to the template as it is.
  refine ⟨l, l', body, hl, hl', hbody, rfl, fun code hcode => ?_⟩
  have hlasting : Lasting fun code =>
      ∃ file s c, TakesIn fs o source file s ∧ SourceCopies file s c ∧ c.code.Becomes code :=
    { name := fun ⟨file, s, c, htakes, hc, hcode⟩ hguard =>
        ⟨file, s, c, htakes, hc, hcode.name hguard⟩
      folded := fun ⟨file, s, c, htakes, hc, hcode⟩ hfold =>
        ⟨file, s, c, htakes, hc, hcode.folded hfold⟩ }
  obtain ⟨htree, htable⟩ := lasting_bundled hlasting hl hl'
    fun file s c htakes hc => ⟨file, s, c, htakes, hc, .same⟩
  obtain ⟨file, s, c, htakes, hc, hcode⟩ := codes_layout htree htable code hcode
  exact ⟨file, s, c, htakes, hc, hcode, hcode.eq_or_isFolded⟩

/-- The operands of `??` are not looked into, so the whole of it is copied. -/
theorem compile_markup_coalesce :
    let source := "export default ({ a }) => <p>{a ?? <b/>}</p>;"
    let o : Options := { engine := .ejs }
    let code : Code := ⟨"a ?? <b/>"⟩
    ∃ out l l', (compile {} o source).result = .ok out ∧
      Lowered.optimized none source = .ok l ∧ (l.bundled {} none).result = .ok l' ∧
      code ∈ codesAll (l'.tree.layout l'.table) ∧ code.hasMarkup = true ∧
      ∃ file s c, TakesIn {} o source file s ∧ SourceCopies file s c ∧
        (code = c.code ∨ code.IsFolded) := by
  intro source o code
  have hrun : (compile {} o source).result.toOption.any (fun _ =>
      (Lowered.optimized none source).toOption.any fun l =>
        decide (code ∈ codesAll (l.tree.layout l.table))) = true := by
    decide +kernel
  have hmarkup : code.hasMarkup = true := by decide +kernel
  obtain ⟨out, hout, hrun⟩ := exists_ok_of_any hrun
  obtain ⟨l, hl, hcode⟩ := exists_ok_of_any hrun
  obtain ⟨l₁, l', body, hl₁, hl', -, -, hcopied⟩ := compile_markup hout
  have hsame : l₁ = l := Except.ok.inj (hl₁.symm.trans hl)
  -- Without a file there is nothing to bundle.
  have hbundled : l' = l := by
    subst hsame
    exact (Except.ok.inj hl').symm
  subst hsame hbundled
  have hmem := of_decide_eq_true hcode
  obtain ⟨file, s, c, htakes, hc, -, hcase⟩ := hcopied code hmem
  exact ⟨out, l', l', hout, hl, hl', hmem, hmarkup, file, s, c, htakes, hc, hcase hmarkup⟩

/-- Markup behind `??` gets into the template, and nothing fails. -/
theorem coalesced_markup_embedded :
    let source := "export default ({ a }) => <p>{a ?? <b/>}</p>;"
    (compile {} { engine := .ejs } source).result.toOption
        = some "<p>\n  <%= a ?? <b/> %>\n</p>\n" ∧
      Code.hasMarkup ⟨"a ?? <b/>"⟩ = true := by
  decide +kernel

end Stencil
