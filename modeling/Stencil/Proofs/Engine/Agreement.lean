import Mathlib.Data.List.Forall2
import Stencil.Proofs.Engine.Reading
import Stencil.Proofs.Layout.Inlining
import Stencil.Proofs.Outcome

/-!
# The engines agree

One tree and one table make templates for three engines, and these show the same things. EJS and
Pug take code as it is, so what is read off their templates is one and the same outline. Liquid puts
code in its own words, so its outline differs in its words, and a test that is negated in the code
has its branches exchanged there. What is left of an outline once the tests are decided and the
words are dropped (`Outline.display`) is the same again.

Liquid can put two tests into the same words, so its words alone do not say how a test is decided.
The conditions are therefore decided one by one (`Renders`): whatever is decided at the conditions
of the code, Liquid shows the same if each of its conditions is decided as the one in its place
(`Decision.InWords`, `simulates_outlineAll`). Where the truth of the tests is one of Liquid's words
(`Alike`), no place has to be known.

Void elements are the one thing the engines disagree on: EJS and Liquid give them no content, and
Pug writes whatever is inside. So the engines agree on trees and tables whose void elements have no
children (`Node.voidsEmpty`), where an element of the layout that is written without content has
none (`tidy_of_lays`). It is not enough to ask this of the tree (`display_void_in_component`).

The main theorem is `engines_agree`.
-/

namespace Stencil

/-! ### Void elements -/

mutual

/-- The void elements of a tree have no children. -/
def Node.voidsEmpty : Node → Bool
  | .root cs | .fragment cs | .iteration _ cs | .mixin _ cs => voidsEmptyAll cs
  | .element tag _ cs => (!isVoid tag || cs.isEmpty) && voidsEmptyAll cs
  | .text _ | .interpolation _ => true
  | .condition _ consequent alternate => voidsEmptyBranch consequent && voidsEmptyBranch alternate

def voidsEmptyAll : List Node → Bool
  | [] => true
  | n :: rest => n.voidsEmpty && voidsEmptyAll rest

def voidsEmptyBranch : Option Node → Bool
  | none => true
  | some n => n.voidsEmpty

end

/-- The void elements in the components of a table have no children. -/
def Table.voidsEmpty (t : Table) : Bool :=
  t.components.values.all fun c => voidsEmptyAll c.body

/-- The void elements at a site have no children, and neither have those in its slots. -/
def Site.VoidsEmpty (s : Site) : Prop :=
  voidsEmptyAll s.nodes = true ∧ ∀ slot ∈ s.slots, voidsEmptyAll slot = true

/-- The elements of a list are checked one by one. -/
theorem voidsEmptyAll_cons {n : Node} {ns : List Node} :
    voidsEmptyAll (n :: ns) = true ↔ n.voidsEmpty = true ∧ voidsEmptyAll ns = true :=
  Bool.and_eq_true_iff

/-- A branch is checked like the list it gives. -/
theorem voidsEmptyAll_toList (b : Option Node) :
    voidsEmptyAll b.toList = voidsEmptyBranch b := by
  cases b with
  | none => rfl
  | some n => rw [Option.toList_some, voidsEmptyAll, voidsEmptyAll, Bool.and_true, voidsEmptyBranch]

/-- Tidy pieces side by side are tidy. -/
theorem tidyAll_append {ps qs : List Piece} (hp : TidyAll ps) (hq : TidyAll qs) :
    TidyAll (ps ++ qs) := by
  induction ps with
  | nil => exact hq
  | cons p ps ih => exact ⟨hp.1, ih hp.2⟩

/-- A branch of tidy pieces is tidy. -/
theorem tidyBranch_map {b : Option Node} {ps : List Piece} (h : TidyAll ps) :
    TidyBranch (b.map fun _ => ps) := by
  cases b with
  | none => trivial
  | some n => exact h

/-- An element that passes the check has children only if it may, and they pass it. -/
theorem Node.voidsEmpty_element {tag : String} {attributes : List Attribute} {cs : List Node}
    (h : (Node.element tag attributes cs).voidsEmpty = true) :
    (isVoid tag = true → cs = []) ∧ voidsEmptyAll cs = true := by
  rw [Node.voidsEmpty, Bool.and_eq_true_iff, Bool.or_eq_true, Bool.not_eq_true',
    List.isEmpty_iff] at h
  refine ⟨fun hvoid => h.1.resolve_left fun hnot => ?_, h.2⟩
  rw [hvoid] at hnot
  cases hnot

/-- An element that is laid out without its children has none. -/
theorem tidy_element {t : Table} {stack : List String} {slots : List (List Node)} {tag : String}
    {attributes : List Attribute} {cs : List Node} {isRecursive : Bool} {ps : List Piece}
    (hvoid : isVoid tag = true → cs = []) (hlays : Lays t ⟨stack, slots, cs⟩ ps)
    (hps : TidyAll ps) : (Piece.element ⟨tag, attributes, cs.isEmpty, isRecursive⟩ ps).Tidy := by
  refine ⟨fun h => ?_, hps⟩
  have hcs : cs = [] := h.elim hvoid List.isEmpty_iff.1
  subst hcs
  cases hlays
  rfl

/-- **The layout hides nothing**: where the void elements of tree and table have no children, every
piece that is written without content has none. -/
theorem tidy_of_lays {t : Table} (ht : t.voidsEmpty = true) {s : Site} {ps : List Piece}
    (h : Lays t s ps) (hs : s.VoidsEmpty) : TidyAll ps := by
  obtain ⟨hnodes, hslots⟩ := hs
  induction h with
  | nil => trivial
  -- What is only walked through adds its children to the pieces behind it.
  | root _ _ ihcs ihns | fragment _ _ ihcs ihns | mixin _ _ ihcs ihns =>
    obtain ⟨hcs, hns⟩ := voidsEmptyAll_cons.1 hnodes
    rw [Node.voidsEmpty] at hcs
    exact tidyAll_append (ihcs hcs hslots) (ihns hns hslots)
  | plain _ hlays _ ihcs ihns | recursive _ _ hlays _ ihcs ihns =>
    obtain ⟨hn, hns⟩ := voidsEmptyAll_cons.1 hnodes
    obtain ⟨hvoid, hcs⟩ := Node.voidsEmpty_element hn
    exact ⟨tidy_element hvoid hlays (ihcs hcs hslots), ihns hns hslots⟩
  -- An inlined component brings its own body in, so the table must be free of void content too; the
  -- children of the instance become the innermost slot.
  | inlined hresolve _ _ _ ihbody ihns =>
    obtain ⟨hn, hns⟩ := voidsEmptyAll_cons.1 hnodes
    have hbody := List.all_eq_true.1 ht _ (Table.mem_values_of_resolve? hresolve)
    refine ⟨ihbody hbody fun slot hslot => ?_, ihns hns hslots⟩
    rcases List.mem_cons.1 hslot with rfl | hslot
    · exact (Node.voidsEmpty_element hn).2
    · exact hslots slot hslot
  | emptyText _ ihns => exact ihns (voidsEmptyAll_cons.1 hnodes).2 hslots
  | text _ _ ihns => exact ⟨trivial, ihns (voidsEmptyAll_cons.1 hnodes).2 hslots⟩
  -- The children handed in belong to the outer site: their slots are those around the innermost
  -- one.
  | slot _ _ _ ihslot ihns =>
    have hslot := hslots _ List.mem_cons_self
    have houter := fun slot h => hslots slot (List.mem_cons_of_mem _ h)
    exact tidyAll_append (ihslot hslot houter) (ihns (voidsEmptyAll_cons.1 hnodes).2 hslots)
  | interpolation _ _ ihns => exact ⟨trivial, ihns (voidsEmptyAll_cons.1 hnodes).2 hslots⟩
  | condition _ _ _ ihyes ihno ihns =>
    obtain ⟨hn, hns⟩ := voidsEmptyAll_cons.1 hnodes
    rw [Node.voidsEmpty, Bool.and_eq_true_iff, ← voidsEmptyAll_toList, ← voidsEmptyAll_toList] at hn
    exact ⟨⟨tidyBranch_map (ihyes hn.1 hslots), tidyBranch_map (ihno hn.2 hslots)⟩, ihns hns hslots⟩
  | iteration _ _ ihbody ihns =>
    obtain ⟨hbody, hns⟩ := voidsEmptyAll_cons.1 hnodes
    rw [Node.voidsEmpty] at hbody
    exact ⟨ihbody hbody hslots, ihns hns hslots⟩

/-- The layout of checked trees is tidy. -/
theorem tidy_layout {n : Node} {t : Table} (hn : n.voidsEmpty = true) (ht : t.voidsEmpty = true) :
    TidyAll (n.layout t) := by
  refine tidy_of_lays ht (lays_site_iff.2 rfl) ⟨?_, fun slot hslot => absurd hslot List.not_mem_nil⟩
  exact voidsEmptyAll_cons.2 ⟨hn, rfl⟩

/-! ### What is left once the tests are decided -/

/-- What an outline shows under decided tests, apart from the words of the engine. -/
inductive Display where
  | element (tag : String) (inside : List Display)
  | text (value : String)
  | value
  | bound (name : String)
  | loop (item : String) (inside : List Display)

mutual

/-- What an outline shows where `holds` decides the tests. -/
def Outline.display (holds : String → Bool) : Outline → List Display
  | .element tag inside => [.element tag (displayAll holds inside)]
  | .text value => [.text value]
  | .value _ => [.value]
  | .bound name _ => [.bound name]
  | .loop item _ inside => [.loop item (displayAll holds inside)]
  | .choice test yes no => if holds test then displayAll holds yes else displayAll holds no

def displayAll (holds : String → Bool) : List Outline → List Display
  | [] => []
  | o :: rest => o.display holds ++ displayAll holds rest

end

/-- **Tests are decided alike** in code and in Liquid's words, where the negation that Liquid splits
off counts as one. -/
def Alike (holds spoken : String → Bool) : Prop :=
  ∀ (code : Code) (negated : Bool) (words : String), code.liquidTest = .ok (negated, words) →
    holds code.text = (spoken words ^^ negated)

/-- The truth of tests in code that Liquid's words have. -/
def truthOf (spoken : String → Bool) (text : String) : Bool :=
  match (⟨text⟩ : Code).liquidTest with
  | .ok (negated, words) => spoken words ^^ negated
  | .error _ => false

/-- A truth assignment read off the words does not tell words apart that are the same. -/
theorem alike_truthOf (spoken : String → Bool) : Alike (truthOf spoken) spoken := by
  intro code negated words h
  rw [truthOf, h]

/-! ### Conditions decided one by one -/

/-- What is decided at a condition: whether its test holds there. -/
structure Decision where
  test : String
  holds : Bool

/-- **What outlines show where each condition is decided on its own.** The decisions stand in the
order of the conditions on the way. -/
inductive Renders : List Outline → List Decision → List Display → Prop
  | nil : Renders [] [] []
  | element {tag inside rest ds es shown others} : Renders inside ds shown →
    Renders rest es others →
    Renders (.element tag inside :: rest) (ds ++ es) (.element tag shown :: others)
  | text {value rest ds others} : Renders rest ds others →
    Renders (.text value :: rest) ds (.text value :: others)
  | value {words rest ds others} : Renders rest ds others →
    Renders (.value words :: rest) ds (.value :: others)
  | bound {name words rest ds others} : Renders rest ds others →
    Renders (.bound name words :: rest) ds (.bound name :: others)
  | loop {item source inside rest ds es shown others} : Renders inside ds shown →
    Renders rest es others →
    Renders (.loop item source inside :: rest) (ds ++ es) (.loop item shown :: others)
  | choice {test yes no rest ds es shown others} (holds : Bool) :
    Renders (if holds then yes else no) ds shown → Renders rest es others →
    Renders (.choice test yes no :: rest) (⟨test, holds⟩ :: (ds ++ es)) (shown ++ others)

namespace Renders

variable {as bs : List Outline} {ds es : List Decision} {xs ys : List Display}

/-- Siblings show what they show on their own, one after the other. -/
theorem append (h : Renders as ds xs) (h' : Renders bs es ys) :
    Renders (as ++ bs) (ds ++ es) (xs ++ ys) := by
  induction h with
  | nil => exact h'
  -- What is decided inside comes before what is decided behind the element.
  | element hinside _ _ ih =>
    rw [List.append_assoc]
    exact .element hinside ih
  | text _ ih => exact .text ih
  | value _ ih => exact .value ih
  | bound _ ih => exact .bound ih
  | loop hinside _ _ ih =>
    rw [List.append_assoc]
    exact .loop hinside ih
  | choice holds hbranch _ _ ih =>
    rw [List.cons_append, List.cons_append, List.append_assoc, List.append_assoc]
    exact .choice holds hbranch ih

/-- What siblings show comes apart where they do. -/
theorem exists_of_append (h : Renders (as ++ bs) ds xs) :
    ∃ ds₁ ds₂ xs₁ xs₂, ds = ds₁ ++ ds₂ ∧ xs = xs₁ ++ xs₂ ∧
      Renders as ds₁ xs₁ ∧ Renders bs ds₂ xs₂ := by
  induction as generalizing ds xs with
  | nil => exact ⟨[], ds, [], xs, rfl, rfl, .nil, h⟩
  | cons a as ih =>
    rw [List.cons_append] at h
    -- The first sibling is split off, and what is left is that of the others.
    cases h with
    | element hinside hrest =>
      obtain ⟨ds₁, ds₂, xs₁, xs₂, rfl, rfl, has, hbs⟩ := ih hrest
      exact ⟨_, ds₂, _, xs₂, (List.append_assoc _ _ _).symm, rfl, .element hinside has, hbs⟩
    | text hrest =>
      obtain ⟨ds₁, ds₂, xs₁, xs₂, rfl, rfl, has, hbs⟩ := ih hrest
      exact ⟨ds₁, ds₂, _, xs₂, rfl, rfl, .text has, hbs⟩
    | value hrest =>
      obtain ⟨ds₁, ds₂, xs₁, xs₂, rfl, rfl, has, hbs⟩ := ih hrest
      exact ⟨ds₁, ds₂, _, xs₂, rfl, rfl, .value has, hbs⟩
    | bound hrest =>
      obtain ⟨ds₁, ds₂, xs₁, xs₂, rfl, rfl, has, hbs⟩ := ih hrest
      exact ⟨ds₁, ds₂, _, xs₂, rfl, rfl, .bound has, hbs⟩
    | loop hinside hrest =>
      obtain ⟨ds₁, ds₂, xs₁, xs₂, rfl, rfl, has, hbs⟩ := ih hrest
      exact ⟨_, ds₂, _, xs₂, (List.append_assoc _ _ _).symm, rfl, .loop hinside has, hbs⟩
    | choice holds hbranch hrest =>
      obtain ⟨ds₁, ds₂, xs₁, xs₂, rfl, rfl, has, hbs⟩ := ih hrest
      refine ⟨_, ds₂, _, xs₂, ?_, (List.append_assoc _ _ _).symm, .choice holds hbranch has, hbs⟩
      rw [List.cons_append, List.append_assoc]

/-- Decided alike wherever they are met, tests show what is displayed under their truth. -/
theorem eq_displayAll {holds : String → Bool} (h : Renders as ds xs)
    (hds : ∀ d ∈ ds, d.holds = holds d.test) : xs = displayAll holds as := by
  induction h with
  | nil => rfl
  | element _ _ ihinside ih | loop _ _ ihinside ih =>
    obtain ⟨hinside, hrest⟩ := List.forall_mem_append.1 hds
    rw [displayAll, Outline.display, ihinside hinside, ih hrest, List.singleton_append]
  | text _ ih | value _ ih | bound _ ih =>
    rw [displayAll, Outline.display, ih hds, List.singleton_append]
  | choice decided _ _ ihbranch ih =>
    obtain ⟨hfirst, hothers⟩ := List.forall_mem_cons.1 hds
    obtain ⟨hbranch, hrest⟩ := List.forall_mem_append.1 hothers
    -- The branch that is shown is the one that the truth of the test picks.
    rw [displayAll, Outline.display, ihbranch hbranch, ih hrest, ← hfirst]
    cases decided <;> rfl

end Renders

mutual

/-- Every truth of the tests decides the conditions one by one. -/
theorem exists_renders (holds : String → Bool) : ∀ o : Outline,
    ∃ ds, (∀ d ∈ ds, d.holds = holds d.test) ∧ Renders [o] ds (o.display holds)
  | .element tag inside => by
    obtain ⟨ds, hds, hinside⟩ := exists_rendersAll holds inside
    refine ⟨ds, hds, ?_⟩
    have helement : Renders [.element tag inside] (ds ++ [])
        [.element tag (displayAll holds inside)] := .element hinside .nil
    rwa [List.append_nil] at helement
  | .text value => ⟨[], by simp, .text .nil⟩
  | .value words => ⟨[], by simp, .value .nil⟩
  | .bound name words => ⟨[], by simp, .bound .nil⟩
  | .loop item source inside => by
    obtain ⟨ds, hds, hinside⟩ := exists_rendersAll holds inside
    refine ⟨ds, hds, ?_⟩
    have hloop : Renders [.loop item source inside] (ds ++ [])
        [.loop item (displayAll holds inside)] := .loop hinside .nil
    rwa [List.append_nil] at hloop
  | .choice test yes no => by
    -- The condition itself is decided first, and only the branch that is shown has decisions of its
    -- own.
    have hbranch : ∃ ds, (∀ d ∈ ds, d.holds = holds d.test) ∧
        Renders (if holds test then yes else no) ds
          (if holds test then displayAll holds yes else displayAll holds no) := by
      cases holds test with
      | true => exact exists_rendersAll holds yes
      | false => exact exists_rendersAll holds no
    obtain ⟨ds, hds, hshown⟩ := hbranch
    have hchoice : Renders [.choice test yes no] (⟨test, holds test⟩ :: (ds ++ [])) (_ ++ []) :=
      .choice (holds test) hshown .nil
    rw [List.append_nil, List.append_nil] at hchoice
    exact ⟨⟨test, holds test⟩ :: ds, List.forall_mem_cons.2 ⟨rfl, hds⟩, hchoice⟩

/-- Under an assignment every list of outlines shows what it displays, decided at each condition as
the assignment says. -/
theorem exists_rendersAll (holds : String → Bool) : ∀ os : List Outline,
    ∃ ds, (∀ d ∈ ds, d.holds = holds d.test) ∧ Renders os ds (displayAll holds os)
  | [] => ⟨[], by simp, .nil⟩
  | o :: os => by
    obtain ⟨ds, hds, ho⟩ := exists_renders holds o
    obtain ⟨es, hes, hos⟩ := exists_rendersAll holds os
    exact ⟨ds ++ es, List.forall_mem_append.2 ⟨hds, hes⟩, ho.append hos⟩

end

/-- The decision is the same one in Liquid's words, where the negation that Liquid splits off counts
as one. -/
def Decision.InWords (d e : Decision) : Prop :=
  ∃ negated, (⟨d.test⟩ : Code).liquidTest = .ok (negated, e.test) ∧ d.holds = (e.holds ^^ negated)

/-- Where tests are decided alike, their decisions in Liquid's words are those of the words. -/
theorem Decision.holds_of_alike {holds spoken : String → Bool} (h : Alike holds spoken)
    {ds es : List Decision} (hds : ∀ d ∈ ds, d.holds = holds d.test)
    (hwords : List.Forall₂ Decision.InWords ds es) : ∀ e ∈ es, e.holds = spoken e.test := by
  induction hwords with
  | nil => exact fun e he => absurd he List.not_mem_nil
  | @cons d e ds es hfirst _ ih =>
    obtain ⟨hd, hrest⟩ := List.forall_mem_cons.1 hds
    refine List.forall_mem_cons.2 ⟨?_, ih hrest⟩
    -- Both decisions are those on the words, turned around if the test was translated to its
    -- opposite.
    obtain ⟨negated, htest, hholds⟩ := hfirst
    have hspoken : holds d.test = (spoken e.test ^^ negated) := h ⟨d.test⟩ negated e.test htest
    rw [← hd, hholds] at hspoken
    exact Bool.xor_left_inj.1 hspoken

/-- **Whatever is decided at the conditions of `os`, `os'` shows the same** if its conditions are
decided so in Liquid's words, one after the other. -/
def Simulates (os' os : List Outline) : Prop :=
  ∀ ds shown, Renders os ds shown →
    ∃ es, List.Forall₂ Decision.InWords ds es ∧ Renders os' es shown

namespace Simulates

variable {as as' bs bs' : List Outline}

/-- Nothing shows nothing. -/
theorem nil : Simulates [] [] := by
  intro ds shown h
  cases h
  exact ⟨[], .nil, .nil⟩

/-- What is simulated part by part is simulated side by side. -/
theorem append (ha : Simulates as' as) (hb : Simulates bs' bs) :
    Simulates (as' ++ bs') (as ++ bs) := by
  intro ds shown h
  obtain ⟨ds₁, ds₂, xs₁, xs₂, rfl, rfl, has, hbs⟩ := h.exists_of_append
  obtain ⟨es₁, hes₁, has'⟩ := ha ds₁ xs₁ has
  obtain ⟨es₂, hes₂, hbs'⟩ := hb ds₂ xs₂ hbs
  exact ⟨es₁ ++ es₂, List.rel_append hes₁ hes₂, has'.append hbs'⟩

/-- An element is simulated if what it encloses is. -/
theorem element (tag : String) (h : Simulates as' as) :
    Simulates [.element tag as'] [.element tag as] := by
  intro ds shown hrenders
  cases hrenders with
  | element hinside hnil =>
    cases hnil
    obtain ⟨es, hes, hinside'⟩ := h _ _ hinside
    refine ⟨es ++ [], ?_, hinside'.element .nil⟩
    rwa [List.append_nil, List.append_nil]

/-- A text shows itself. -/
theorem text (value : String) : Simulates [.text value] [.text value] := by
  intro ds shown hrenders
  cases hrenders with
  | text hnil =>
    cases hnil
    exact ⟨[], .nil, .text .nil⟩

/-- Values show as such, whatever the words for them. -/
theorem value (words' words : String) : Simulates [.value words'] [.value words] := by
  intro ds shown hrenders
  cases hrenders with
  | value hnil =>
    cases hnil
    exact ⟨[], .nil, .value .nil⟩

/-- Bound names show as such, whatever they are bound to. -/
theorem bound {α : Type} (name : α → String) (words' words : α → Option String) (names : List α) :
    Simulates (names.map fun a => .bound (name a) (words' a))
      (names.map fun a => .bound (name a) (words a)) := by
  induction names with
  | nil => exact nil
  | cons a names ih =>
    intro ds shown hrenders
    cases hrenders with
    | bound hrest =>
      obtain ⟨es, hes, hrest'⟩ := ih _ _ hrest
      exact ⟨es, hes, .bound hrest'⟩

/-- A loop is simulated if its body is; what it goes over is not shown. -/
theorem loop (item source' source : String) (h : Simulates as' as) :
    Simulates [.loop item source' as'] [.loop item source as] := by
  intro ds shown hrenders
  cases hrenders with
  | loop hinside hnil =>
    cases hnil
    obtain ⟨es, hes, hinside'⟩ := h _ _ hinside
    refine ⟨es ++ [], ?_, hinside'.loop .nil⟩
    rwa [List.append_nil, List.append_nil]

/-- So is a loop whose index and array have names of their own. -/
theorem ofLoop (item source' source : String) (index array position' position : Option String)
    (h : Simulates as' as) : Simulates (Outline.ofLoop item source' index array position' as')
      (Outline.ofLoop item source index array position as) := by
  unfold Outline.ofLoop
  refine append (bound id _ _ array.toList) (loop item _ _ ?_)
  exact append (bound id _ _ index.toList) h

/-- A test whose branches Liquid has exchanged is decided the other way round there. -/
theorem ofTest {test : Code} {negated : Bool} {words : String}
    (htest : test.liquidTest = .ok (negated, words)) (hyes : Simulates as' as)
    (hno : Simulates bs' bs) :
    Simulates [.ofTest words negated as' bs'] [.ofTest test.text false as bs] := by
  -- Whichever branch is shown, it is simulated.
  have hbranch (holds : Bool) : Simulates (if holds then as' else bs')
      (if holds then as else bs) := by
    cases holds
    · exact hno
    · exact hyes
  intro ds shown hrenders
  cases hrenders with
  | choice holds hshown hnil =>
    cases hnil
    obtain ⟨es, hes, hshown'⟩ := hbranch holds _ _ hshown
    -- Liquid decides on the words so that the same branch is shown.
    have hfirst : Decision.InWords ⟨test.text, holds⟩ ⟨words, holds ^^ negated⟩ :=
      ⟨negated, htest, by rw [Bool.xor_assoc, Bool.xor_self, Bool.xor_false]⟩
    refine ⟨⟨words, holds ^^ negated⟩ :: (es ++ []), ?_, ?_⟩
    · rw [List.append_nil, List.append_nil]
      exact .cons hfirst hes
    · cases negated with
      | false => exact .choice _ (by rwa [Bool.xor_false]) .nil
      | true => exact .choice _ (by cases holds <;> exact hshown') .nil

end Simulates

open Emission Liquid in
mutual

/-- **Liquid shows what the code says**, as far as it has words for it. -/
theorem simulates_outline : ∀ (p : Piece), p.Tidy → ∀ level : Nat, Succeeds (emit level p) →
    Simulates (p.outline .liquid) (p.outline .scripts)
  | .element head content, htidy, level, hok => by
    obtain ⟨-, -, hcontent⟩ := succeeds_element htidy hok
    exact .element head.tag (simulates_outlineAll content htidy.2 _ hcontent)
  | .text value, _, level, _ => .text value
  | .interpolation code, _, level, _ => .value _ _
  | .condition test consequent alternate, htidy, level, hok => by
    obtain ⟨negated, words, htest, hconsequent, halternate⟩ := succeeds_condition hok
    -- The test was translated, else nothing would have been printed.
    rw [Piece.outline, Piece.outline, test_liquid htest]
    exact .ofTest htest (simulates_outlineBranch consequent htidy.1 _ hconsequent)
      (simulates_outlineBranch alternate htidy.2 _ halternate)
  | .iteration loop body, htidy, level, hok => by
    obtain ⟨-, -, hbody⟩ := succeeds_iteration hok
    exact .ofLoop _ _ _ _ _ _ _ (simulates_outlineAll body htidy _ hbody)
  | .scope bindings body, htidy, level, hok => by
    rw [emit] at hok
    have hbody := (succeeds_append.1 hok).2
    exact .append (.bound _ _ _ bindings) (simulates_outlineAll body htidy _ hbody)

/-- Liquid's outline of pieces simulates the one of the scripts, piece by piece. -/
theorem simulates_outlineAll : ∀ (ps : List Piece), TidyAll ps → ∀ level : Nat,
    Succeeds (emitAll level ps) → Simulates (outlineAll .liquid ps) (outlineAll .scripts ps)
  | [], _, _, _ => .nil
  | p :: ps, htidy, level, hok => by
    rw [emitAll] at hok
    obtain ⟨hp, hps⟩ := succeeds_append.1 hok
    exact .append (simulates_outline p htidy.1 _ hp) (simulates_outlineAll ps htidy.2 _ hps)

/-- So does that of a branch that may be absent. -/
theorem simulates_outlineBranch : ∀ (b : Option (List Piece)), TidyBranch b → ∀ level : Nat,
    (∀ ps ∈ b, Succeeds (emitAll level ps)) →
    Simulates (outlineBranch .liquid b) (outlineBranch .scripts b)
  | none, _, _, _ => .nil
  | some ps, htidy, level, hok => simulates_outlineAll ps htidy level (hok ps rfl)

end

/-! ### Texts -/

namespace Emission

variable {δ : Type}

/-- The text of emissions is that of their lines. -/
theorem join_text (spell : δ → String) (es : List (Emission δ)) :
    String.join (es.map (text spell)) = spelled spell (lines es) := by
  induction es with
  | nil => rfl
  | cons e es ih =>
    rw [List.map_cons, String.join_cons, ih]
    -- Only lines have a text.
    cases e with
    | line level content => rw [lines_line, spelled, spelled, List.map_cons, String.join_cons, text]
    | warning w => exact String.empty_append
    | failure f => exact String.empty_append

/-- Emissions come to a text where nothing fails, and only there. -/
theorem result_outcome_iff {spell : δ → String} {es : List (Emission δ)} {s : String} :
    (outcome spell es).result = .ok s ↔ Succeeds es ∧ s = spelled spell (lines es) := by
  have hfind : es.findSome? failure? = none ↔ Succeeds es := List.findSome?_eq_none_iff
  unfold outcome
  -- The result is a failure just if one of the emissions is.
  cases hfailure : es.findSome? failure? with
  | some f =>
    refine ⟨nofun, fun h => ?_⟩
    rw [hfind.2 h.1] at hfailure
    cases hfailure
  | none =>
    rw [← join_text]
    exact ⟨fun h => ⟨hfind.1 hfailure, (Except.ok.inj h).symm⟩, fun h => congrArg _ h.2.symm⟩

/-- Warnings do not fail. -/
theorem succeeds_warnings (h : Head) : Succeeds (h.warnings : List (Emission δ)) := by
  intro e he
  rw [Head.warnings] at he
  split at he
  · rw [List.mem_singleton.1 he]
    rfl
  · cases he

/-- A line does not fail. -/
theorem succeeds_line {level : Nat} {content : δ} {es : List (Emission δ)} (h : Succeeds es) :
    Succeeds (.line level content :: es) :=
  succeeds_cons.2 ⟨rfl, h⟩

/-- Nothing does not fail. -/
theorem succeeds_nil : Succeeds ([] : List (Emission δ)) :=
  fun _ he => absurd he List.not_mem_nil

/-- Lines do not fail, however many. -/
theorem succeeds_map_line {α : Type} (level : Nat) (content : α → δ) (as : List α) :
    Succeeds (as.map fun a => .line level (content a)) := by
  induction as with
  | nil => exact succeeds_nil
  | cons a rest ih => exact succeeds_line ih

end Emission

open Emission in
mutual

/-- EJS has words for everything. -/
theorem Ejs.succeeds_emit (level : Nat) : ∀ p : Piece, Succeeds (Ejs.emit level p)
  | .element head content => by
    rw [Ejs.emit]
    refine succeeds_append.2 ⟨succeeds_warnings head, ?_⟩
    split
    · exact succeeds_line succeeds_nil
    · split
      · exact succeeds_line succeeds_nil
      · exact succeeds_append.2
          ⟨succeeds_line (Ejs.succeeds_emitAll _ content), succeeds_line succeeds_nil⟩
  | .text _ => succeeds_line succeeds_nil
  | .interpolation _ => succeeds_line succeeds_nil
  | .condition test consequent alternate => by
    rw [Ejs.emit]
    -- The lines of a test follow each other, so the branches are in words on their own.
    refine succeeds_append.2 ⟨succeeds_append.2 ⟨succeeds_line ?_, ?_⟩, succeeds_line succeeds_nil⟩
    · match consequent with
      | none => exact succeeds_nil
      | some ps => exact Ejs.succeeds_emitAll _ ps
    · match alternate with
      | none => exact succeeds_nil
      | some ps => exact succeeds_line (Ejs.succeeds_emitAll _ ps)
  | .iteration loop body => by
    rw [Ejs.emit]
    exact succeeds_append.2
      ⟨succeeds_line (Ejs.succeeds_emitAll _ body), succeeds_line succeeds_nil⟩
  | .scope bindings body => by
    rw [Ejs.emit]
    split
    · exact Ejs.succeeds_emitAll _ body
    · exact succeeds_append.2
        ⟨succeeds_line (Ejs.succeeds_emitAll _ body), succeeds_line succeeds_nil⟩

/-- Embedding code as it is cannot fail. -/
theorem Ejs.succeeds_emitAll (level : Nat) : ∀ ps : List Piece, Succeeds (Ejs.emitAll level ps)
  | [] => succeeds_nil
  | p :: ps => succeeds_append.2 ⟨Ejs.succeeds_emit level p, Ejs.succeeds_emitAll level ps⟩

end

open Emission in
mutual

/-- Pug has words for everything. -/
theorem Pug.succeeds_emit (level : Nat) : ∀ p : Piece, Succeeds (Pug.emit level p)
  | .element head content =>
    succeeds_append.2 ⟨succeeds_warnings head, succeeds_line (Pug.succeeds_emitAll _ content)⟩
  | .text _ => succeeds_line succeeds_nil
  | .interpolation _ => succeeds_line succeeds_nil
  -- The cases of a condition are those in which it is emitted differently.
  | .condition _ none (some alternate) => succeeds_line (Pug.succeeds_emitAll _ alternate)
  | .condition _ none none => succeeds_line succeeds_nil
  | .condition _ (some consequent) none =>
    succeeds_append.2 ⟨succeeds_line (Pug.succeeds_emitAll _ consequent), succeeds_nil⟩
  | .condition _ (some consequent) (some alternate) =>
    succeeds_append.2 ⟨succeeds_line (Pug.succeeds_emitAll _ consequent),
      succeeds_line (Pug.succeeds_emitAll _ alternate)⟩
  | .iteration _ body =>
    succeeds_append.2 ⟨succeeds_map_line level id _, Pug.succeeds_emitAll _ body⟩
  | .scope _ body =>
    succeeds_append.2 ⟨succeeds_map_line level Pug.assignment _, Pug.succeeds_emitAll _ body⟩

/-- Embedding code as it is cannot fail. -/
theorem Pug.succeeds_emitAll (level : Nat) : ∀ ps : List Piece, Succeeds (Pug.emitAll level ps)
  | [] => succeeds_nil
  | p :: ps => succeeds_append.2 ⟨Pug.succeeds_emit level p, Pug.succeeds_emitAll level ps⟩

end

/-! ### Agreement -/

/-- **The engines agree.** Where the void elements of tree and table have no children, EJS and Pug
always come to a template, and what is read off both is one and the same outline, that of the tree
with its components inlined. If Liquid comes to a template as well, what is read off it is this
outline in Liquid's words, and it shows the same: for every truth of the tests, if each condition is
decided as the one in its place, and if the tests are decided by Liquid's words. -/
theorem engines_agree {n : Node} {t : Table} (hn : n.voidsEmpty = true) (ht : t.voidsEmpty = true)
    (level : Nat) :
    let ps := n.layout t
    let ejs := Emission.lines (Ejs.emitAll level ps)
    let pug := Emission.lines (Pug.emitAll level ps)
    let liquid := Emission.lines (Liquid.emitAll level ps)
    (Engine.ejs.generate level n t).result = .ok (Emission.spelled Ejs.Directive.spell ejs) ∧
    (Engine.pug.generate level n t).result = .ok (Emission.spelled Pug.Directive.spell pug) ∧
    Ejs.outline? ejs = some (outlineAll .scripts ps) ∧
    Pug.outline? level pug = some (outlineAll .scripts ps) ∧
    ∀ text, (Engine.liquid.generate level n t).result = .ok text →
      text = Emission.spelled Liquid.Directive.spell liquid ∧
      Liquid.outline? liquid = some (outlineAll .liquid ps) ∧
      (∀ holds, ∃ ds es, (∀ d ∈ ds, d.holds = holds d.test) ∧
        List.Forall₂ Decision.InWords ds es ∧
        Renders (outlineAll .scripts ps) ds (displayAll holds (outlineAll .scripts ps)) ∧
        Renders (outlineAll .liquid ps) es (displayAll holds (outlineAll .scripts ps))) ∧
      ∀ holds spoken, Alike holds spoken →
        displayAll holds (outlineAll .scripts ps) = displayAll spoken (outlineAll .liquid ps) := by
  intro ps ejs pug liquid
  -- The outlines are read off the pieces, and that needs no more than that the layout hides
  -- nothing.
  have htidy : TidyAll ps := tidy_layout hn ht
  refine ⟨?_, ?_, Ejs.outline?_lines htidy level, Pug.outline?_lines ps level, fun text htext => ?_⟩
  · exact Emission.result_outcome_iff.2 ⟨Ejs.succeeds_emitAll level ps, rfl⟩
  · exact Emission.result_outcome_iff.2 ⟨Pug.succeeds_emitAll level ps, rfl⟩
  obtain ⟨hok, hspelled⟩ := Emission.result_outcome_iff.1 htext
  have hshown : ∀ holds, ∃ ds es, (∀ d ∈ ds, d.holds = holds d.test) ∧
      List.Forall₂ Decision.InWords ds es ∧
      Renders (outlineAll .scripts ps) ds (displayAll holds (outlineAll .scripts ps)) ∧
      Renders (outlineAll .liquid ps) es (displayAll holds (outlineAll .scripts ps)) := by
    intro holds
    obtain ⟨ds, hds, hscripts⟩ := exists_rendersAll holds (outlineAll .scripts ps)
    obtain ⟨es, hes, hliquid⟩ := simulates_outlineAll ps htidy level hok ds _ hscripts
    exact ⟨ds, es, hds, hes, hscripts, hliquid⟩
  refine ⟨hspelled, Liquid.outline?_lines htidy hok, hshown, fun holds spoken halike => ?_⟩
  obtain ⟨ds, es, hds, hes, -, hliquid⟩ := hshown holds
  exact hliquid.eq_displayAll (Decision.holds_of_alike halike hds hes)

/-- A call with a slot, around a test that is negated and misses its first branch, and a loop that
names all it can. The two tests behind it come to the same words in Liquid and are decided
differently. -/
theorem engines_agree_slot_and_tests :
    let card : Component := ⟨{ name := "Card", props := [⟨"title", true⟩] },
      [.element "h1" [] [.interpolation ⟨"title"⟩],
        .condition ⟨"!open"⟩ none (some (.element "hr" [] [])),
        .iteration ⟨⟨"items"⟩, "item", some "i", some "all"⟩ [.interpolation ⟨"children"⟩]], true,
      none⟩
    let n : Node := .root [.element "Card" [⟨"title", .literal "T", false⟩] [.text "body"],
      .condition ⟨"a == b"⟩ (some (.text "x")) none, .condition ⟨"a === b"⟩ (some (.text "y")) none]
    let t : Table := { components := Dict.ofList [("Card", card)] }
    let holds := fun test => test == "!open" || test == "a == b"
    n.voidsEmpty = true ∧ t.voidsEmpty = true ∧
      ∃ text os os' es, (Engine.liquid.generate 0 n t).result = .ok text ∧
        Ejs.outline? (Emission.lines (Ejs.emitAll 0 (n.layout t))) = some os ∧
        Pug.outline? 0 (Emission.lines (Pug.emitAll 0 (n.layout t))) = some os ∧
        Liquid.outline? (Emission.lines (Liquid.emitAll 0 (n.layout t))) = some os' ∧
        Renders os' es (displayAll holds os) ∧
        ∀ spoken, displayAll (truthOf spoken) os = displayAll spoken os' := by
  intro card n t holds
  have hn : n.voidsEmpty = true := by decide +kernel
  have ht : t.voidsEmpty = true := by decide +kernel
  obtain ⟨text, htext⟩ := exists_ok_of_isSome (x := (Engine.liquid.generate 0 n t).result)
    (by decide +kernel)
  obtain ⟨-, -, hejs, hpug, hrest⟩ := engines_agree hn ht 0
  obtain ⟨-, hliquid, hshown, hdisplay⟩ := hrest text htext
  -- The assignment tells two tests apart that have the same words in Liquid. They are decided one
  -- by one.
  obtain ⟨ds, es, -, -, -, hes⟩ := hshown holds
  exact ⟨hn, ht, text, _, _, es, htext, hejs, hpug, hliquid, hes, fun spoken =>
    hdisplay _ spoken (alike_truthOf spoken)⟩

/-- **A void element in a component**: Pug writes its children, and EJS does not. -/
theorem display_void_in_component :
    let n : Node := .element "Line" [] []
    let line : Component := ⟨{ name := "Line" }, [.element "br" [] [.text "x"]], true, none⟩
    let t : Table := { components := Dict.ofList [("Line", line)] }
    n.voidsEmpty = true ∧
      ∃ os os', Ejs.outline? (Emission.lines (Ejs.emitAll 0 (n.layout t))) = some os ∧
        Pug.outline? 0 (Emission.lines (Pug.emitAll 0 (n.layout t))) = some os' ∧
        ∀ holds, displayAll holds os ≠ displayAll holds os' := by
  intro n line t
  -- EJS leaves the text inside `br` out, and Pug prints it.
  refine ⟨rfl, [.element "br" []], [.element "br" [.text "x"]], rfl, rfl, fun holds h => ?_⟩
  cases h

end Stencil
