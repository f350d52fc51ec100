import Stencil.Proofs.Engine.Refusal
import Stencil.Proofs.Optimize.Guard

/-!
# Tests in the same words

Liquid has no parentheses, and the words for a test are written one after another. So what grouped
the operands is gone, and what is left is read by precedence: `<` binds tightest and `or` loosest.

* `Junction` — a test made of names, `<`, `&&` and `||`, where parentheses only group;
* `Junction.keepsGroups` — its groups are those of the precedence;
* `truthOf` — the truth of words by precedence;
* `truthy_value` — such a test has the truth of its words;
* `same_truth_of_same_words` — so tests that are put into the same words are equally true.

Nothing is refused for its groups, so without that condition it fails: `(a || b) && c` is put into
the words of `a || b && c` (`grouping_is_lost`).
-/

namespace Stencil.Liquid

open Script

/-! ### Junctions -/

/-- The operators of a junction. -/
inductive Sign where
  | less
  | and
  | or
deriving DecidableEq

/-- A test made of names and these operators. -/
inductive Junction where
  | name (n : String)
  | join (sign : Sign) (left right : Junction)
deriving DecidableEq

/-- Two parts joined, if both are junctions. -/
def join? (sign : Sign) (left right : Option Junction) : Option Junction :=
  left.bind fun l => right.map fun r => .join sign l r

/-- A junction joins two junctions. -/
theorem join?_eq_some_iff {sign : Sign} {left right : Option Junction} {j : Junction} :
    join? sign left right = some j ↔
      ∃ l r, left = some l ∧ right = some r ∧ j = .join sign l r := by
  cases left with
  | none => simp [join?]
  | some l => cases right <;> simp [join?, eq_comm]

mutual

/-- The junction that an expression is; parentheses around any part are of no account. -/
def junction? : Expr → Option Junction
  | .mk _ form => formJunction? form

def formJunction? : Form → Option Junction
  | .identifier n => some (.name n)
  | .paren inner => junction? inner
  | .binary .lt left right => join? .less (junction? left) (junction? right)
  | .logical .and left right => join? .and (junction? left) (junction? right)
  | .logical .or left right => join? .or (junction? left) (junction? right)
  | _ => none

end

namespace Junction

/-- Names compared by `<`, grouped to the left. -/
def isChain : Junction → Bool
  | .name _ => true
  | .join .less left (.name _) => left.isChain
  | .join _ _ _ => false

/-- Chains joined by `&&`, grouped in any way. -/
def isConjunction : Junction → Bool
  | .join .and left right => left.isConjunction && right.isConjunction
  | j => j.isChain

/-- Conjunctions joined by `||`, grouped in any way. No parentheses are needed to write this. -/
def keepsGroups : Junction → Bool
  | .join .or left right => left.keepsGroups && right.keepsGroups
  | j => j.isConjunction

end Junction

/-! ### Words -/

/-- A word of a test. -/
inductive Word where
  | name (n : String)
  | sign (s : Sign)
deriving DecidableEq

/-- How a sign is written. -/
def Sign.spelled : Sign → String
  | .less => "<"
  | .and => "and"
  | .or => "or"

/-- How a word is written. -/
def Word.spelled : Word → String
  | .name n => if n = "undefined" then "nil" else n
  | .sign s => s.spelled

/-- The words of a junction, from left to right. -/
def Junction.words : Junction → List Word
  | .name n => [.name n]
  | .join s left right => left.words ++ .sign s :: right.words

/-- Words in one line. -/
def spell (ws : List Word) : String :=
  " ".intercalate (ws.map Word.spelled)

/-- A junction has at least one word. -/
theorem Junction.words_ne_nil (j : Junction) : j.words ≠ [] := by
  cases j <;> simp [words]

/-- A name is spelled as it is; only `undefined` has a word of its own. -/
theorem spell_name (n : String) : spell [.name n] = if n = "undefined" then "nil" else n :=
  String.intercalate_singleton

/-- A joined junction is spelled with blanks around its sign. -/
theorem spell_join (s : Sign) (left right : Junction) :
    spell (Junction.join s left right).words
      = spell left.words ++ " " ++ s.spelled ++ " " ++ spell right.words := by
  -- No junction is without words, so each sign has a blank on both sides.
  have hleft : left.words.map Word.spelled ≠ [] := by simp [left.words_ne_nil]
  have hright : right.words.map Word.spelled ≠ [] := by simp [right.words_ne_nil]
  have hrest : (Word.sign s :: right.words).map Word.spelled ≠ [] := by simp
  unfold spell
  rw [Junction.words, List.map_append, String.intercalate_append_of_ne_nil hleft hrest,
    List.map_cons, String.intercalate_cons_of_ne_nil hright]
  simp only [String.append_assoc]
  rfl

/-! ### A junction is put into its words -/

/-- A word is written with no blank and no bar in it. -/
structure Word.Plain (w : Word) : Prop where
  no_blank : ' ' ∉ w.spelled.toList
  no_bar : '|' ∉ w.spelled.toList

/-- Signs are plain words. -/
theorem plain_sign (s : Sign) : (Word.sign s).Plain := by
  cases s <;> exact ⟨by decide, by decide⟩

/-- Names are plain words, since identifier characters are neither blanks nor bars. -/
theorem plain_name {n : String} (h : IsName n) : (Word.name n).Plain := by
  constructor <;> unfold Word.spelled <;> dsimp only <;> split
  · decide
  · exact h.isWord.notMem (by decide +kernel)
  · decide
  · exact h.isWord.notMem (by decide +kernel)

/-- Joining plain words keeps them plain. -/
theorem plain_join {s : Sign} {left right : Junction} (hleft : ∀ w ∈ left.words, w.Plain)
    (hright : ∀ w ∈ right.words, w.Plain) :
    ∀ w ∈ (Junction.join s left right).words, w.Plain := by
  intro w hw
  rw [Junction.words, List.mem_append, List.mem_cons] at hw
  rcases hw with hw | rfl | hw
  · exact hleft w hw
  · exact plain_sign s
  · exact hright w hw

/-- What occurs in a text consists of characters of it. -/
theorem mem_of_occursIn {part whole : List Char} (h : Text.occursIn part whole = true) {c : Char}
    (hc : c ∈ part) : c ∈ whole := by
  -- The part begins the text or occurs behind its first character.
  induction whole with
  | nil =>
    have hpart : part = [] := List.isEmpty_iff.1 h
    rw [hpart] at hc
    exact hc
  | cons d rest ih =>
    rcases Bool.or_eq_true_iff.1 h with hfront | hrest
    · exact (List.isPrefixOf_iff_prefix.1 hfront).subset hc
    · exact List.mem_cons_of_mem d (ih hrest)

/-- Plain words are spelled without a bar, so they contain no filter. -/
theorem not_bar_mem_spell {j : Junction} (h : ∀ w ∈ j.words, w.Plain) :
    '|' ∉ (spell j.words).toList := by
  induction j with
  | name n =>
    rw [Junction.words, spell_name]
    exact (h (.name n) List.mem_cons_self).no_bar
  | join s left right ihleft ihright =>
    have hleft : '|' ∉ (spell left.words).toList :=
      ihleft fun w hw => h w (List.mem_append_left _ hw)
    have hright : '|' ∉ (spell right.words).toList :=
      ihright fun w hw => h w (List.mem_append_right _ (List.mem_cons_of_mem _ hw))
    -- Signs are the only words that the join itself adds.
    have hsign : '|' ∉ s.spelled.toList := (plain_sign s).no_bar
    rw [spell_join]
    simp [hleft, hright, hsign]

/-- No filter is in the words of a junction, so nothing in it is refused for one. -/
theorem hasFilter_spell {j : Junction} (h : ∀ w ∈ j.words, w.Plain) :
    hasFilter (spell j.words) = false := by
  cases hfilter : hasFilter (spell j.words) with
  | false => rfl
  | true => exact absurd (mem_of_occursIn hfilter (by decide)) (not_bar_mem_spell h)

mutual

/-- **A junction is put into its words**, and its names are plain. -/
theorem operand_of_junction? : ∀ (e : Expr) (j : Junction), e.NamesRead → junction? e = some j →
    (∀ w ∈ j.words, w.Plain) ∧ operand e = .ok (spell j.words)
  | .mk _ form, j, hread, hj => formOperand_of_junction? _ form j hread hj

/-- A form that is a junction is translated to the words of the junction, and they are plain. -/
theorem formOperand_of_junction? (text : String) : ∀ (form : Form) (j : Junction),
    form.NamesRead → formJunction? form = some j →
      (∀ w ∈ j.words, w.Plain) ∧ formOperand text form = .ok (spell j.words)
  | .identifier n, j, hread, hj => by
    cases hj
    refine ⟨?_, ?_⟩
    · rw [Junction.words, List.forall_mem_singleton]
      exact plain_name hread
    · rw [Junction.words, spell_name]
      rfl
  | .paren inner, j, hread, hj => operand_of_junction? inner j hread hj
  | .binary .lt left right, j, hread, hj => by
    obtain ⟨l, r, hl, hr, rfl⟩ := join?_eq_some_iff.1 hj
    obtain ⟨hleft, hlwords⟩ := operand_of_junction? left l hread.1 hl
    obtain ⟨hright, hrwords⟩ := operand_of_junction? right r hread.2 hr
    refine ⟨plain_join hleft hright, ?_⟩
    -- Only here are the words of the operands looked at, for filters.
    rw [formOperand, hlwords, hrwords, spell_join]
    simp [comparison?, hasFilter_spell hleft, hasFilter_spell hright, Sign.spelled, bind,
      Except.bind]
  | .logical .and left right, j, hread, hj => by
    obtain ⟨l, r, hl, hr, rfl⟩ := join?_eq_some_iff.1 hj
    obtain ⟨hleft, hlwords⟩ := operand_of_junction? left l hread.1 hl
    obtain ⟨hright, hrwords⟩ := operand_of_junction? right r hread.2 hr
    refine ⟨plain_join hleft hright, ?_⟩
    rw [formOperand, hlwords, hrwords, spell_join]
    rfl
  | .logical .or left right, j, hread, hj => by
    obtain ⟨l, r, hl, hr, rfl⟩ := join?_eq_some_iff.1 hj
    obtain ⟨hleft, hlwords⟩ := operand_of_junction? left l hread.1 hl
    obtain ⟨hright, hrwords⟩ := operand_of_junction? right r hread.2 hr
    refine ⟨plain_join hleft hright, ?_⟩
    rw [formOperand, hlwords, hrwords, spell_join]
    rfl

end

/-! ### What a junction comes to -/

section Value

variable {w : World} {less : Datum → Datum → Datum}

/-- Two data compared by `<`: primitive values by the operator wherever it has a value, and all else
as `less` has it. -/
def compared (less : Datum → Datum → Datum) (a b : Datum) : Datum :=
  match a, b with
  | .primitive u, .primitive v =>
    match Value.binary .lt u v with
    | some r => .primitive r
    | none => less a b
  | _, _ => less a b

/-- What a sign makes of the data on its two sides. -/
def Sign.applied (less : Datum → Datum → Datum) : Sign → Datum → Datum → Datum
  | .less, a, b => compared less a b
  | .and, a, b => if a.truthy then b else a
  | .or, a, b => if a.truthy then a else b

/-- What a junction comes to where the names have the values of the world. -/
def Junction.value (w : World) (less : Datum → Datum → Datum) : Junction → Datum
  | .name n => w.named n
  | .join s left right => s.applied less (left.value w less) (right.value w less)

/-- In the world, what `<` makes of data that are not primitive depends on the data alone: neither
on how the operands are written nor on anything else. -/
def Compares (w : World) (less : Datum → Datum → Datum) : Prop :=
  ∀ left right a b d, w.result (.binary .lt left right) [a, b] d ↔ d = less a b

/-- Two primitive operands are compared as the constant operators compare them. -/
theorem compared_of_value {u v r : Value} (h : Value.binary .lt u v = some r) :
    compared less (.primitive u) (.primitive v) = .primitive r := by
  simp only [compared, h]

/-- All other operands are compared by `less`. -/
theorem compared_of_no_value {a b : Datum}
    (h : ∀ u v r, a = .primitive u → b = .primitive v → Value.binary .lt u v ≠ some r) :
    compared less a b = less a b := by
  unfold compared
  split
  · next u v =>
    split
    · next r hr => exact absurd hr (h u v r rfl rfl)
    · rfl
  · rfl

/-- A comparison comes to what its sides, compared, come to. -/
theorem evaluates_less_iff (h : Compares w less) {t : String} {left right : Expr} {d : Datum} :
    Evaluates w (.mk t (.binary .lt left right)) d ↔
      ∃ a b, Evaluates w left a ∧ Evaluates w right b ∧ d = compared less a b := by
  constructor
  · intro hd
    -- The operator has a value for the operands, or the world says what it makes of them.
    cases hd with
    | binary hleft hright hr => exact ⟨_, _, hleft, hright, (compared_of_value hr).symm⟩
    | binaryOfOther hleft hright hab hd =>
      refine ⟨_, _, hleft, hright, ?_⟩
      rw [compared_of_no_value hab]
      exact (h _ _ _ _ _).1 hd
    | other hform _ => cases hform
  · rintro ⟨a, b, hleft, hright, rfl⟩
    by_cases hab : ∃ u v r, a = .primitive u ∧ b = .primitive v ∧ Value.binary .lt u v = some r
    · obtain ⟨u, v, r, rfl, rfl, hr⟩ := hab
      rw [compared_of_value hr]
      exact .binary hleft hright hr
    · have hno : ∀ u v r, a = .primitive u → b = .primitive v → Value.binary .lt u v ≠ some r :=
        fun u v r hu hv hr => hab ⟨u, v, r, hu, hv, hr⟩
      rw [compared_of_no_value hno]
      exact .binaryOfOther hleft hright hno ((h _ _ _ _ _).2 rfl)

mutual

/-- **An expression that is a junction comes to the value of the junction**, and to nothing else. -/
theorem evaluates_iff_value (h : Compares w less) : ∀ (e : Expr) (j : Junction),
    junction? e = some j → ∀ d, Evaluates w e d ↔ d = j.value w less
  | .mk t form, j, hj, d => evaluates_form_iff_value h t form j hj d

/-- A form that is a junction comes to the value of the junction. -/
theorem evaluates_form_iff_value (h : Compares w less) (t : String) : ∀ (form : Form)
    (j : Junction), formJunction? form = some j →
      ∀ d, Evaluates w (.mk t form) d ↔ d = j.value w less
  | .identifier n, j, hj, d => by
    cases hj
    exact evaluates_identifier_iff
  | .paren inner, j, hj, d => by
    -- Parentheses only group: the expression and what is inside have the same bare form.
    have hinner : Evaluates w inner d ↔ d = j.value w less := evaluates_iff_value h inner j hj d
    rw [← hinner, ← evaluates_bare_iff, ← evaluates_bare_iff (e := inner)]
    rfl
  | .binary .lt left right, j, hj, d => by
    -- Both sides of `<` are evaluated, and the order of them is kept.
    obtain ⟨l, r, hl, hr, rfl⟩ := join?_eq_some_iff.1 hj
    have hleft := evaluates_iff_value h left l hl
    have hright := evaluates_iff_value h right r hr
    simp only [evaluates_less_iff h, hleft, hright, exists_and_left, exists_eq_left]
    rfl
  | .logical .and left right, j, hj, d => by
    -- `&&` stops at a left value that is not truthy, and this is what `Sign.applied` says.
    obtain ⟨l, r, hl, hr, rfl⟩ := join?_eq_some_iff.1 hj
    have hleft := evaluates_iff_value h left l hl
    have hright := evaluates_iff_value h right r hr
    simp only [evaluates_logical_iff, hleft, hright, exists_eq_left, Junction.value, Sign.applied,
      Datum.decides]
    cases (l.value w less).truthy <;> rfl
  | .logical .or left right, j, hj, d => by
    obtain ⟨l, r, hl, hr, rfl⟩ := join?_eq_some_iff.1 hj
    have hleft := evaluates_iff_value h left l hl
    have hright := evaluates_iff_value h right r hr
    simp only [evaluates_logical_iff, hleft, hright, exists_eq_left, Junction.value, Sign.applied,
      Datum.decides]
    cases (l.value w less).truthy <;> rfl

end

end Value

/-! ### The truth of words -/

/-- The name that a word is. -/
def Word.name? : Word → Option String
  | .name n => some n
  | .sign _ => none

/-- What names come to that are compared one after another. -/
def chainValue (w : World) (less : Datum → Datum → Datum) (ws : List Word) : Datum :=
  match ws.filterMap Word.name? with
  | [] => .primitive .undefined
  | n :: rest => rest.foldl (fun d m => compared less d (w.named m)) (w.named n)

/-- The truth of words by precedence: they are cut at each `or`, the parts at each `and`, and what
is left between them are chains. -/
def truthOf (w : World) (less : Datum → Datum → Datum) (ws : List Word) : Bool :=
  (ws.splitOn (.sign .or)).any fun conjunction =>
    (conjunction.splitOn (.sign .and)).all fun chain => (chainValue w less chain).truthy

section Truth

variable {w : World} {less : Datum → Datum → Datum} {j : Junction}

/-- A conjunction is true if both sides are. -/
theorem truthy_and (a b : Datum) :
    (Sign.and.applied less a b).truthy = (a.truthy && b.truthy) := by
  cases h : a.truthy <;> simp [Sign.applied, h]

/-- A disjunction is true if one side is. -/
theorem truthy_or (a b : Datum) :
    (Sign.or.applied less a b).truthy = (a.truthy || b.truthy) := by
  cases h : a.truthy <;> simp [Sign.applied, h]

/-- A chain has no sign but `<`. -/
theorem signs_of_isChain (h : j.isChain = true) : ∀ s, .sign s ∈ j.words → s = .less := by
  -- Along the chain, which grows to the right by one name at a time.
  fun_induction Junction.isChain j with
  | case1 n => simp [Junction.words]
  | case2 left m ih =>
    intro s hs
    rw [Junction.words, List.mem_append, List.mem_cons] at hs
    rcases hs with hs | hs | hs
    · exact ih h s hs
    · exact Word.sign.inj hs
    · simp [Junction.words] at hs
  | case3 => cases h

/-- The value of a chain is that of its names. -/
theorem value_of_isChain (h : j.isChain = true) : j.value w less = chainValue w less j.words := by
  -- The names of a chain, so that one more can be compared at its end.
  have hnames : ∃ n rest, j.words.filterMap Word.name? = n :: rest ∧
      j.value w less = rest.foldl (fun d m => compared less d (w.named m)) (w.named n) := by
    fun_induction Junction.isChain j with
    | case1 n => exact ⟨n, [], rfl, rfl⟩
    | case2 left m ih =>
      obtain ⟨n, rest, hwords, hvalue⟩ := ih h
      refine ⟨n, rest ++ [m], ?_, ?_⟩
      · rw [Junction.words, List.filterMap_append, hwords]
        rfl
      · rw [List.foldl_append, ← hvalue]
        rfl
    | case3 => cases h
  obtain ⟨n, rest, hwords, hvalue⟩ := hnames
  unfold chainValue
  rw [hwords]
  exact hvalue

/-- A conjunction has no `||`. -/
theorem no_or_of_isConjunction (h : j.isConjunction = true) : .sign .or ∉ j.words := by
  fun_induction Junction.isConjunction j with
  | case1 left right ihleft ihright =>
    obtain ⟨hleft, hright⟩ := Bool.and_eq_true_iff.1 h
    rw [Junction.words, List.mem_append, List.mem_cons]
    rintro (hmem | hmem | hmem)
    · exact ihleft hleft hmem
    · cases hmem
    · exact ihright hright hmem
  | case2 j hj =>
    intro hmem
    -- A chain of one sign has no other one.
    cases signs_of_isChain h .or hmem

/-- A conjunction is true if all its chains are. -/
theorem truthy_of_isConjunction (h : j.isConjunction = true) :
    (j.value w less).truthy
      = (j.words.splitOn (.sign .and)).all fun chain => (chainValue w less chain).truthy := by
  fun_induction Junction.isConjunction j with
  | case1 left right ihleft ihright =>
    obtain ⟨hleft, hright⟩ := Bool.and_eq_true_iff.1 h
    -- A cut at the sign in the middle leaves the cuts of both sides.
    rw [Junction.value, truthy_and, ihleft hleft, ihright hright, Junction.words,
      List.splitOn_append_cons_self, List.all_append]
  | case2 j hj =>
    have hand : .sign .and ∉ j.words := by
      intro hmem
      cases signs_of_isChain h .and hmem
    rw [List.splitOn_eq_singleton hand, value_of_isChain h, List.all_cons, List.all_nil,
      Bool.and_true]

/-- **A test that keeps its groups has the truth of its words.** -/
theorem truthy_value (h : j.keepsGroups = true) :
    (j.value w less).truthy = truthOf w less j.words := by
  unfold truthOf
  -- By the alternatives of the junction: the words are split at the signs between them.
  fun_induction Junction.keepsGroups j with
  | case1 left right ihleft ihright =>
    obtain ⟨hleft, hright⟩ := Bool.and_eq_true_iff.1 h
    rw [Junction.value, truthy_or, ihleft hleft, ihright hright, Junction.words,
      List.splitOn_append_cons_self, List.any_append]
  | case2 j hj =>
    rw [List.splitOn_eq_singleton (no_or_of_isConjunction h), truthy_of_isConjunction h,
      List.any_cons, List.any_nil, Bool.or_false]

end Truth

/-! ### The same text, the same words -/

/-- Names with one sign between each two of them. -/
inductive Alternates : List Word → Prop where
  | name (n : String) : Alternates [.name n]
  | cons (n : String) (s : Sign) {ws : List Word} (h : Alternates ws) :
    Alternates (.name n :: .sign s :: ws)

/-- Alternating words, with a sign between them, alternate. -/
theorem Alternates.append {ws us : List Word} (hws : Alternates ws) (s : Sign)
    (hus : Alternates us) : Alternates (ws ++ .sign s :: us) := by
  induction hws with
  | name n => exact .cons n s hus
  | cons n s' _ ih => exact .cons n s' ih

/-- The words of a junction alternate. -/
theorem Junction.alternates (j : Junction) : Alternates j.words := by
  induction j with
  | name n => exact .name n
  | join s left right ihleft ihright => exact ihleft.append s ihright

/-- Different signs are spelled differently. -/
theorem Sign.spelled_injective {s s' : Sign} (h : s.spelled = s'.spelled) : s = s' := by
  cases s <;> cases s' <;> first | rfl | exact absurd h (by decide)

/-- `undefined` is written as `nil`, so a name `nil` would be taken for it. -/
theorem Word.name_injective {n n' : String} (hn : n ≠ "nil") (hn' : n' ≠ "nil")
    (h : (Word.name n).spelled = (Word.name n').spelled) : n = n' := by
  unfold Word.spelled at h
  dsimp only at h
  -- Only one name is spelled differently, and the spelling it gets is excluded for the others.
  split at h
  · next hundefined =>
    split at h
    · next hundefined' => rw [hundefined, hundefined']
    · exact absurd h.symm hn'
  · split at h
    · exact absurd h hn
    · exact h

/-- Words that alternate are told apart by how they are written: a name may be spelled like a sign,
but it does not stand where a sign does. -/
theorem Alternates.eq_of_map_spelled {ws us : List Word} (hws : Alternates ws)
    (hus : Alternates us) (hnil : .name "nil" ∉ ws) (hnil' : .name "nil" ∉ us)
    (h : ws.map Word.spelled = us.map Word.spelled) : ws = us := by
  have name_eq {n n' : String} {ws us : List Word} (hn : .name "nil" ∉ Word.name n :: ws)
      (hn' : .name "nil" ∉ Word.name n' :: us)
      (h : (Word.name n).spelled = (Word.name n').spelled) : n = n' := by
    refine Word.name_injective ?_ ?_ h
    · rintro rfl
      exact hn List.mem_cons_self
    · rintro rfl
      exact hn' List.mem_cons_self
  -- Both texts are read two words at a time, a name and the sign behind it.
  induction hws generalizing us with
  | name n =>
    cases hus with
    | name n' => rw [name_eq hnil hnil' (List.cons.inj h).1]
    | cons n' s _ => cases (List.cons.inj h).2
  | cons n s hws ih =>
    cases hus with
    | name n' => cases (List.cons.inj h).2
    | cons n' s' hus =>
      obtain ⟨hname, hrest⟩ := List.cons.inj h
      obtain ⟨hsign, hrest⟩ := List.cons.inj hrest
      have hwords := ih hus (fun hmem => hnil (by simp [hmem])) (fun hmem => hnil' (by simp [hmem]))
        hrest
      rw [name_eq hnil hnil' hname, Sign.spelled_injective hsign, hwords]

/-- A line of plain words can be cut into its words again. -/
theorem map_spelled_of_spell {ws us : List Word} (hws : ∀ w ∈ ws, w.Plain)
    (hus : ∀ w ∈ us, w.Plain) (hne : ws ≠ []) (hne' : us ≠ []) (h : spell ws = spell us) :
    ws.map Word.spelled = us.map Word.spelled := by
  -- No word has a blank in it, so the blanks of the line are those between its words.
  have cut {ws : List Word} (hws : ∀ w ∈ ws, w.Plain) (hne : ws ≠ []) :
      (spell ws).toList.splitOn ' ' = (ws.map Word.spelled).map String.toList := by
    unfold spell
    rw [String.toList_intercalate]
    refine List.splitOn_intercalate ' ' ?_ (by simp [hne])
    intro cs hcs
    obtain ⟨s, hs, rfl⟩ := List.mem_map.1 hcs
    obtain ⟨w, hw, rfl⟩ := List.mem_map.1 hs
    exact (hws w hw).no_blank
  have hcut : (ws.map Word.spelled).map String.toList
      = (us.map Word.spelled).map String.toList := by
    rw [← cut hws hne, ← cut hus hne', h]
  exact (List.map_inj_right fun _ _ => String.toList_inj.1).1 hcut

end Stencil.Liquid

namespace Stencil

open Liquid

/-! ### Tests in code -/

/-- The junction that code is. -/
def Code.junction? (code : Code) : Option Junction :=
  (Script.Expr.parse? code.text).bind Liquid.junction?

/-- What code may come to in a world. -/
def Code.ComesTo (w : World) (code : Code) (d : Datum) : Prop :=
  ∃ e, Script.Expr.parse? code.text = some e ∧ Evaluates w e d

/-- A test that is a junction is accepted, and put into its words. -/
theorem liquidTest_of_junction? {code : Code} {j : Junction} (h : code.junction? = some j) :
    (∀ w ∈ j.words, w.Plain) ∧ code.liquidTest = .ok (false, spell j.words) := by
  obtain ⟨e, he, hj⟩ := Option.bind_eq_some_iff.1 h
  obtain ⟨hplain, hwords⟩ := operand_of_junction? e j (Script.namesRead_of_parse? he) hj
  have hcode : code.liquid = .ok (spell j.words) := by
    unfold Code.liquid Liquid.parse
    rw [he]
    exact hwords
  exact ⟨hplain, liquidTest_of_liquid hcode⟩

/-- Code that is a junction comes to the value of the junction. -/
theorem comesTo_iff_value {w : World} {less : Datum → Datum → Datum} (hw : Compares w less)
    {code : Code} {j : Junction} (h : code.junction? = some j) (d : Datum) :
    code.ComesTo w d ↔ d = j.value w less := by
  obtain ⟨e, he, hj⟩ := Option.bind_eq_some_iff.1 h
  -- The code reads as one expression only, the one that the junction was made of.
  rw [← evaluates_iff_value hw e j hj d]
  constructor
  · rintro ⟨e', he', hd⟩
    rw [he] at he'
    cases he'
    exact hd
  · intro hd
    exact ⟨e, he, hd⟩

/-- **Tests in the same words are equally true.** Two tests made of names, `<`, `&&`, `||` and
parentheses, whose groups are those of the precedence and which have no name `nil`, are accepted. If
they are put into the same words, then in every world both come to one datum each, and the two data
are equally true. -/
theorem same_truth_of_same_words {code code' : Code} {j j' : Junction}
    (hcode : code.junction? = some j) (hcode' : code'.junction? = some j')
    (hgroups : j.keepsGroups = true) (hgroups' : j'.keepsGroups = true)
    (hnil : .name "nil" ∉ j.words) (hnil' : .name "nil" ∉ j'.words)
    (hsame : code.liquidTest = code'.liquidTest) :
    (∃ words, code.liquidTest = .ok (false, words)) ∧
      ∀ w less, Compares w less → ∃ d d', (∀ x, code.ComesTo w x ↔ x = d) ∧
        (∀ x, code'.ComesTo w x ↔ x = d') ∧ d.truthy = d'.truthy := by
  obtain ⟨hplain, htest⟩ := liquidTest_of_junction? hcode
  obtain ⟨hplain', htest'⟩ := liquidTest_of_junction? hcode'
  refine ⟨⟨_, htest⟩, ?_⟩
  -- The text gives back the words, and the words the truth.
  have hspell : spell j.words = spell j'.words := by
    rw [htest, htest'] at hsame
    exact (Prod.mk.inj (Except.ok.inj hsame)).2
  have hspelled : j.words.map Word.spelled = j'.words.map Word.spelled :=
    map_spelled_of_spell hplain hplain' j.words_ne_nil j'.words_ne_nil hspell
  have hwords : j.words = j'.words :=
    j.alternates.eq_of_map_spelled j'.alternates hnil hnil' hspelled
  intro w less hw
  refine ⟨_, _, comesTo_iff_value hw hcode, comesTo_iff_value hw hcode', ?_⟩
  rw [truthy_value hgroups, truthy_value hgroups', hwords]

/-- A world that gives the names these values and compares by `less`; all else comes to an
object. -/
def World.comparing (value : String → Datum) (less : Datum → Datum → Datum) : World where
  value := value
  result form ds d :=
    match form, ds with
    | .binary .lt _ _, [a, b] => d = less a b
    | _, _ => d = .other 0 true
  exists_literal form hform := by
    cases form with
    | binary => cases hform
    | _ => exact ⟨_, rfl⟩
  truthy_literal form d hform hd := by
    cases form with
    | binary => cases hform
    | _ =>
      have hother : d = .other 0 true := hd
      rw [hother]
      rfl

/-- A comparison that a world is given is the one it has. -/
theorem compares_comparing (value : String → Datum) (less : Datum → Datum → Datum) :
    Compares (.comparing value less) less :=
  fun _ _ _ _ _ => Iff.rfl

/-- Conjuncts that are grouped to the right, and a comparison in parentheses. -/
theorem same_truth_of_regrouped :
    let flat : Code := ⟨"a && b && c || d < e"⟩
    let grouped : Code := ⟨"(a && (b && c)) || (d < e)"⟩
    let w : World := .comparing (fun n => .primitive (.string n)) fun a _ => a
    flat.liquidTest = grouped.liquidTest ∧ (∃ words, flat.liquidTest = .ok (false, words)) ∧
      ∃ d d', (∀ x, flat.ComesTo w x ↔ x = d) ∧ (∀ x, grouped.ComesTo w x ↔ x = d') ∧
        d.truthy = d'.truthy := by
  intro flat grouped w
  let less : Junction := .join .less (.name "d") (.name "e")
  let left : Junction := .join .and (.join .and (.name "a") (.name "b")) (.name "c")
  let right : Junction := .join .and (.name "a") (.join .and (.name "b") (.name "c"))
  have hflat : flat.junction? = some (.join .or left less) := by decide +kernel
  have hgrouped : grouped.junction? = some (.join .or right less) := by decide +kernel
  have hwords : (Junction.join .or left less).words = (Junction.join .or right less).words := rfl
  have hsame : flat.liquidTest = grouped.liquidTest := by
    rw [(liquidTest_of_junction? hflat).2, (liquidTest_of_junction? hgrouped).2, hwords]
  obtain ⟨haccepted, htruth⟩ := same_truth_of_same_words hflat hgrouped rfl rfl (by decide)
    (by decide) hsame
  exact ⟨hsame, haccepted, htruth w _ (compares_comparing _ _)⟩

/-- **Grouping is lost.** A disjunction in front of `&&` is put into the words of a test that has
the conjunction first, and there is a world in which only one of the two tests is true. -/
theorem grouping_is_lost :
    let grouped : Code := ⟨"(a || b) && c"⟩
    let flat : Code := ⟨"a || b && c"⟩
    grouped.liquidTest = flat.liquidTest ∧ (∃ words, flat.liquidTest = .ok (false, words)) ∧
      ∃ w less, Compares w less ∧ ∃ d d', (∀ x, grouped.ComesTo w x ↔ x = d) ∧
        (∀ x, flat.ComesTo w x ↔ x = d') ∧ d.truthy = false ∧ d'.truthy = true := by
  intro grouped flat
  let first : Junction := .join .or (.name "a") (.name "b")
  let second : Junction := .join .and (.name "b") (.name "c")
  have hgrouped : grouped.junction? = some (.join .and first (.name "c")) := by decide +kernel
  have hflat : flat.junction? = some (.join .or (.name "a") second) := by decide +kernel
  have hwords : (Junction.join .and first (.name "c")).words
      = (Junction.join .or (.name "a") second).words := rfl
  have hsame : grouped.liquidTest = flat.liquidTest := by
    rw [(liquidTest_of_junction? hgrouped).2, (liquidTest_of_junction? hflat).2, hwords]
  refine ⟨hsame, ⟨_, (liquidTest_of_junction? hflat).2⟩, ?_⟩
  -- Only `a` is true, which is enough for the disjunction that is not in a conjunction.
  let w : World := .comparing (fun n => .primitive (.bool (n == "a"))) fun a _ => a
  have hw : Compares w fun a _ => a := compares_comparing _ _
  refine ⟨w, _, hw, _, _, comesTo_iff_value hw hgrouped, comesTo_iff_value hw hflat, ?_, ?_⟩
  · decide +kernel
  · decide +kernel

end Stencil
