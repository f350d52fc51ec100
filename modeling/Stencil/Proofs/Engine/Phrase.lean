import Mathlib.Data.List.Chain
import Mathlib.Data.List.Forall2
import Mathlib.Data.List.TakeWhile
import Stencil.Proofs.Engine.Refusal
import Stencil.Proofs.Text.Spelling

/-!
# Phrases of Liquid

What a Liquid template may have where it outputs, assigns, tests or loops over something. A `Phrase`
is a kind of text, and `Phrase.Covers` the grammar: a path of names, members and indices; an operand
(a path, a numeral or a string literal); an output, which is an operand followed by filters; and a
test, whose operands and comparisons of two operands are joined by `and` and `or`.

An expression is put into words without regard to the place that they are for, and the words of its
parts are strung together. So not everything that has words is a phrase: a filter can end up in a
test, and an operator in an output. `shape?` says what the words of an expression look like, as long
as they can be a phrase at all: operands with operators between them, or an operand with filters.

* `fits_shape?` — the words of an expression have its shape;
* `Shape.Describes.covers` — what a shape describes is a phrase of every kind that admits the shape;
* `Phrase.Covers.clear` — only an output has a bar outside of its string literals.
-/

namespace Stencil.Liquid

open Script

/-! ### The grammar -/

/-- A character of an identifier. -/
def isIdentifierChar (c : Char) : Bool :=
  c.isAlphanum || c == '_' || c == '-'

/-- The text is a single identifier: a letter or an underscore, and then what may also be digits and
hyphens. -/
def isIdentifier (s : String) : Bool :=
  match s.toList with
  | [] => false
  | c :: rest => (c.isAlpha || c == '_') && rest.all isIdentifierChar

/-- The digits are a numeral without a sign. -/
def isUnsigned (cs : List Char) : Bool :=
  !(cs.takeWhile Char.isDigit).isEmpty &&
    match cs.dropWhile Char.isDigit with
    | [] => true
    | '.' :: fraction => !fraction.isEmpty && fraction.all Char.isDigit
    | _ => false

/-- The text is a numeral: digits with a fraction or none, and a sign or none. -/
def isNumeral (s : String) : Bool :=
  match s.toList with
  | '-' :: rest => isUnsigned rest
  | cs => isUnsigned cs

/-- An operator between two operands. -/
inductive Operator where
  | comparison | connective
deriving DecidableEq

/-- The texts of an operator. -/
def Operator.signs : Operator → List String
  | .comparison => ["==", "!=", "<", "<=", ">", ">="]
  | .connective => ["and", "or"]

/-- A kind of phrase. -/
inductive Phrase where
  /-- A name with members and indices. -/
  | path
  /-- A path, a numeral or a string literal. -/
  | operand
  /-- An operand followed by filters. -/
  | output
  /-- Operands and comparisons of two operands, joined by `and` and `or`. -/
  | test
deriving DecidableEq

namespace Phrase

/-- **The texts of a kind of phrase.** -/
inductive Covers : Phrase → String → Prop where
  | name {n : String} (hn : isIdentifier n = true) : Covers .path n
  | member {s n : String} (h : Covers .path s) (hn : isIdentifier n = true) :
    Covers .path (s ++ "." ++ n)
  | index {s key : String} (h : Covers .path s) (hkey : Covers .operand key) :
    Covers .path (s ++ "[" ++ key ++ "]")
  | path {s : String} (h : Covers .path s) : Covers .operand s
  | numeral {s : String} (h : isNumeral s = true) : Covers .operand s
  /-- A literal cannot hold the quote it is written with. -/
  | literal {mark : Char} {cs : List Char} (hmark : mark = '"' ∨ mark = '\'') (h : mark ∉ cs) :
    Covers .operand (String.ofList (mark :: cs ++ [mark]))
  | value {s : String} (h : Covers .operand s) : Covers .output s
  | filter {s name : String} (h : Covers .output s) (hname : isIdentifier name = true) :
    Covers .output (s ++ " | " ++ name)
  | filterWith {s name argument : String} (h : Covers .output s)
    (hname : isIdentifier name = true) (hargument : Covers .operand argument) :
    Covers .output (s ++ " | " ++ name ++ ": " ++ argument)
  | condition {s : String} (h : Covers .operand s) : Covers .test s
  | compared {left sign right : String} (hleft : Covers .operand left)
    (hsign : sign ∈ Operator.comparison.signs) (hright : Covers .operand right) :
    Covers .test (left ++ " " ++ sign ++ " " ++ right)
  | joined {left word right : String} (hleft : Covers .test left)
    (hword : word ∈ Operator.connective.signs) (hright : Covers .test right) :
    Covers .test (left ++ " " ++ word ++ " " ++ right)

/-- Filters apply one after another, so a value that is appended may have filters of its own. -/
theorem Covers.append {s s' : String} (h : Covers .output s) (h' : Covers .output s') :
    Covers .output (s ++ appendFilter ++ s') := by
  -- By induction on the filters of the second value: the first of them is the one that appends.
  generalize hk : Phrase.output = k at h'
  induction h' with
  | @value s' h' =>
    have hs : Covers .output (s ++ " | " ++ "append" ++ ": " ++ s') :=
      .filterWith h (by decide) h'
    rw [← hk, show appendFilter = " | " ++ "append" ++ ": " from rfl]
    simpa only [String.append_assoc] using hs
  | @filter s' name _ hname ih =>
    have hs : Covers .output (s ++ appendFilter ++ s' ++ " | " ++ name) := .filter (ih hk) hname
    simpa only [String.append_assoc] using hs
  | @filterWith s' name argument _ hname hargument ih =>
    have hs : Covers .output (s ++ appendFilter ++ s' ++ " | " ++ name ++ ": " ++ argument) :=
      .filterWith (ih hk) hname hargument
    simpa only [String.append_assoc] using hs
  | _ => cases hk

/-- Values that are appended to each other. -/
theorem Covers.intercalate {ss : List String} (hne : ss ≠ []) (h : ∀ s ∈ ss, Covers .output s) :
    Covers .output (appendFilter.intercalate ss) := by
  induction ss with
  | nil => exact absurd rfl hne
  | cons s rest ih =>
    have hs : Covers .output s := h s List.mem_cons_self
    by_cases hrest : rest = []
    · rw [hrest, String.intercalate_singleton]
      exact hs
    · rw [String.intercalate_cons_of_ne_nil hrest]
      exact hs.append (ih hrest fun s' hs' => h s' (List.mem_cons_of_mem s hs'))

end Phrase

/-! ### Bars outside of literals -/

/-- The characters that stand in no string literal, where `mark` is the quote of the literal that is
open. -/
def unquoted : Option Char → List Char → List Char
  | _, [] => []
  | none, c :: rest =>
    if c = '"' ∨ c = '\'' then unquoted (some c) rest else c :: unquoted none rest
  | some mark, c :: rest => if c = mark then unquoted none rest else unquoted (some mark) rest

/-- The character is neither a quote nor a bar. -/
def isPlain (c : Char) : Bool :=
  c != '"' && c != '\'' && c != '|'

/-- A plain character is neither of the quotation marks and no bar. -/
theorem isPlain_iff {c : Char} : isPlain c = true ↔ c ≠ '"' ∧ c ≠ '\'' ∧ c ≠ '|' := by
  simp [isPlain, and_assoc]

/-- The text leaves no literal open, and has no bar outside of its literals. -/
structure Clear (cs : List Char) : Prop where
  closed : ∀ rest, unquoted none (cs ++ rest) = unquoted none cs ++ unquoted none rest
  no_bar : '|' ∉ unquoted none cs

namespace Clear

/-- Clear texts side by side are clear: the first leaves no literal open for the second. -/
theorem append {cs ds : List Char} (hcs : Clear cs) (hds : Clear ds) : Clear (cs ++ ds) where
  closed rest := by
    rw [List.append_assoc, hcs.closed, hds.closed, hcs.closed, List.append_assoc]
  no_bar := by
    rw [hcs.closed, List.mem_append, not_or]
    exact ⟨hcs.no_bar, hds.no_bar⟩

/-- A text without quotes and bars. -/
theorem of_plain {cs : List Char} (h : cs.all isPlain = true) : Clear cs := by
  replace h : ∀ c ∈ cs, c ≠ '"' ∧ c ≠ '\'' ∧ c ≠ '|' := by
    intro c hc
    exact isPlain_iff.1 (List.all_eq_true.1 h c hc)
  -- None of the characters is a quote, so all of them are outside of literals.
  have hunquoted : ∀ rest, unquoted none (cs ++ rest) = cs ++ unquoted none rest := by
    intro rest
    induction cs with
    | nil => rfl
    | cons c cs ih =>
      obtain ⟨⟨hdouble, hsingle, -⟩, hcs⟩ := List.forall_mem_cons.1 h
      rw [List.cons_append, unquoted, if_neg (not_or.2 ⟨hdouble, hsingle⟩), ih hcs,
        List.cons_append]
  have hself : unquoted none cs = cs := by
    have := hunquoted []
    rwa [List.append_nil, unquoted, List.append_nil] at this
  refine ⟨fun rest => ?_, ?_⟩
  · rw [hunquoted, hself]
  · rw [hself]
    intro hbar
    exact (h '|' hbar).2.2 rfl

/-- A string literal, whatever is in it. -/
theorem of_literal {mark : Char} {cs : List Char} (hmark : mark = '"' ∨ mark = '\'')
    (h : mark ∉ cs) : Clear (mark :: cs ++ [mark]) := by
  -- The literal stays open up to its last character.
  have hinside : ∀ rest, unquoted (some mark) (cs ++ mark :: rest) = unquoted none rest := by
    intro rest
    induction cs with
    | nil => rw [List.nil_append, unquoted, if_pos rfl]
    | cons c cs ih =>
      obtain ⟨hc, hcs⟩ := List.ne_and_not_mem_of_not_mem_cons h
      rw [List.cons_append, unquoted, if_neg (Ne.symm hc), ih hcs]
  have hwhole : ∀ rest, unquoted none (mark :: cs ++ [mark] ++ rest) = unquoted none rest := by
    intro rest
    rw [List.append_assoc, List.cons_append, unquoted, if_pos hmark]
    exact hinside rest
  have hself : unquoted none (mark :: cs ++ [mark]) = [] := by
    have := hwhole []
    rwa [List.append_nil, unquoted] at this
  refine ⟨fun rest => ?_, ?_⟩
  · rw [hwhole, hself, List.nil_append]
  · rw [hself]
    exact List.not_mem_nil

end Clear

/-- An identifier has identifier characters only. -/
theorem isIdentifierChar_of_isIdentifier {s : String} (h : isIdentifier s = true) :
    ∀ c ∈ s.toList, isIdentifierChar c = true := by
  unfold isIdentifier at h
  split at h
  · cases h
  · next c rest hs =>
    obtain ⟨hc, hrest⟩ := Bool.and_eq_true_iff.1 h
    rw [hs, List.forall_mem_cons]
    refine ⟨?_, List.all_eq_true.1 hrest⟩
    unfold isIdentifierChar
    -- What may begin an identifier may also stand in it.
    rcases Bool.or_eq_true_iff.1 hc with hc | hc
    · simp [Char.isAlphanum, hc]
    · simp [hc]

/-- So it is clear. -/
theorem clear_of_isIdentifier {s : String} (h : isIdentifier s = true) : Clear s.toList := by
  apply Clear.of_plain
  rw [List.all_eq_true]
  intro c hc
  rw [isPlain_iff]
  have hchar : isIdentifierChar c = true := isIdentifierChar_of_isIdentifier h c hc
  refine ⟨?_, ?_, ?_⟩ <;> rintro rfl <;> exact absurd hchar (by decide)

/-- An unsigned numeral has digits and a point. -/
theorem mem_of_isUnsigned {cs : List Char} (h : isUnsigned cs = true) :
    ∀ c ∈ cs, c.isDigit = true ∨ c = '.' := by
  obtain ⟨-, hrest⟩ := Bool.and_eq_true_iff.1 h
  intro c hc
  -- A digit before the first character that is none, or what is behind.
  rw [← List.takeWhile_append_dropWhile (p := Char.isDigit) (l := cs), List.mem_append] at hc
  rcases hc with hc | hc
  · exact .inl (List.mem_takeWhile_imp hc)
  · split at hrest
    · next hnil =>
      rw [hnil] at hc
      cases hc
    · -- What is behind is a point and a fraction of digits.
      next fraction hfraction =>
      obtain ⟨-, hdigits⟩ := Bool.and_eq_true_iff.1 hrest
      rw [hfraction, List.mem_cons] at hc
      rcases hc with rfl | hc
      · exact .inr rfl
      · exact .inl (List.all_eq_true.1 hdigits c hc)
    · cases hrest

/-- So a numeral is clear, its sign included. -/
theorem clear_of_isNumeral {s : String} (h : isNumeral s = true) : Clear s.toList := by
  -- A sign can only be in front, and a dot only in the middle, which does not matter here.
  have hchars : ∀ c ∈ s.toList, c.isDigit = true ∨ c = '.' ∨ c = '-' := by
    unfold isNumeral at h
    split at h
    · next rest hs =>
      rw [hs, List.forall_mem_cons]
      refine ⟨.inr (.inr rfl), fun c hc => ?_⟩
      exact (mem_of_isUnsigned h c hc).imp_right .inl
    · intro c hc
      exact (mem_of_isUnsigned h c hc).imp_right .inl
  apply Clear.of_plain
  rw [List.all_eq_true]
  intro c hc
  rw [isPlain_iff]
  rcases hchars c hc with hdigit | rfl | rfl
  · refine ⟨?_, ?_, ?_⟩ <;> rintro rfl <;> exact absurd hdigit (by decide)
  · decide
  · decide

theorem clear_of_mem_signs {o : Operator} {sign : String} (h : sign ∈ o.signs) :
    Clear sign.toList := by
  have hsigns : o.signs.all (fun sign => sign.toList.all isPlain) = true := by
    cases o <;> decide
  exact .of_plain (List.all_eq_true.1 hsigns sign h)

/-- Two texts with a sign between them. -/
theorem clear_spaced {s sign r : String} (hs : Clear s.toList) (hsign : Clear sign.toList)
    (hr : Clear r.toList) : Clear (s ++ " " ++ sign ++ " " ++ r).toList := by
  have hblank : Clear " ".toList := .of_plain (by decide)
  simp only [String.toList_append]
  exact (((hs.append hblank).append hsign).append hblank).append hr

/-- **Only an output has a bar** outside of its string literals. -/
theorem Phrase.Covers.clear {k : Phrase} {s : String} (h : Covers k s) (hk : k ≠ .output) :
    Clear s.toList := by
  have hdot : Clear ".".toList := .of_plain (by decide)
  have hopen : Clear "[".toList := .of_plain (by decide)
  have hclose : Clear "]".toList := .of_plain (by decide)
  -- A path and an operand are in no output, so the bars of filters never get into them.
  induction h with
  | name hn => exact clear_of_isIdentifier hn
  | member _ hn ih =>
    rw [String.toList_append, String.toList_append]
    exact ((ih hk).append hdot).append (clear_of_isIdentifier hn)
  | index _ _ ih ihkey =>
    rw [String.toList_append, String.toList_append, String.toList_append]
    exact (((ih hk).append hopen).append (ihkey nofun)).append hclose
  | path _ ih => exact ih nofun
  | numeral h => exact clear_of_isNumeral h
  | literal hmark h =>
    rw [String.toList_ofList]
    exact .of_literal hmark h
  | value _ _ | filter _ _ _ | filterWith _ _ _ _ _ => exact absurd rfl hk
  | condition _ ih => exact ih nofun
  | compared _ hsign _ ihleft ihright =>
    exact clear_spaced (ihleft nofun) (clear_of_mem_signs hsign) (ihright nofun)
  | joined _ hword _ ihleft ihright =>
    exact clear_spaced (ihleft nofun) (clear_of_mem_signs hword) (ihright nofun)

/-! ### Shapes -/

/-- What words look like that can be a phrase. -/
inductive Shape where
  /-- Operands with the given operators between them. -/
  | chain (operators : List Operator) (endsInPath : Bool)
  /-- An operand followed by filters. -/
  | filtered
deriving DecidableEq

/-- Operands with operators between them, the last of them a path or any operand. -/
inductive Chain : List Operator → Bool → String → Prop where
  | path {s : String} (h : Phrase.path.Covers s) : Chain [] true s
  | operand {s : String} (h : Phrase.operand.Covers s) : Chain [] false s
  | step {os : List Operator} {o : Operator} {p q : Bool} {s sign r : String} (h : Chain os p s)
    (hsign : sign ∈ o.signs) (hr : Chain [] q r) :
    Chain (os ++ [o]) q (s ++ " " ++ sign ++ " " ++ r)

namespace Chain

/-- Without an operator there is one operand. -/
theorem covers_of_nil {p : Bool} {s : String} (h : Chain [] p s) :
    (if p then Phrase.path else Phrase.operand).Covers s := by
  generalize hos : ([] : List Operator) = os at h
  cases h with
  | path h => exact h
  | operand h => exact h
  | step _ _ _ => exact absurd hos.symm (by simp)

/-- A chain without operators that ends in a path is a path. -/
theorem path_of_nil {s : String} (h : Chain [] true s) : Phrase.path.Covers s :=
  h.covers_of_nil

/-- A chain without operators is an operand. -/
theorem operand_of_nil {p : Bool} {s : String} (h : Chain [] p s) : Phrase.operand.Covers s := by
  cases p with
  | true => exact .path h.path_of_nil
  | false => exact h.covers_of_nil

/-- What makes a path longer applies to the last operand. -/
theorem extend {os : List Operator} {s t : String} (h : Chain os true s)
    (ht : ∀ {r}, Phrase.path.Covers r → Phrase.path.Covers (r ++ t)) :
    Chain os true (s ++ t) := by
  cases h with
  | path h => exact .path (ht h)
  | @step os o p _ s sign r h hsign hr =>
    -- The last operand is a path by itself, and nothing is written behind it.
    have hstep : Chain (os ++ [o]) true (s ++ " " ++ sign ++ " " ++ (r ++ t)) :=
      .step h hsign (.path (ht hr.path_of_nil))
    simpa only [String.append_assoc] using hstep

/-- The last operand is that of the second part. -/
theorem join {os os' : List Operator} {o : Operator} {p q : Bool} {s sign r : String}
    (h : Chain os p s) (hsign : sign ∈ o.signs) (hr : Chain os' q r) :
    Chain (os ++ o :: os') q (s ++ " " ++ sign ++ " " ++ r) := by
  induction hr with
  | path hr => exact .step h hsign (.path hr)
  | operand hr => exact .step h hsign (.operand hr)
  | @step os' o' _ q' r sign' r' _ hsign' hr' ih _ =>
    -- The last operator of the second part is the last one of the whole.
    have hstep : Chain (os ++ o :: os' ++ [o']) q'
        (s ++ " " ++ sign ++ " " ++ r ++ " " ++ sign' ++ " " ++ r') := .step ih hsign' hr'
    simpa only [String.append_assoc, List.append_assoc, List.cons_append] using hstep

end Chain

/-- A comparison is not compared again. -/
def Separated (os : List Operator) : Prop :=
  os.IsChain fun o o' => ¬(o = .comparison ∧ o' = .comparison)

instance (os : List Operator) : Decidable (Separated os) :=
  inferInstanceAs (Decidable (os.IsChain _))

/-- The words are a test, and where they do not end in a comparison, their last operand can be
compared to another one. -/
theorem Chain.test {os : List Operator} {p : Bool} {s : String} (h : Chain os p s)
    (hos : Separated os) :
    Phrase.test.Covers s ∧ (os.getLast? ≠ some .comparison →
      ∀ {sign r}, sign ∈ Operator.comparison.signs → Phrase.operand.Covers r →
        Phrase.test.Covers (s ++ " " ++ sign ++ " " ++ r)) := by
  induction h with
  | path h => exact ⟨.condition (.path h), fun _ _ _ hsign hr => .compared (.path h) hsign hr⟩
  | operand h => exact ⟨.condition h, fun _ _ _ hsign hr => .compared h hsign hr⟩
  | @step os o _ _ s sign r _ hsign hr ih _ =>
    have hr : Phrase.operand.Covers r := hr.operand_of_nil
    obtain ⟨hinit, -, hlast⟩ := List.isChain_append.1 hos
    obtain ⟨htest, hcompare⟩ := ih hinit
    cases o with
    | comparison =>
      -- What is compared does not end in a comparison itself, as no two of them are neighbours.
      refine ⟨hcompare ?_ hsign hr, fun hne => absurd List.getLast?_concat hne⟩
      intro hcomparison
      exact hlast _ hcomparison _ rfl ⟨rfl, rfl⟩
    | connective =>
      refine ⟨.joined htest hsign (.condition hr), fun _ sign' r' hsign' hr' => ?_⟩
      have hjoined := Phrase.Covers.joined htest hsign (.compared hr hsign' hr')
      simpa only [String.append_assoc] using hjoined

/-- Words of the shape are a phrase of the kind. -/
def Phrase.admits (k : Phrase) : Shape → Bool
  | .filtered => k == .output
  | .chain os p =>
    match k with
    | .path => os.isEmpty && p
    | .operand | .output => os.isEmpty
    | .test => decide (Separated os)

namespace Shape

/-- The text looks like the shape. -/
def Describes : Shape → String → Prop
  | .chain os p, s => Chain os p s
  | .filtered, s => Phrase.output.Covers s

/-- **What a shape describes is a phrase** of every kind that admits the shape. -/
theorem Describes.covers {shape : Shape} {k : Phrase} {s : String} (h : shape.Describes s)
    (hk : k.admits shape = true) : k.Covers s := by
  cases shape with
  | filtered =>
    rw [eq_of_beq (show (k == .output) = true from hk)]
    exact h
  | chain os p =>
    -- Which phrases a chain is depends on its operators alone, except for a path, which must end in
    -- one.
    replace h : Chain os p s := h
    cases k with
    | path =>
      obtain ⟨hos, hp⟩ := Bool.and_eq_true_iff.1 hk
      rw [List.isEmpty_iff.1 hos, hp] at h
      exact h.path_of_nil
    | operand =>
      rw [List.isEmpty_iff.1 hk] at h
      exact h.operand_of_nil
    | output =>
      rw [List.isEmpty_iff.1 hk] at h
      exact .value h.operand_of_nil
    | test => exact (h.test (of_decide_eq_true hk)).1

end Shape

/-- The text has the shape, if there is one. -/
def Fits (shape : Option Shape) (s : String) : Prop :=
  ∀ k ∈ shape, k.Describes s

/-- There is a shape, and the kind of phrase admits it. -/
def Phrase.admitsSome (k : Phrase) (shape : Option Shape) : Bool :=
  shape.any k.admits

/-- Words of a shape are a phrase of every kind that admits the shape. -/
theorem Fits.covers {k : Phrase} {shape : Option Shape} {s : String} (h : Fits shape s)
    (hk : k.admitsSome shape = true) : k.Covers s := by
  cases shape with
  | none => cases hk
  | some shape => exact (h shape rfl).covers hk

/-! ### The shapes of expressions -/

/-- A string literal of the source is one literal, or several appended to each other. -/
def literalShape (s : String) : Shape :=
  if (runsFrom [] s.toList).length = 1 then .chain [] false else .filtered

/-- A numeral is written as it is. -/
def numeralShape? (s : String) : Option Shape :=
  if isNumeral s then some (.chain [] false) else none

/-- What goes on with a member or an index, if that is fine. -/
def extended? (fine : Bool) : Option Shape → Option Shape
  | some (.chain os true) => if fine then some (.chain os true) else none
  | _ => none

/-- Two parts with an operator between them. -/
def joined? (o : Operator) : Option Shape → Option Shape → Option Shape
  | some (.chain os _), some (.chain os' p) => some (.chain (os ++ o :: os') p)
  | _, _ => none

/-- What parts look like that are appended to each other. -/
def appendedShape? : List (Option Shape) → Option Shape
  | [] => some (.chain [] false)
  | [shape] => shape
  | shapes => if shapes.all Phrase.output.admitsSome then some .filtered else none

/-- What a run of a template literal adds to the parts. -/
def runShapes (q : Quasi) : List (Option Shape) :=
  if q.cooked.isEmpty then [] else [some (literalShape q.cooked)]

mutual

/-- **What the words of an expression look like**, if they can be a phrase. -/
def shape? : Expr → Option Shape
  | .mk text form => formShape? text form

/-- What the words of a form with the given source text look like. -/
def formShape? (text : String) : Form → Option Shape
  | .paren inner => shape? inner
  | .identifier name => if isIdentifier name then some (.chain [] true) else none
  | .string s => some (literalShape s)
  | .number x => numeralShape? (Decimal.text x)
  | .boolean _ => some (.chain [] true)
  | .null => some (.chain [] true)
  | .member object property => extended? (isIdentifier (memberName property)) (shape? object)
  | .index object key => extended? (Phrase.operand.admitsSome (shape? key)) (shape? object)
  | .unary .negate (.mk _ (.number _)) => numeralShape? text
  | .binary _ left right => joined? .comparison (shape? left) (shape? right)
  | .logical _ left right => joined? .connective (shape? left) (shape? right)
  | .call (.mk _ (.member object _)) [] =>
    if Phrase.output.admitsSome (shape? object) then some .filtered else none
  | .template runs substitutions => appendedShape? (partShapes runs substitutions)
  | _ => none

/-- What the words of the parts of a template literal look like. -/
def partShapes (runs : List Quasi) : List Expr → List (Option Shape)
  | [] => runs.flatMap runShapes
  | e :: rest => (runs.take 1).flatMap runShapes ++ shape? e :: partShapes (runs.drop 1) rest

end

/-! ### Words have the shapes of their expressions -/

/-- Of a code without a shape nothing is said. -/
theorem fits_none {s : String} : Fits none s :=
  nofun

/-- Words fit a shape if it describes them. -/
theorem fits_some {shape : Shape} {s : String} : Fits (some shape) s ↔ shape.Describes s := by
  constructor
  · intro h
    exact h shape rfl
  · rintro h _ ⟨⟩
    exact h

/-- What the language takes for a numeral fits as an operand; the rest has no shape. -/
theorem fits_numeral (s : String) : Fits (numeralShape? s) s := by
  unfold numeralShape?
  split
  · next hs => exact fits_some.2 (.operand (.numeral hs))
  · exact fits_none

/-- What is put behind a path makes it longer, if it is fine. -/
theorem fits_extended {fine : Bool} {shape : Option Shape} {s t : String} (h : Fits shape s)
    (ht : fine = true → ∀ {r}, Phrase.path.Covers r → Phrase.path.Covers (r ++ t)) :
    Fits (extended? fine shape) (s ++ t) := by
  unfold extended?
  split
  · split
    · next hfine => exact fits_some.2 ((fits_some.1 h).extend (ht hfine))
    · exact fits_none
  · exact fits_none

/-- Operands that fit, with one of the operator's signs between them, fit the joined shape. -/
theorem fits_joined {o : Operator} {left right : Option Shape} {s sign r : String}
    (hleft : Fits left s) (hsign : sign ∈ o.signs) (hright : Fits right r) :
    Fits (joined? o left right) (s ++ " " ++ sign ++ " " ++ r) := by
  unfold joined?
  split
  · exact fits_some.2 ((fits_some.1 hleft).join hsign (fits_some.1 hright))
  · exact fits_none

/-- A run without quotes of both kinds is written as one literal. -/
theorem covers_runLiteral {run : List Char} (h : ¬('"' ∈ run ∧ '\'' ∈ run)) :
    Phrase.operand.Covers (runLiteral run) := by
  unfold runLiteral
  dsimp only
  by_cases hdouble : '"' ∈ run
  · rw [if_pos (List.contains_iff_mem.2 hdouble)]
    exact .literal (.inr rfl) fun hsingle => h ⟨hdouble, hsingle⟩
  · rw [if_neg (mt List.contains_iff_mem.1 hdouble)]
    exact .literal (.inl rfl) hdouble

/-- A quoted literal looks like an operand. -/
theorem describes_literal (s : String) : (literalShape s).Describes (literal s) := by
  have hruns : ∀ r ∈ runsFrom [] s.toList, Phrase.operand.Covers (runLiteral r) := by
    intro r hr
    exact covers_runLiteral (runsFrom_unmixed (by simp) r hr)
  unfold literalShape literal
  split
  · next hone =>
    obtain ⟨r, hr⟩ := List.length_eq_one_iff.1 hone
    rw [hr] at hruns ⊢
    exact .operand (hruns r List.mem_cons_self)
  · -- A string that mixes both quotes is several literals appended to each other, so it is an
    -- output.
    refine Phrase.Covers.intercalate (by simpa using runsFrom_ne_nil [] s.toList) ?_
    intro t ht
    obtain ⟨r, hr, rfl⟩ := List.mem_map.1 ht
    exact .value (hruns r hr)

/-- The quoted part of a run fits the shape of the run. -/
theorem fits_runParts (q : Quasi) : List.Forall₂ Fits (runShapes q) (runParts q) := by
  unfold runShapes runParts
  split
  · exact .nil
  · exact .cons (fits_some.2 (describes_literal q.cooked)) .nil

theorem fits_runs (runs : List Quasi) :
    List.Forall₂ Fits (runs.flatMap runShapes) (runs.flatMap runParts) := by
  induction runs with
  | nil => exact .nil
  | cons q runs ih => exact List.rel_append (fits_runParts q) ih

/-- Parts that are outputs, each of them. -/
theorem covers_of_forall₂ {shapes : List (Option Shape)} {parts : List String}
    (h : List.Forall₂ Fits shapes parts) (hshapes : shapes.all Phrase.output.admitsSome = true) :
    ∀ s ∈ parts, Phrase.output.Covers s := by
  induction h with
  | nil => nofun
  | cons hfits _ ih =>
    obtain ⟨hshape, hrest⟩ := Bool.and_eq_true_iff.1 (List.all_cons ▸ hshapes)
    exact List.forall_mem_cons.2 ⟨hfits.covers hshape, ih hrest⟩

/-- Parts that are appended to each other. -/
theorem fits_appended {shapes : List (Option Shape)} {parts : List String}
    (h : List.Forall₂ Fits shapes parts) : Fits (appendedShape? shapes) (appended parts) := by
  match h with
  | .nil =>
    -- Nothing to append leaves the empty literal.
    have hempty : Phrase.operand.Covers (String.ofList ('"' :: [] ++ ['"'])) :=
      .literal (.inl rfl) List.not_mem_nil
    exact fits_some.2 (.operand hempty)
  | .cons hfits .nil => exact hfits
  | .cons hfits (.cons hfits' hrest) =>
    rw [appendedShape?]
    · split
      · next hall =>
        have hparts := covers_of_forall₂ (.cons hfits (.cons hfits' hrest)) hall
        exact fits_some.2 (Phrase.Covers.intercalate (List.cons_ne_nil _ _) hparts)
      · exact fits_none
    · nofun
    · nofun

/-- The sign of a comparison is one of the comparing operator. -/
theorem comparison?_mem {op : BinaryOp} {sign : String} (h : comparison? op = some sign) :
    sign ∈ Operator.comparison.signs := by
  cases op <;> cases h <;> decide

/-- The word of a connective is one of the connecting operator. -/
theorem connective?_mem {op : LogicalOp} {word : String} (h : connective? op = some word) :
    word ∈ Operator.connective.signs := by
  cases op <;> cases h <;> decide

/-- The filters that methods are translated to are identifiers. -/
theorem isIdentifier_filter? {method filter : String} (h : filter? method = some filter) :
    isIdentifier filter = true := by
  unfold filter? at h
  split_ifs at h <;> cases h <;> decide

mutual

/-- **The words of an expression have its shape.** -/
theorem fits_shape? : ∀ {e : Expr} {words : String}, operand e = .ok words → Fits (shape? e) words
  | .mk text form, words, h => by
    rw [operand] at h
    rw [shape?]
    exact fits_formShape? h

/-- The words of a form fit its shape, case by case as the form is translated. -/
theorem fits_formShape? {text : String} : ∀ {form : Form} {words : String},
    formOperand text form = .ok words → Fits (formShape? text form) words
  | .paren inner, words, h => by
    rw [formOperand] at h
    rw [formShape?]
    exact fits_shape? h
  | .identifier name, words, h => by
    cases h
    rw [formShape?]
    split
    · next hname =>
      refine fits_some.2 (.path (.name ?_))
      split
      · decide
      · exact hname
    · exact fits_none
  | .string s, words, h => by
    cases h
    exact fits_some.2 (describes_literal s)
  | .number x, words, h => by
    cases h
    exact fits_numeral (Decimal.text x)
  | .boolean b, words, h => by
    cases h
    cases b with
    | true => exact fits_some.2 (.path (.name (n := "true") (by decide)))
    | false => exact fits_some.2 (.path (.name (n := "false") (by decide)))
  | .null, words, h => by
    cases h
    exact fits_some.2 (.path (.name (n := "nil") (by decide)))
  | .member object property, words, h => by
    rw [formOperand] at h
    obtain ⟨s, hs, heq⟩ := bind_eq_ok.1 h
    cases heq
    -- The object is extended by the name, whatever is in front of its last operand.
    rw [String.append_assoc]
    refine fits_extended (fits_shape? hs) fun hname r hr => ?_
    rw [← String.append_assoc]
    exact .member hr hname
  | .index object key, words, h => by
    rw [formOperand] at h
    obtain ⟨s, hs, h⟩ := bind_eq_ok.1 h
    obtain ⟨k, hk, heq⟩ := bind_eq_ok.1 h
    cases heq
    rw [String.append_assoc, String.append_assoc]
    refine fits_extended (fits_shape? hs) fun hkey r hr => ?_
    rw [← String.append_assoc, ← String.append_assoc]
    exact .index hr ((fits_shape? hk).covers hkey)
  | .unary op (.mk _ form), words, h => by
    -- Of the signs, only that of a negative numeral has words.
    cases op with
    | negate =>
      cases form with
      | number x =>
        cases h
        exact fits_numeral text
      | _ => exact fits_none
    | _ => exact fits_none
  | .binary op left right, words, h => by
    rw [formOperand] at h
    split at h
    · cases h
    · next sign hsign =>
      obtain ⟨l, hl, h⟩ := bind_eq_ok.1 h
      obtain ⟨r, hr, h⟩ := bind_eq_ok.1 h
      split at h
      · cases h
      · -- The check for filters is one of the text, and no part of the argument.
        cases h
        exact fits_joined (fits_shape? hl) (comparison?_mem hsign) (fits_shape? hr)
  | .logical op left right, words, h => by
    rw [formOperand] at h
    split at h
    · cases h
    · next word hword =>
      obtain ⟨l, hl, h⟩ := bind_eq_ok.1 h
      obtain ⟨r, hr, h⟩ := bind_eq_ok.1 h
      cases h
      exact fits_joined (fits_shape? hl) (connective?_mem hword) (fits_shape? hr)
  | .call (.mk calleeText callee) arguments, words, h => by
    -- A call with words is one of a method without arguments.
    cases callee with
    | member object method =>
      cases arguments with
      | cons _ _ => exact fits_none
      | nil =>
        rw [formOperand] at h
        split at h
        · next filter hfilter =>
          obtain ⟨s, hs, heq⟩ := bind_eq_ok.1 h
          cases heq
          rw [formShape?]
          split
          · next hobject =>
            have hs : Phrase.output.Covers s := (fits_shape? hs).covers hobject
            exact fits_some.2 (.filter hs (isIdentifier_filter? hfilter))
          · exact fits_none
        · cases h
    | _ => exact fits_none
  | .template runs substitutions, words, h => by
    rw [formOperand] at h
    obtain ⟨parts, hparts, heq⟩ := bind_eq_ok.1 h
    cases heq
    exact fits_appended (fits_partShapes hparts)
  | .conditional _ _ _, _, _ | .object _, _, _ | .assignment _ _, _, _ | .function _, _, _
  | .arrow _, _, _ | .element _ _ _, _, _ | .fragment _, _, _ | .other _ _, _, _
  | .chain _, _, _ => fits_none

/-- The words of a template's parts fit their shapes one by one. -/
theorem fits_partShapes {text : String} : ∀ {runs : List Quasi} {es : List Expr}
    {parts : List String}, templateParts text runs es = .ok parts →
      List.Forall₂ Fits (partShapes runs es) parts
  | runs, [], parts, h => by
    cases h
    exact fits_runs runs
  | runs, e :: rest, parts, h => by
    rw [templateParts] at h
    obtain ⟨value, hvalue, h⟩ := bind_eq_ok.1 h
    -- A compound value is refused, so the value is one part and has its shape.
    split at h
    · cases h
    · obtain ⟨others, hothers, heq⟩ := bind_eq_ok.1 h
      cases heq
      exact List.rel_append (fits_runs (runs.take 1))
        (.cons (fits_shape? hvalue) (fits_partShapes hothers))

end

end Stencil.Liquid
