import Stencil.Compile
import Stencil.Proofs.Engine.Block
import Stencil.Proofs.Text.Spelling

/-!
# Constant strings in templates

A string that is constant reaches a template as a text, as an attribute in a tag, or as a prop that
a call binds; an interpolation of a string literal is the text of its value long before an engine
sees it. `Engine.spelled` is the spelling of the string in each of these places, and
`Engine.print_of_carries` says that this and nothing else of it gets into the template: the output
around it is the same for all strings. Only the content of an element that cannot have any is left
out (`Engine.holds`).

Texts are written as they are, so what a string opens in a text is what it opens by itself. No
spelling opens a directive that the string does not open (`Engine.opens_spelled`), and the entities
in the tags of EJS keep those that it does open from being directives.
-/

namespace Stencil

/-- Where a constant string stands in a template. -/
inductive Place where
  | text | tag | prop
deriving DecidableEq, Repr

namespace Engine

/-- The marks that open a directive of an engine inside a line. -/
def openers : Engine → List (Char × Char)
  | .ejs => [('<', '%')]
  | .liquid => [('\x7b', '\x7b'), ('\x7b', '%')]
  | .pug => []

/-- A directive of the engine is opened somewhere in the text. -/
def opens (e : Engine) (text : String) : Bool :=
  e.openers.any fun (a, b) => Text.occursIn [a, b] text.toList

/-- The spelling of a constant string in its place. -/
def spelled (e : Engine) (place : Place) (s : String) : String :=
  match place, e with
  | .text, _ => s
  | .tag, .pug => Text.quoted s
  | .tag, _ => Text.encodeEntities s
  | .prop, .liquid => Liquid.literal s
  | .prop, _ => Text.quoted s

/-- The engine writes the content of the element. EJS and Liquid leave it out where the element has
no end tag, or was written without children. -/
def holds : Engine → Head → Bool
  | .pug, _ => true
  | _, head => !isVoid head.tag && !head.isEmpty

/-- What the engine writes of a constant string in a place that is shown or is left out. -/
def written (e : Engine) (place : Place) : Bool → String → String
  | true => e.spelled place
  | false => fun _ => ""

/-- EJS takes one sign for the beginning of code. -/
theorem opens_ejs (text : String) :
    Engine.ejs.opens text = Text.occursIn ['<', '%'] text.toList := by
  rw [opens, openers, List.any_cons, List.any_nil, Bool.or_false]

/-- Liquid takes two. -/
theorem opens_liquid (text : String) :
    Engine.liquid.opens text =
      (Text.occursIn ['\x7b', '\x7b'] text.toList || Text.occursIn ['\x7b', '%'] text.toList) := by
  rw [opens, openers, List.any_cons, List.any_cons, List.any_nil, Bool.or_false]

/-- A spelled string opens a directive only if the string itself does, and in a tag of EJS not even
then. -/
theorem opens_spelled (e : Engine) (place : Place) (s : String) :
    e.opens (e.spelled place s) = (e.opens s && !decide (e = .ejs ∧ place = .tag)) := by
  have brace : '\x7b' ∈ ['\x7b', '%'] := by simp
  have percent : '%' ∈ ['\x7b', '%'] := by simp
  cases place with
  | text => exact (Bool.and_true _).symm.trans (congrArg _ (by cases e <;> rfl))
  | tag =>
    cases e with
    | ejs =>
      -- Entities replace every bracket, so none of EJS's opening marks is left in a tag.
      have hopen := Text.occursIn_of_notMem (b := '%') (Text.notMem_encodeEntities s).2
      exact (opens_ejs _).trans (hopen.trans (Bool.and_false _).symm)
    | pug => rfl
    | liquid =>
      -- Entities touch neither a brace nor `%`, so the marks of Liquid are as frequent as in the
      -- string.
      rw [opens_liquid, opens_liquid, spelled, Text.occursIn_encodeEntities brace brace,
        Text.occursIn_encodeEntities brace percent]
      · exact (Bool.and_true _).symm
      · exact nofun
  | prop =>
    cases e with
    | ejs =>
      rw [opens_ejs, opens_ejs, spelled, Text.occursIn_quoted (by simp) (by simp)]
      · exact (Bool.and_true _).symm
      · exact nofun
    | pug => rfl
    | liquid =>
      rw [opens_liquid, opens_liquid, spelled, Liquid.occursIn_literal brace brace,
        Liquid.occursIn_literal brace percent]
      exact (Bool.and_true _).symm

end Engine

/-! ### One string in a piece -/

/-- The piece has a string in this place, and otherwise does not depend on it. The engine shows the
string unless it is in the content of an element whose content the engine leaves out. -/
inductive Carries (e : Engine) (place : Place) : Bool → (String → Piece) → Prop
  | text (hplace : place = .text) : Carries e place true .text
  | tag (hplace : place = .tag) (tag name : String) (before after : List Attribute)
      (required isEmpty isRecursive : Bool) (content : List Piece) :
      Carries e place true fun s =>
        .element ⟨tag, before ++ ⟨name, .literal s, required⟩ :: after, isEmpty, isRecursive⟩
          content
  | prop (hplace : place = .prop) (name : String) (before after : List Binding)
      (body : List Piece) :
      Carries e place true fun s => .scope (before ++ ⟨name, some (.literal s)⟩ :: after) body
  | element (head : Head) (before after : List Piece) {shown : Bool} {p : String → Piece}
      (h : Carries e place shown p) :
      Carries e place (shown && e.holds head) fun s => .element head (before ++ p s :: after)
  | consequent (test : Code) (before after : List Piece) (alternate : Option (List Piece))
      {shown : Bool} {p : String → Piece} (h : Carries e place shown p) :
      Carries e place shown fun s => .condition test (some (before ++ p s :: after)) alternate
  | alternate (test : Code) (consequent : Option (List Piece)) (before after : List Piece)
      {shown : Bool} {p : String → Piece} (h : Carries e place shown p) :
      Carries e place shown fun s => .condition test consequent (some (before ++ p s :: after))
  | iteration (loop : Loop) (before after : List Piece) {shown : Bool} {p : String → Piece}
      (h : Carries e place shown p) :
      Carries e place shown fun s => .iteration loop (before ++ p s :: after)
  | scope (bindings : List Binding) (before after : List Piece) {shown : Bool}
      {p : String → Piece} (h : Carries e place shown p) :
      Carries e place shown fun s => .scope bindings (before ++ p s :: after)

/-! ### One string in the emissions -/

namespace Emission

variable {δ : Type} {spell : δ → String} {f : String → String} {es : String → List (Emission δ)}

/-- The emissions show a string, spelled by `f`, and otherwise do not depend on it. Emissions with a
failure among them come to no text, so nothing is asked of theirs. -/
structure Shows (spell : δ → String) (f : String → String) (es : String → List (Emission δ)) :
    Prop where
  failure : ∀ s t, (es s).findSome? failure? = (es t).findSome? failure?
  text : ∃ before after, ∀ s, Succeeds (es s) →
    String.join ((es s).map (text spell)) = before ++ f s ++ after

/-- Nothing is shown of a string that is left out. -/
theorem shows_nothing (hf : ∀ s, f s = "") (es : List (Emission δ)) :
    Shows spell f fun _ => es where
  failure := fun _ _ => rfl
  text := by
    refine ⟨String.join (es.map (Emission.text spell)), "", fun s _ => ?_⟩
    rw [hf, String.append_empty, String.append_empty]

/-- A failure shows nothing, whatever the text is. -/
theorem shows_failure (e : Failure) : Shows spell f fun _ => [.failure e] where
  failure := fun _ _ => rfl
  text := ⟨"", "", fun _ hok => nomatch hok _ (List.mem_singleton_self _)⟩

/-- Emissions before a text do not change how it is shown. -/
theorem Shows.prepend (h : Shows spell f es) (pre : List (Emission δ)) :
    Shows spell f fun s => pre ++ es s where
  failure := by
    intro s t
    simp only [List.findSome?_append, h.failure s t]
  text := by
    obtain ⟨before, after, hshown⟩ := h.text
    refine ⟨String.join (pre.map (Emission.text spell)) ++ before, after, fun s hok => ?_⟩
    rw [List.map_append, String.join_append, hshown s (succeeds_append.1 hok).2]
    simp only [String.append_assoc]

theorem Shows.append (h : Shows spell f es) (post : List (Emission δ)) :
    Shows spell f fun s => es s ++ post where
  failure := by
    intro s t
    simp only [List.findSome?_append, h.failure s t]
  text := by
    obtain ⟨before, after, hshown⟩ := h.text
    refine ⟨before, after ++ String.join (post.map (Emission.text spell)), fun s hok => ?_⟩
    rw [List.map_append, String.join_append, hshown s (succeeds_append.1 hok).1]
    simp only [String.append_assoc]

/-- A line that the string does not change in front of them. -/
theorem Shows.cons_line (h : Shows spell f es) (level : Nat) {d : String → δ}
    (hd : ∀ s t, spell (d s) = spell (d t)) :
    Shows spell f fun s => .line level (d s) :: es s where
  failure := h.failure
  text := by
    obtain ⟨before, after, hshown⟩ := h.text
    refine ⟨indented level (spell (d "")) ++ before, after, fun s hok => ?_⟩
    rw [List.map_cons, String.join_cons, Emission.text, hd s "", hshown s (succeeds_cons.1 hok).2]
    simp only [String.append_assoc]

/-- A line shows a text if its spelling has the text in one place. -/
theorem shows_line (level : Nat) {d : String → δ}
    (hd : ∃ before after, ∀ s, spell (d s) = before ++ f s ++ after) :
    Shows spell f fun s => [.line level (d s)] where
  failure := fun _ _ => rfl
  text := by
    -- Indentation comes before the directive, and a line end behind it.
    obtain ⟨before, after, hd⟩ := hd
    refine ⟨String.ofList (List.replicate level indentUnit).flatten ++ before, after ++ "\n",
      fun s _ => ?_⟩
    simp only [List.map_singleton, String.join_cons, String.join_nil, String.append_empty,
      Emission.text, indented, hd s, String.append_assoc]

/-- What an engine with end tags writes for an element shows what is shown of its content. -/
theorem Shows.element {e : Engine} {place : Place} {shown : Bool} (he : e ≠ .pug) (head : Head)
    (h : Shows spell (e.written place shown) es) (void empty : List (Emission δ)) :
    Shows spell (e.written place (shown && e.holds head)) fun s =>
      if isVoid head.tag then void else if head.isEmpty then empty else es s := by
  -- Engines with end tags leave the content out in the two cases that the `if`s distinguish.
  have hholds : e.holds head = (!isVoid head.tag && !head.isEmpty) := by
    cases e with
    | pug => exact absurd rfl he
    | ejs | liquid => rfl
  rw [hholds]
  cases isVoid head.tag with
  | true =>
    rw [Bool.not_true, Bool.false_and, Bool.and_false]
    exact shows_nothing (fun _ => rfl) void
  | false =>
    cases head.isEmpty with
    | true =>
      rw [Bool.not_true, Bool.and_false, Bool.and_false]
      exact shows_nothing (fun _ => rfl) empty
    | false =>
      rw [Bool.not_false, Bool.and_true, Bool.and_true]
      exact h

/-- What succeeds has the text in one place of the result. -/
theorem Shows.outcome_of_succeeds (h : Shows spell f es) (hok : ∀ s, Succeeds (es s)) :
    ∃ before after, ∀ s, (outcome spell (es s)).result = .ok (before ++ f s ++ after) := by
  obtain ⟨before, after, hshown⟩ := h.text
  refine ⟨before, after, fun s => ?_⟩
  rw [Emission.outcome, List.findSome?_eq_none_iff.2 (hok s), ← hshown s (hok s)]

/-- All strings come to the same failure, or each of them to a text that shows it. -/
theorem Shows.outcome (h : Shows spell f es) :
    (∃ e, ∀ s, (outcome spell (es s)).result = .error e) ∨
      ∃ before after, ∀ s, (outcome spell (es s)).result = .ok (before ++ f s ++ after) := by
  -- Whether the emissions fail does not depend on the text.
  cases hfailure : (es "").findSome? failure? with
  | some e =>
    refine .inl ⟨e, fun s => ?_⟩
    rw [Emission.outcome, h.failure s "", hfailure]
  | none =>
    refine .inr (h.outcome_of_succeeds fun s => ?_)
    exact List.findSome?_eq_none_iff.1 ((h.failure s "").trans hfailure)

end Emission

open Emission (Shows shows_failure shows_line)

/-- What stands among joined texts stands between two fixed texts. -/
theorem intercalate_split (separator : String) (before after : List String) :
    ∃ opening ending, ∀ s,
      separator.intercalate (before ++ s :: after) = opening ++ s ++ ending := by
  -- By induction on the texts in front, each of which brings its separator.
  induction before with
  | nil =>
    cases after with
    | nil => exact ⟨"", "", fun s => by simp⟩
    | cons a after =>
      refine ⟨"", separator ++ separator.intercalate (a :: after), fun s => ?_⟩
      rw [List.nil_append, String.intercalate_cons_cons, String.empty_append, String.append_assoc]
  | cons b before ih =>
    obtain ⟨opening, ending, hjoin⟩ := ih
    refine ⟨b ++ separator ++ opening, ending, fun s => ?_⟩
    rw [List.cons_append, String.intercalate_cons_of_ne_nil (by simp), hjoin]
    simp only [String.append_assoc]

/-! ### The engines -/

namespace Ejs

variable {place : Place} {shown : Bool} {p : String → Piece}

/-- A piece among others shows the text as it does alone. -/
theorem shows_emitAll {f : String → String} {level : Nat}
    (h : Shows Directive.spell f fun s => emit level (p s)) (before after : List Piece) :
    Shows Directive.spell f fun s => emitAll level (before ++ p s :: after) := by
  simp only [emitAll_append, emitAll]
  exact (h.append (emitAll level after)).prepend (emitAll level before)

/-- A literal attribute stands in one place of its tag. -/
theorem tagText_literal (tag name : String) (before after : List Attribute) (required : Bool) :
    ∃ opening ending, ∀ s,
      tagText tag (before ++ ⟨name, .literal s, required⟩ :: after) =
        opening ++ Engine.ejs.spelled .tag s ++ ending := by
  refine ⟨tagText tag before ++ (" " ++ name ++ "=\""),
    "\"" ++ String.join (after.map attributeText), fun s => ?_⟩
  simp only [tagText, List.map_append, List.map_cons, String.join_append, String.join_cons,
    attributeText, Engine.spelled, String.append_assoc]

/-- A literal prop stands in one place of the arguments. -/
theorem scripts_literal (name : String) (before after : List Binding) :
    ∃ opening ending, ∀ s,
      ", ".intercalate ((before ++ ⟨name, some (.literal s)⟩ :: after).map (·.script)) =
        opening ++ Engine.ejs.spelled .prop s ++ ending := by
  obtain ⟨opening, ending, hjoin⟩ := intercalate_split ", "
    (before.map (·.script)) (after.map (·.script))
  refine ⟨opening, ending, fun s => ?_⟩
  rw [List.map_append, List.map_cons]
  exact hjoin _

/-- A piece that carries the text shows it as EJS writes it in that place. -/
theorem shows_emit (h : Carries .ejs place shown p) (level : Nat) :
    Shows Directive.spell (Engine.ejs.written place shown) fun s => emit level (p s) := by
  induction h generalizing level with
  | text hplace =>
    subst hplace
    exact shows_line level ⟨"", "", fun s => by
      simp [Directive.spell, Engine.written, Engine.spelled]⟩
  | tag hplace tag name before after required isEmpty isRecursive content =>
    subst hplace
    obtain ⟨opening, ending, htag⟩ := tagText_literal tag name before after required
    simp only [emit, Head.warnings]
    refine Shows.prepend ?_ _
    split
    · refine shows_line level ⟨"<" ++ opening, ending ++ " />", fun s => ?_⟩
      simp only [Directive.spell, htag, Engine.written, String.append_assoc]
    · split
      · refine shows_line level ⟨"<" ++ opening, ending ++ "></" ++ tag ++ ">", fun s => ?_⟩
        simp only [Directive.spell, htag, Engine.written, String.append_assoc]
      · have hstarts : Shows Directive.spell (Engine.ejs.spelled .tag) fun s =>
            [.line level (.startTag tag (before ++ ⟨name, .literal s, required⟩ :: after))] :=
          shows_line level ⟨"<" ++ opening, ending ++ ">", fun s => by
            simp only [Directive.spell, htag, String.append_assoc]⟩
        exact (hstarts.append (emitAll (level + 1) content)).append _
  | prop hplace name before after body =>
    subst hplace
    obtain ⟨opening, ending, hscripts⟩ := scripts_literal name before after
    have hnames : ∀ s, (before ++ (⟨name, some (.literal s)⟩ : Binding) :: after).map (·.name) =
        before.map (·.name) ++ name :: after.map (·.name) := by
      intro s
      rw [List.map_append, List.map_cons]
    -- The first line of the scope has the names of the props, the last one their values.
    have hends : Shows Directive.spell (Engine.ejs.spelled .prop) fun s =>
        [.line level (.endScope (before ++ ⟨name, some (.literal s)⟩ :: after))] :=
      shows_line level ⟨"<% \x7d)(" ++ opening, ending ++ "); %>", fun s => by
        simp only [Directive.spell, hscripts, String.append_assoc]⟩
    have hsome : ∀ s, (before ++ (⟨name, some (.literal s)⟩ : Binding) :: after).isEmpty = false :=
      by simp
    simp only [emit, hsome, Bool.false_eq_true, if_false]
    refine (hends.prepend (emitAll (level + 1) body)).cons_line level fun s t => ?_
    rw [Directive.spell, Directive.spell, hnames, hnames]
  | element head before after h ih =>
    have hcontent := shows_emitAll (ih (level + 1)) before after
    simp only [emit]
    exact (((hcontent.prepend [_]).append _).element (by decide) head _ _).prepend _
  | consequent test before after alternate h ih =>
    have hcontent := shows_emitAll (ih (level + 1)) before after
    simp only [emit, emitConsequent]
    exact ((hcontent.prepend [_]).append _).append _
  | alternate test consequent before after h ih =>
    have hcontent := shows_emitAll (ih (level + 1)) before after
    simp only [emit, emitAlternate]
    exact ((hcontent.prepend [_]).prepend _).append _
  | iteration loop before after h ih =>
    have hcontent := shows_emitAll (ih (level + 1)) before after
    simp only [emit]
    exact (hcontent.prepend [_]).append _
  | scope bindings before after h ih =>
    simp only [emit]
    -- A scope that binds nothing has no lines of its own.
    split
    · exact shows_emitAll (ih level) before after
    · have hcontent := shows_emitAll (ih (level + 1)) before after
      exact (hcontent.prepend [_]).append _

end Ejs

namespace Pug

variable {place : Place} {shown : Bool} {p : String → Piece}

/-- A piece among others shows the text as it does alone. -/
theorem shows_emitAll {f : String → String} {level : Nat}
    (h : Shows Directive.spell f fun s => emit level (p s)) (before after : List Piece) :
    Shows Directive.spell f fun s => emitAll level (before ++ p s :: after) := by
  simp only [emitAll_append, emitAll]
  exact (h.append (emitAll level after)).prepend (emitAll level before)

/-- A literal attribute stands in one place of its line. -/
theorem spell_tag_literal (tag name : String) (before after : List Attribute) (required : Bool) :
    ∃ opening ending, ∀ s,
      (Directive.tag tag (before ++ ⟨name, .literal s, required⟩ :: after)).spell =
        opening ++ Engine.pug.spelled .tag s ++ ending := by
  obtain ⟨opening, ending, hjoin⟩ := intercalate_split ", "
    (before.filterMap attribute?) (after.filterMap attribute?)
  refine ⟨tag ++ "(" ++ opening ++ name ++ "=", ending ++ ")", fun s => ?_⟩
  -- The attribute always has a value, so it is one of those that the tag shows.
  have hshown : (before ++ (⟨name, .literal s, required⟩ : Attribute) :: after).filterMap attribute?
      = before.filterMap attribute? ++ (name ++ "=" ++ Text.quoted s) ::
        after.filterMap attribute? := by
    rw [List.filterMap_append, List.filterMap_cons]
    rfl
  simp only [Directive.spell, hshown, hjoin, Engine.spelled, String.append_assoc]
  simp

/-- A piece that carries the text shows it as Pug writes it in that place. -/
theorem shows_emit (h : Carries .pug place shown p) (level : Nat) :
    Shows Directive.spell (Engine.pug.written place shown) fun s => emit level (p s) := by
  induction h generalizing level with
  | text hplace =>
    subst hplace
    exact shows_line level ⟨"| ", "", fun s => by
      simp [Directive.spell, Engine.written, Engine.spelled]⟩
  | tag hplace tag name before after required isEmpty isRecursive content =>
    subst hplace
    have htag := shows_line level (spell_tag_literal tag name before after required)
    simp only [emit, Head.warnings]
    exact (htag.append (emitAll (level + 1) content)).prepend _
  | prop hplace name before after body =>
    subst hplace
    have hassigns : Shows Directive.spell (Engine.pug.spelled .prop) fun s =>
        [.line level (assignment ⟨name, some (.literal s)⟩)] :=
      shows_line level ⟨"- var " ++ name ++ " = ", "", fun s => by
        simp [assignment, Directive.spell, Binding.script, Engine.spelled]⟩
    simp only [emit, List.map_append, List.map_cons]
    exact ((hassigns.append _).prepend _).append (emitAll level body)
  | element head before after h ih =>
    have hcontent := shows_emitAll (ih (level + 1)) before after
    -- Whether an element can have content is no question here.
    rw [Engine.holds, Bool.and_true]
    simp only [emit]
    exact (hcontent.prepend [_]).prepend _
  | consequent test before after alternate h ih =>
    have hcontent := shows_emitAll (ih (level + 1)) before after
    simp only [emit, emitConsequent]
    exact (hcontent.prepend [_]).append _
  | alternate test consequent before after h ih =>
    have hcontent := shows_emitAll (ih (level + 1)) before after
    -- Without a consequent the test is turned around.
    cases consequent with
    | none =>
      simp only [emit]
      exact hcontent.prepend [_]
    | some c =>
      simp only [emit, emitAlternate]
      exact (hcontent.prepend [_]).prepend _
  | iteration loop before after h ih =>
    have hcontent := shows_emitAll (ih (level + 1)) before after
    simp only [emit]
    exact hcontent.prepend _
  | scope bindings before after h ih =>
    simp only [emit]
    exact (shows_emitAll (ih level) before after).prepend _

end Pug

namespace Liquid

variable {place : Place} {shown : Bool} {p : String → Piece}

/-- A piece among others shows the text as it does alone. -/
theorem shows_emitAll {f : String → String} {level : Nat}
    (h : Shows Directive.spell f fun s => emit level (p s)) (before after : List Piece) :
    Shows Directive.spell f fun s => emitAll level (before ++ p s :: after) := by
  simp only [emitAll_append, emitAll]
  exact (h.append (emitAll level after)).prepend (emitAll level before)

/-- A literal attribute is translated as it is; whether another one is refused does not depend on
it. -/
theorem slots_literal (name : String) (before after : List Attribute) (required : Bool) :
    (∃ f, ∀ s, slots (before ++ ⟨name, .literal s, required⟩ :: after) = .error f) ∨
      ∃ first last, ∀ s, slots (before ++ ⟨name, .literal s, required⟩ :: after) =
        .ok (first ++ .literal name s :: last) := by
  have hall : ∀ s, slots (before ++ ⟨name, .literal s, required⟩ :: after) =
      (before.mapM slot?).bind fun first => (after.mapM slot?).bind fun last =>
        .ok (first.filterMap id ++ .literal name s :: last.filterMap id) := by
    intro s
    have hslot : slot? ⟨name, .literal s, required⟩ = .ok (some (.literal name s)) := rfl
    rw [slots, List.mapM_append, List.mapM_cons, hslot]
    cases before.mapM slot? with
    | error f => rfl
    | ok first =>
      cases after.mapM slot? with
      | error f => rfl
      | ok last => exact congrArg Except.ok List.filterMap_append
  -- The literal itself never fails, so a failure is that of an attribute around it.
  simp only [hall]
  cases before.mapM slot? with
  | error f => exact .inl ⟨f, fun s => rfl⟩
  | ok first =>
    cases after.mapM slot? with
    | error f => exact .inl ⟨f, fun s => rfl⟩
    | ok last => exact .inr ⟨first.filterMap id, last.filterMap id, fun s => rfl⟩

/-- A literal attribute stands in one place of its tag. -/
theorem tagText_literal (tag name : String) (first last : List Slot) :
    ∃ opening ending, ∀ s,
      tagText tag (first ++ .literal name s :: last) =
        opening ++ Engine.liquid.spelled .tag s ++ ending := by
  refine ⟨tagText tag first ++ (" " ++ name ++ "=\""),
    "\"" ++ String.join (last.map Slot.spell), fun s => ?_⟩
  simp only [tagText, List.map_append, List.map_cons, String.join_append, String.join_cons,
    Slot.spell, Engine.spelled, String.append_assoc]

/-- The lines around a branch do not change what it shows. -/
theorem shows_emitTest {f : String → String} {level : Nat} {flip : Bool} {test : Code}
    {es : String → List (Emission Directive)} (h : Shows Directive.spell f es) :
    Shows Directive.spell f fun s => emitTest level flip test (es s) := by
  simp only [emitTest]
  cases testOf test with
  | error e => exact shows_failure e
  | ok t => exact (h.prepend [_]).append _

/-- A piece that carries the text shows it as Liquid writes it in that place. -/
theorem shows_emit (h : Carries .liquid place shown p) (level : Nat) :
    Shows Directive.spell (Engine.liquid.written place shown) fun s => emit level (p s) := by
  induction h generalizing level with
  | text hplace =>
    subst hplace
    exact shows_line level ⟨"", "", fun s => by
      simp [Directive.spell, Engine.written, Engine.spelled]⟩
  | tag hplace tag name before after required isEmpty isRecursive content =>
    subst hplace
    simp only [emit, Head.warnings]
    refine Shows.prepend ?_ _
    obtain ⟨f, hslots⟩ | ⟨first, last, hslots⟩ := slots_literal name before after required
    · simp only [hslots]
      exact shows_failure f
    · obtain ⟨opening, ending, htag⟩ := tagText_literal tag name first last
      simp only [hslots]
      split
      · refine shows_line level ⟨"<" ++ opening, ending ++ " />", fun s => ?_⟩
        simp only [Directive.spell, htag, Engine.written, String.append_assoc]
      · split
        · refine shows_line level ⟨"<" ++ opening, ending ++ "></" ++ tag ++ ">", fun s => ?_⟩
          simp only [Directive.spell, htag, Engine.written, String.append_assoc]
        · have hstarts : Shows Directive.spell (Engine.liquid.spelled .tag) fun s =>
              [.line level (.startTag tag (first ++ .literal name s :: last))] :=
            shows_line level ⟨"<" ++ opening, ending ++ ">", fun s => by
              simp only [Directive.spell, htag, String.append_assoc]⟩
          exact (hstarts.append (emitAll (level + 1) content)).append _
  | prop hplace name before after body =>
    subst hplace
    have hassigns : Shows Directive.spell (Engine.liquid.spelled .prop) fun s =>
        [emitBinding level ⟨name, some (.literal s)⟩] :=
      shows_line level ⟨"\x7b% " ++ ("assign " ++ name ++ " = "), " %\x7d", fun s => by
        simp only [Directive.spell, tagOf, Engine.spelled, String.append_assoc]⟩
    simp only [emit, List.map_append, List.map_cons]
    exact ((hassigns.append _).prepend _).append (emitAll level body)
  | element head before after h ih =>
    have hcontent := shows_emitAll (ih (level + 1)) before after
    simp only [emit]
    refine Shows.prepend ?_ _
    cases slots head.attributes with
    | error f => exact shows_failure f
    | ok attributes => exact ((hcontent.prepend [_]).append _).element (by decide) head _ _
  | consequent test before after alternate h ih =>
    have hcontent := shows_emitAll (ih (level + 1)) before after
    simp only [emit, emitConsequent]
    exact shows_emitTest (hcontent.append _)
  | alternate test consequent before after h ih =>
    have hcontent := shows_emitAll (ih (level + 1)) before after
    -- Without a consequent the test is turned around.
    cases consequent with
    | none =>
      simp only [emit]
      exact shows_emitTest hcontent
    | some c =>
      simp only [emit, emitAlternate]
      exact shows_emitTest ((hcontent.prepend [_]).prepend _)
  | iteration loop before after h ih =>
    have hcontent := shows_emitAll (ih (level + 1)) before after
    simp only [emit]
    cases loop.iterable.liquid with
    | error f => exact shows_failure f
    | ok iterable => exact (hcontent.prepend _).append _
  | scope bindings before after h ih =>
    simp only [emit]
    exact (shows_emitAll (ih level) before after).prepend _

end Liquid

/-! ### Constant strings -/

/-- Whatever string a piece has, the template is the same around what is written of it; or Liquid
refuses the template, and then for all strings. -/
theorem Engine.print_of_carries (e : Engine) {place : Place} {shown : Bool} {p : String → Piece}
    (h : Carries e place shown p) (level : Nat) (first last : List Piece) :
    (e = .liquid ∧ ∃ f, ∀ s, (e.print level (first ++ p s :: last)).result = .error f) ∨
      ∃ before after, ∀ s, (e.print level (first ++ p s :: last)).result =
        .ok (before ++ e.written place shown s ++ after) := by
  cases e with
  | ejs =>
    have hshows := Ejs.shows_emitAll (Ejs.shows_emit h level) first last
    exact .inr (hshows.outcome_of_succeeds fun _ => Ejs.succeeds_emitAll level _)
  | pug =>
    have hshows := Pug.shows_emitAll (Pug.shows_emit h level) first last
    exact .inr (hshows.outcome_of_succeeds fun _ => Pug.succeeds_emitAll level _)
  -- Only Liquid can fail, and whether it does never depends on the string.
  | liquid =>
    have hshows := Liquid.shows_emitAll (Liquid.shows_emit h level) first last
    exact hshows.outcome.imp_left fun hrefused => ⟨rfl, hrefused⟩

/-- A constant string keeps its value in every place, and opens nothing that it does not open by
itself.

An interpolation of a string literal becomes the text of its value. Wherever a piece has a string,
the template holds its spelling, or nothing of it in an element that cannot have content, and is the
same around it for all strings; Liquid may refuse the template, then for all strings. The spelling
opens a directive of the engine if and only if the string does, except that it never does in a tag
of EJS. An attribute in a tag with entities has no quote and no bracket of its own and reads back as
the string, and so does a text without `&`. -/
theorem Engine.constant_string (e : Engine) (place : Place) (s : String) :
    (∀ code scope, constantText? code = some s →
      (Node.interpolation code).simplifyAmong scope = (Node.text s).simplifyAmong scope ∧
        (Node.interpolation code).simplifySlot scope = (Node.text s).simplifySlot scope) ∧
    (∀ shown p level first last, Carries e place shown p →
      (e = .liquid ∧ ∃ f, ∀ t, (e.print level (first ++ p t :: last)).result = .error f) ∨
        ∃ before after, ∀ t, (e.print level (first ++ p t :: last)).result =
          .ok (before ++ e.written place shown t ++ after)) ∧
    (e.opens (e.spelled place s) = true ↔ e.opens s = true ∧ ¬(e = .ejs ∧ place = .tag)) ∧
    (place = .tag → e ≠ .pug →
      '"' ∉ (e.spelled place s).toList ∧ '<' ∉ (e.spelled place s).toList ∧
        Text.decodeEntities (e.spelled place s).toList = s.toList) ∧
    (place = .text → '&' ∉ s.toList →
      Text.decodeEntities (e.spelled place s).toList = s.toList) := by
  refine ⟨fun code scope hcode => ?_, fun _ p level first last hp =>
    e.print_of_carries hp level first last, ?_, ?_, ?_⟩
  · -- The interpolation is simplified to the text of its value, which `hcode` gives.
    simp only [Node.simplifyAmong, Node.simplifySlot, hcode, and_self]
  · rw [e.opens_spelled, Bool.and_eq_true, Bool.not_eq_true', decide_eq_false_iff_not]
  · rintro rfl hpug
    have hentities : e.spelled .tag s = Text.encodeEntities s := by
      cases e with
      | pug => exact absurd rfl hpug
      | ejs | liquid => rfl
    obtain ⟨hquote, hbracket⟩ := Text.notMem_encodeEntities s
    rw [hentities]
    exact ⟨hquote, hbracket, Text.decodeEntities_encodeEntities s⟩
  · rintro rfl hs
    exact Text.decodeEntities_of_notMem hs

/-- A literal with a bracket in an interpolation is the text of its value, is shown in a paragraph,
and opens nothing. -/
theorem Engine.constant_string_bracket :
    constantText? ⟨"'a <b'"⟩ = some "a <b" ∧
      (Node.interpolation ⟨"'a <b'"⟩).simplifySlot Dict.empty =
        (Node.text "a <b").simplifySlot Dict.empty ∧
      (∃ before after, ∀ t,
        (Engine.ejs.print 0 [.element ⟨"p", [], false, false⟩ [.text t]]).result =
          .ok (before ++ t ++ after)) ∧
      Engine.ejs.opens (Engine.ejs.spelled .text "a <b") = false ∧
      Text.decodeEntities (Engine.ejs.spelled .text "a <b").toList = "a <b".toList := by
  have hcode : constantText? ⟨"'a <b'"⟩ = some "a <b" := by decide +kernel
  have hopens : Engine.ejs.opens "a <b" = false := by decide
  have hholds : Engine.ejs.holds ⟨"p", [], false, false⟩ = true := by decide
  have hcarries := Carries.element ⟨"p", [], false, false⟩ [] []
    (Carries.text rfl : Carries .ejs .text true .text)
  rw [hholds] at hcarries
  obtain ⟨hnode, hprint, hiff, -, htext⟩ := Engine.constant_string .ejs .text "a <b"
  refine ⟨hcode, (hnode _ Dict.empty hcode).2, ?_, ?_, htext rfl (by decide)⟩
  · exact (hprint _ _ 0 [] [] hcarries).resolve_left fun h => nomatch h.1
  · rw [← Bool.not_eq_true, hiff, hopens]
    -- An angle bracket alone opens nothing.
    exact fun h => Bool.false_ne_true h.1

/-- A string literal with the opener of a directive in it gets into the template as it is. -/
theorem constant_string_opens_directive :
    constantText? ⟨"'<%= x %>'"⟩ = some "<%= x %>" ∧ Engine.ejs.opens "<%= x %>" = true ∧
      (compile {} { engine := .ejs }
          "export default () => <p>\x7b'<%= x %>'\x7d</p>;").result.toOption
        = some "<p>\n  <%= x %>\n</p>\n" := by
  decide +kernel

end Stencil
