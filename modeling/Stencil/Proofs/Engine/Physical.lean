import Stencil.Proofs.Engine.Wording
import Stencil.Proofs.Layout.Recursion
import Stencil.Proofs.Lower.Respelled

/-!
# The physical lines of Pug

Pug reads a template line by line, and the indentation of a line says what it belongs to. So a
construct has to keep to one line, except for the attribute list of a tag, which may go over more.

The engine takes parts of a template as they are: its texts, its codes, and the names that loops and
calls bind. Whatever it adds itself stays on the line, so the lines are those of the constructs
exactly if no such part holds a line break.

* `Pug.glyphs` — the characters of a template, each with whether it stands in an attribute list, and
  `Pug.physicalLines`, its lines;
* `Piece.taken` — the parts that are taken as they are;
* `Pug.breaksBy_emitAll` — pieces are written in one line for each construct if these parts hold no
  line break, and only then;
* `Taken.Origin` — where the parts come from: a text with a line feed is the value of a string
  literal, and a code with a line break is copied from a source, or a folded template literal.

The main theorem is `compile_lines`.
-/

namespace Stencil

open Script (IsTagName)

namespace Pug

/-! ### Characters and lines -/

/-- The character ends a line. -/
def isBreak (c : Char) : Bool :=
  c == '\n' || c == '\r'

/-- The text holds no line break. -/
def Unbroken (s : String) : Prop :=
  ∀ c ∈ s.toList, isBreak c = false

/-- The Boolean check says that the text is unbroken. -/
theorem all_not_isBreak_iff {s : String} : (s.toList.all fun c => !isBreak c) ↔ Unbroken s := by
  simp only [List.all_eq_true, Bool.not_eq_true', Unbroken]

instance (s : String) : Decidable (Unbroken s) :=
  decidable_of_iff _ all_not_isBreak_iff

/-- A name or a tag is one line. -/
theorem unbroken_of_isTagName {s : String} (h : IsTagName s) : Unbroken s := by
  have hfeed : '\n' ∉ s.toList := h.notMem (by decide) (by decide)
  have hreturn : '\r' ∉ s.toList := h.notMem (by decide) (by decide)
  intro c hc
  have hne : c ≠ '\n' ∧ c ≠ '\r' := ⟨fun heq => hfeed (heq ▸ hc), fun heq => hreturn (heq ▸ hc)⟩
  simp [isBreak, hne.1, hne.2]

/-- A character of a template, with whether it stands in the attribute list of a tag. -/
structure Glyph where
  char : Char
  isListed : Bool
deriving DecidableEq

/-- The character ends a line of the template. -/
def Glyph.endsLine (g : Glyph) : Bool :=
  !g.isListed && isBreak g.char

/-- The characters of a text outside of attribute lists. -/
def outside (s : String) : List Glyph :=
  s.toList.map (⟨·, false⟩)

/-- The characters of a text in an attribute list. -/
def listed (s : String) : List Glyph :=
  s.toList.map (⟨·, true⟩)

/-- The characters of a construct. -/
def Directive.glyphs : Directive → List Glyph
  | .tag name attributes =>
    let shown := attributes.filterMap attribute?
    if shown.isEmpty then outside name
    else outside (name ++ "(") ++ listed (", ".intercalate shown) ++ outside ")"
  | d => outside d.spell

/-- What ought to be one line: the indentation of a construct, and the construct. -/
def lineGlyphs (l : Nat × Directive) : List Glyph :=
  outside (String.ofList (List.replicate l.1 indentUnit).flatten) ++ l.2.glyphs

/-- The characters of a template with these constructs. -/
def glyphs (ls : List (Nat × Directive)) : List Glyph :=
  ls.flatMap fun l => lineGlyphs l ++ [⟨'\n', false⟩]

/-- **The lines of a template**, cut at the line breaks outside of attribute lists. Behind the last
of them is one more, which is empty. -/
def physicalLines (gs : List Glyph) : List (List Glyph) :=
  gs.splitOnP Glyph.endsLine

/-- Characters outside of a listing are those of the text. -/
theorem map_char_outside (s : String) : (outside s).map Glyph.char = s.toList := by
  rw [outside, List.map_map]
  exact List.map_id _

theorem map_char_listed (s : String) : (listed s).map Glyph.char = s.toList := by
  rw [listed, List.map_map]
  exact List.map_id _

/-- The glyphs of a directive spell it. -/
theorem Directive.map_char_glyphs (d : Directive) : d.glyphs.map Glyph.char = d.spell.toList := by
  cases d with
  | tag name attributes =>
    unfold glyphs spell
    dsimp only
    split
    · exact map_char_outside name
    · simp only [List.map_append, map_char_outside, map_char_listed, String.toList_append]
  | _ => exact map_char_outside _

/-- The characters are those of the template. -/
theorem map_char_glyphs (ls : List (Nat × Directive)) :
    (glyphs ls).map Glyph.char = (Emission.spelled Directive.spell ls).toList := by
  induction ls with
  | nil => rfl
  | cons l ls ih =>
    rw [glyphs, List.flatMap_cons, List.map_append, ← glyphs, ih, Emission.spelled,
      Emission.spelled, List.map_cons, String.join_cons, String.toList_append]
    congr 1
    simp only [lineGlyphs, indented, List.map_append, map_char_outside, Directive.map_char_glyphs,
      String.toList_append]
    rfl

/-- No construct shares a line with another one. -/
theorem physicalLines_glyphs (ls : List (Nat × Directive)) :
    physicalLines (glyphs ls) = ls.flatMap (fun l => physicalLines (lineGlyphs l)) ++ [[]] := by
  induction ls with
  | nil => rfl
  | cons l ls ih =>
    -- A construct has a line end of its own behind it, where its last line is cut off.
    have hend : Glyph.endsLine ⟨'\n', false⟩ = true := rfl
    rw [physicalLines] at ih ⊢
    rw [glyphs, List.flatMap_cons, ← glyphs, List.append_assoc, List.singleton_append,
      List.splitOnP_append_cons _ _ hend, ih, List.flatMap_cons, List.append_assoc]
    rfl

/-- No line holds a line end. -/
theorem endsLine_of_mem_physicalLines {gs : List Glyph} :
    ∀ line ∈ physicalLines gs, ∀ g ∈ line, g.endsLine = false := by
  unfold physicalLines
  induction gs with
  | nil => exact List.forall_mem_singleton.2 nofun
  | cons g gs ih =>
    rw [List.splitOnP_cons_eq_if_modifyHead]
    split
    · exact List.forall_mem_cons.2 ⟨nofun, ih⟩
    · next hg =>
      -- The character goes in front of the first line of the rest.
      obtain ⟨first, rest, hrest⟩ := List.exists_cons_of_ne_nil (List.splitOnP_ne_nil _ gs)
      rw [hrest, List.forall_mem_cons] at ih
      rw [hrest, List.modifyHead_cons, List.forall_mem_cons, List.forall_mem_cons]
      exact ⟨⟨Bool.eq_false_iff.2 hg, ih.1⟩, ih.2⟩

/-- Constructs are one line each exactly if there is no line end in them. -/
theorem physicalLines_glyphs_eq_iff (ls : List (Nat × Directive)) :
    physicalLines (glyphs ls) = ls.map lineGlyphs ++ [[]] ↔
      ∀ l ∈ ls, ∀ g ∈ lineGlyphs l, g.endsLine = false := by
  constructor
  · intro h l hl
    have hline : lineGlyphs l ∈ physicalLines (glyphs ls) := by
      rw [h]
      exact List.mem_append_left _ (List.mem_map_of_mem hl)
    exact endsLine_of_mem_physicalLines _ hline
  · intro h
    -- Cutting a construct without line ends gives the construct alone.
    rw [physicalLines_glyphs]
    congr 1
    rw [List.map_eq_flatMap]
    exact List.flatMap_congr fun l hl => List.splitOnP_eq_singleton (h l hl)

/-! ### Constructs -/

/-- What a construct is spelled with, its attribute list aside. -/
def Directive.parts : Directive → List String
  | .tag name _ => [name]
  | .text s => [s]
  | .value code | .startIf code | .startUnless code => [code.text]
  | .otherwise => []
  | .each item index iterable => item :: (index.toList ++ [iterable])
  | .assign name v => [name, v]

/-- The construct keeps to one line: nothing that it is spelled with holds a line break. -/
def Directive.IsOneLine (d : Directive) : Prop :=
  ∀ part ∈ d.parts, Unbroken part

/-- Texts side by side are unbroken if both are. -/
theorem unbroken_append {s t : String} : Unbroken (s ++ t) ↔ Unbroken s ∧ Unbroken t := by
  unfold Unbroken
  rw [String.toList_append, List.forall_mem_append]

/-- Outside of a listing every line break of the text ends a line. -/
theorem endsLine_outside {s : String} :
    (∀ g ∈ outside s, g.endsLine = false) ↔ Unbroken s :=
  List.forall_mem_map

/-- Inside of one none does. -/
theorem endsLine_listed (s : String) : ∀ g ∈ listed s, g.endsLine = false :=
  List.forall_mem_map.2 fun _ _ => rfl

/-- Indentation is unbroken. -/
theorem unbroken_indentation (level : Nat) :
    Unbroken (String.ofList (List.replicate level indentUnit).flatten) := by
  intro c hc
  rw [String.toList_ofList] at hc
  obtain ⟨unit, hunit, hc⟩ := List.mem_flatten.1 hc
  rw [List.eq_of_mem_replicate hunit] at hc
  cases hc with
  | head => rfl
  | tail _ hc => rw [List.mem_singleton.1 hc]; rfl

/-- The words that go with the parts of a construct hold no line break. -/
theorem Directive.endsLine_glyphs_iff (d : Directive) :
    (∀ g ∈ d.glyphs, g.endsLine = false) ↔ d.IsOneLine := by
  -- A word of the engine adds no break, so only the part next to it counts.
  have hword {word s : String} (h : Unbroken word) : Unbroken (word ++ s) ↔ Unbroken s :=
    unbroken_append.trans (and_iff_right h)
  cases d with
  | tag name attributes =>
    rw [IsOneLine, parts, List.forall_mem_singleton]
    unfold glyphs
    dsimp only
    split
    · exact endsLine_outside
    · -- The parentheses stand outside of the attribute list, and whatever is inside ends no line.
      rw [List.forall_mem_append, List.forall_mem_append, endsLine_outside, endsLine_outside,
        unbroken_append]
      have hopen : Unbroken "(" := by decide
      have hclose : Unbroken ")" := by decide
      exact ⟨fun h => h.1.1.1, fun h => ⟨⟨⟨h, hopen⟩, endsLine_listed _⟩, hclose⟩⟩
  | text | value | startIf | startUnless =>
    rw [IsOneLine, parts, List.forall_mem_singleton]
    exact endsLine_outside.trans (hword (by decide))
  | otherwise =>
    exact iff_of_true (endsLine_outside.2 (by decide)) (List.forall_mem_nil _)
  | each item index iterable =>
    rw [IsOneLine, parts, List.forall_mem_cons, List.forall_mem_append, List.forall_mem_singleton]
    refine endsLine_outside.trans ?_
    have hin : Unbroken " in " := by decide
    have hcomma : Unbroken ", " := by decide
    cases index with
    | none =>
      rw [spell, unbroken_append, unbroken_append, hword (by decide)]
      exact ⟨fun h => ⟨h.1.1, List.forall_mem_nil _, h.2⟩, fun h => ⟨⟨h.1, hin⟩, h.2.2⟩⟩
    -- With an index there are two more words, and one more part.
    | some index =>
      rw [spell, unbroken_append, unbroken_append, unbroken_append, unbroken_append,
        hword (by decide), Option.toList_some, List.forall_mem_singleton]
      exact ⟨fun h => ⟨h.1.1.1.1, h.1.1.2, h.2⟩,
        fun h => ⟨⟨⟨⟨h.1, hcomma⟩, h.2.1⟩, hin⟩, h.2.2⟩⟩
  | assign name v =>
    rw [IsOneLine, parts, List.forall_mem_cons, List.forall_mem_singleton]
    refine endsLine_outside.trans ?_
    have hequals : Unbroken " = " := by decide
    rw [spell, unbroken_append, unbroken_append, hword (by decide)]
    exact ⟨fun h => ⟨h.1.1, h.2⟩, fun h => ⟨⟨h.1, hequals⟩, h.2⟩⟩

/-- A directive is one line if no glyph of its line ends one: the indentation never does. -/
theorem endsLine_lineGlyphs_iff (l : Nat × Directive) :
    (∀ g ∈ lineGlyphs l, g.endsLine = false) ↔ l.2.IsOneLine := by
  rw [lineGlyphs, List.forall_mem_append, Directive.endsLine_glyphs_iff]
  exact and_iff_right (endsLine_outside.2 (unbroken_indentation l.1))

end Pug

/-! ### Pieces -/

/-- A part of a template that Pug takes as it is, outside of attribute lists. -/
inductive Taken where
  | text (value : String)
  | code (code : Code)
  /-- What a loop binds, or a prop. -/
  | name (name : String)
deriving DecidableEq

/-- How the part is spelled. -/
def Taken.spelling : Taken → String
  | .text value => value
  | .code c => c.text
  | .name n => n

/-- The part holds no line break. -/
def Taken.Unbroken (part : Taken) : Prop :=
  Pug.Unbroken part.spelling

instance (part : Taken) : Decidable part.Unbroken :=
  inferInstanceAs (Decidable (Pug.Unbroken part.spelling))

/-- What is taken of a prop. A prop that is bound to no code has a value of the engine's making. -/
def Binding.taken (b : Binding) : List Taken :=
  .name b.name :: b.code?.toList.map .code

/-- What is taken of a loop. -/
def Loop.taken (l : Loop) : List Taken :=
  .code l.iterable :: l.bindings.map .name

mutual

/-- What is taken of a piece. -/
def Piece.taken : Piece → List Taken
  | .element _ content => takenAll content
  | .text value => [.text value]
  | .interpolation code => [.code code]
  | .condition test consequent alternate =>
    .code test :: takenOfBranch consequent ++ takenOfBranch alternate
  | .iteration loop body => loop.taken ++ takenAll body
  | .scope bindings body => bindings.flatMap Binding.taken ++ takenAll body

def takenAll : List Piece → List Taken
  | [] => []
  | p :: rest => p.taken ++ takenAll rest

def takenOfBranch : Option (List Piece) → List Taken
  | none => []
  | some ps => takenAll ps

end

namespace Pug

open Emission

/-- A quoted literal is one line, whatever it quotes. -/
theorem unbroken_quoted (s : String) : Unbroken (Text.quoted s) := by
  have hdigit {n : Nat} (h : n < 16) : isBreak (Text.hexDigit n) = false := by
    revert n
    decide
  have hchar (c : Char) : ∀ d ∈ Text.quotedChar c, isBreak d = false := by
    fun_cases Text.quotedChar c with
    -- The hexadecimal escape of a control character; the cases before it are the short escapes.
    | case8 =>
      have high : isBreak (Text.hexDigit (c.toNat / 16)) = false := hdigit (by omega)
      have low : isBreak (Text.hexDigit (c.toNat % 16)) = false := hdigit (by omega)
      simp only [List.forall_mem_cons]
      exact ⟨rfl, rfl, rfl, rfl, high, low, nofun⟩
    | case9 _ _ hfeed hreturn => simp [isBreak, hfeed, hreturn]
    | _ => simp [isBreak]
  unfold Text.quoted Unbroken
  rw [String.toList_ofList, List.cons_append, List.forall_mem_cons, List.forall_mem_append,
    List.forall_mem_singleton, List.forall_mem_flatMap]
  exact ⟨rfl, fun c _ => hchar c, rfl⟩

/-- The value of a prop breaks a line only if it is code that does. -/
theorem unbroken_script_iff (b : Binding) :
    Unbroken b.script ↔ ∀ code ∈ b.code?, Unbroken code.text := by
  obtain ⟨name, value⟩ := b
  -- Only embedded code can hold a line break; quoting a literal escapes it.
  match value with
  | none => exact iff_of_true (by decide : Unbroken "undefined") nofun
  | some (.flag true) => exact iff_of_true (by decide : Unbroken "true") nofun
  | some (.flag false) => exact iff_of_true (by decide : Unbroken "false") nofun
  | some (.literal s) => exact iff_of_true (unbroken_quoted s) nofun
  | some (.dynamic code) =>
    exact ⟨fun h _ hcode => Option.some.inj hcode ▸ h, fun h => h code rfl⟩

/-- The emissions are one line each if none of the parts holds a line break, and only then. -/
def BreaksBy (es : List (Emission Directive)) (parts : List Taken) : Prop :=
  (∀ l ∈ lines es, l.2.IsOneLine) ↔ ∀ part ∈ parts, part.Unbroken

namespace BreaksBy

/-- No emissions, no parts. -/
theorem nil : BreaksBy [] [] :=
  iff_of_true nofun nofun

/-- Emissions side by side break by the parts of both. -/
theorem append {es fs : List (Emission Directive)} {ps qs : List Taken} (hes : BreaksBy es ps)
    (hfs : BreaksBy fs qs) : BreaksBy (es ++ fs) (ps ++ qs) := by
  unfold BreaksBy
  rw [lines_append, List.forall_mem_append, List.forall_mem_append]
  exact and_congr hes hfs

/-- A line that breaks by its own parts. -/
theorem single {level : Nat} {d : Directive} {parts : List Taken}
    (h : d.IsOneLine ↔ ∀ part ∈ parts, part.Unbroken) : BreaksBy [.line level d] parts := by
  unfold BreaksBy
  rw [lines_line, List.forall_mem_cons, h]
  exact and_iff_left nofun

/-- A line whose parts were all taken from the pieces. -/
theorem line {level : Nat} {d : Directive} {parts : List Taken}
    (h : d.parts = parts.map Taken.spelling) : BreaksBy [.line level d] parts := by
  refine single ?_
  rw [Directive.IsOneLine, h, List.forall_mem_map]
  rfl

end BreaksBy

/-- Warnings are no lines. -/
theorem breaksBy_warnings (head : Head) : BreaksBy head.warnings [] := by
  unfold BreaksBy
  rw [lines_warnings]
  exact iff_of_true nofun nofun

/-- Assignments break by the code that they assign. -/
theorem breaksBy_bindings (level : Nat) (bindings : List Binding) :
    BreaksBy (bindings.map fun b => .line level (assignment b))
      (bindings.flatMap Binding.taken) := by
  induction bindings with
  | nil => exact .nil
  | cons b bs ih =>
    -- An assignment holds the name and the value of its binding, and nothing else that could break.
    have hfirst : (assignment b).IsOneLine ↔ ∀ part ∈ b.taken, part.Unbroken := by
      unfold assignment Directive.IsOneLine Directive.parts Binding.taken
      rw [List.forall_mem_cons, List.forall_mem_singleton, unbroken_script_iff,
        List.forall_mem_cons, List.forall_mem_map]
      simp only [Option.mem_toList]
      rfl
    exact (BreaksBy.single hfirst).append ih

/-- The head of a loop breaks by what the loop holds. -/
theorem breaksBy_startLoop (level : Nat) (loop : Loop) :
    BreaksBy ((startLoop loop).map (.line level)) loop.taken := by
  have htaken : (∀ part ∈ loop.taken, part.Unbroken) ↔
      Unbroken loop.iterable.text ∧ Unbroken loop.item ∧
        (∀ i ∈ loop.index.toList, Unbroken i) ∧ ∀ a ∈ loop.array.toList, Unbroken a := by
    rw [Loop.taken, List.forall_mem_cons, List.forall_mem_map, Loop.bindings, List.forall_mem_cons,
      List.forall_mem_append]
    rfl
  unfold BreaksBy
  rw [htaken, lines_map_line, List.forall_mem_map, startLoop]
  cases loop.array with
  | none =>
    rw [List.forall_mem_singleton, Directive.IsOneLine, Directive.parts, List.forall_mem_cons,
      List.forall_mem_append, List.forall_mem_singleton]
    exact ⟨fun h => ⟨h.2.2, h.1, h.2.1, List.forall_mem_nil _⟩,
      fun h => ⟨h.2.1, h.2.2.1, h.1⟩⟩
  | some array =>
    rw [List.forall_mem_cons, List.forall_mem_singleton, Directive.IsOneLine, Directive.IsOneLine,
      Directive.parts, Directive.parts, List.forall_mem_cons, List.forall_mem_singleton,
      List.forall_mem_cons, List.forall_mem_append, List.forall_mem_singleton, Option.toList_some,
      List.forall_mem_singleton]
    -- The loop runs over the name of the array, which is taken twice.
    exact ⟨fun h => ⟨h.1.2, h.2.1, h.2.2.1, h.1.1⟩,
      fun h => ⟨⟨h.2.2.2, h.1⟩, h.2.1, h.2.2.1, h.2.2.2⟩⟩

/-! One theorem for each function of the engine, by recursion on the pieces. -/

mutual

/-- The lines of a piece break by the parts taken from it, if its tags are unbroken. -/
theorem breaksBy_emit (level : Nat) : ∀ p : Piece, (∀ head ∈ p.heads, Unbroken head.tag) →
    BreaksBy (emit level p) p.taken
  | .element head content, h => by
    obtain ⟨htag, hcontent⟩ := List.forall_mem_cons.1 h
    -- The line of an element depends on its tag only, which `h` keeps unbroken; its attributes are
    -- listed.
    have hhead : BreaksBy [.line level (.tag head.tag head.attributes)] [] :=
      .single (iff_of_true (List.forall_mem_singleton.2 htag) nofun)
    have hcontent := breaksBy_emitAll (level + 1) content hcontent
    rw [emit]
    exact (breaksBy_warnings head).append (hhead.append hcontent)
  | .text value, _ => .line rfl
  | .interpolation code, _ => .line rfl
  | .condition test none (some alternate), h => by
    have htest : BreaksBy [.line level (.startUnless test)] [.code test] := .line rfl
    exact htest.append (breaksBy_emitAll (level + 1) alternate h)
  | .condition test none none, _ => .line rfl
  | .condition test (some consequent) alternate, h => by
    obtain ⟨hyes, hno⟩ := List.forall_mem_append.1 h
    have htest : BreaksBy [.line level (.startIf test)] [.code test] := .line rfl
    have hconsequent := breaksBy_emitAll (level + 1) consequent hyes
    rw [emit]
    · exact (htest.append hconsequent).append (breaksBy_emitAlternate level alternate hno)
    · nofun
  | .iteration loop body, h => by
    rw [emit]
    exact (breaksBy_startLoop level loop).append (breaksBy_emitAll (level + 1) body h)
  | .scope bindings body, h => by
    rw [emit]
    exact (breaksBy_bindings level bindings).append (breaksBy_emitAll level body h)

theorem breaksBy_emitAll (level : Nat) : ∀ ps : List Piece,
    (∀ head ∈ headsAll ps, Unbroken head.tag) → BreaksBy (emitAll level ps) (takenAll ps)
  | [], _ => .nil
  | p :: ps, h => by
    obtain ⟨hp, hps⟩ := List.forall_mem_append.1 h
    exact (breaksBy_emit level p hp).append (breaksBy_emitAll level ps hps)

/-- So do those of a branch that may be absent. -/
theorem breaksBy_emitAlternate (level : Nat) : ∀ b : Option (List Piece),
    (∀ head ∈ headsOfBranch b, Unbroken head.tag) →
      BreaksBy (emitAlternate level b) (takenOfBranch b)
  | none, _ => .nil
  | some ps, h => by
    have hline : BreaksBy [.line level .otherwise] [] := .line rfl
    exact hline.append (breaksBy_emitAll (level + 1) ps h)

end

end Pug

/-! ### Where the parts come from -/

mutual

/-- What is taken of a piece are its texts, some of its codes, and names. -/
theorem taken_of_piece {P : Taken → Prop} (hname : ∀ name, P (.name name)) : ∀ p : Piece,
    (∀ code ∈ p.codes, P (.code code)) →
      (∀ value, .text value ∈ p.leaves → P (.text value)) → ∀ part ∈ p.taken, P part
  -- The codes of the head are in the attribute list, so they are none of what is taken.
  | .element _ content, hcodes, htexts =>
    taken_of_pieces hname content (List.forall_mem_append.1 hcodes).2 htexts
  | .text value, _, htexts => List.forall_mem_singleton.2 (htexts value List.mem_cons_self)
  | .interpolation code, hcodes, _ =>
    List.forall_mem_singleton.2 (hcodes code List.mem_cons_self)
  | .condition test consequent alternate, hcodes, htexts => by
    rw [Piece.codes, List.forall_mem_append, List.forall_mem_cons] at hcodes
    obtain ⟨⟨htest, hyes⟩, hno⟩ := hcodes
    rw [Piece.taken, List.forall_mem_append, List.forall_mem_cons]
    exact ⟨⟨htest, taken_of_branch hname consequent hyes
        fun value h => htexts value (List.mem_append_left _ h)⟩,
      taken_of_branch hname alternate hno fun value h => htexts value (List.mem_append_right _ h)⟩
  | .iteration loop body, hcodes, htexts => by
    -- A loop takes the code that it runs over and the names that it binds.
    obtain ⟨hiterable, hbody⟩ := List.forall_mem_cons.1 hcodes
    rw [Piece.taken, List.forall_mem_append]
    refine ⟨List.forall_mem_cons.2 ⟨hiterable, ?_⟩, taken_of_pieces hname body hbody htexts⟩
    exact List.forall_mem_map.2 fun name _ => hname name
  | .scope bindings body, hcodes, htexts => by
    obtain ⟨hbindings, hbody⟩ := List.forall_mem_append.1 hcodes
    rw [Piece.taken, List.forall_mem_append, List.forall_mem_flatMap]
    refine ⟨fun b hb => List.forall_mem_cons.2 ⟨hname b.name, ?_⟩,
      taken_of_pieces hname body hbody htexts⟩
    refine List.forall_mem_map.2 fun code hcode => hbindings code ?_
    exact List.mem_filterMap.2 ⟨b, hb, Option.mem_toList.1 hcode⟩

/-- A property of names, of the codes and of the texts in pieces is one of all parts taken from
them. -/
theorem taken_of_pieces {P : Taken → Prop} (hname : ∀ name, P (.name name)) :
    ∀ ps : List Piece, (∀ code ∈ codesAll ps, P (.code code)) →
      (∀ value, .text value ∈ leavesAll ps → P (.text value)) → ∀ part ∈ takenAll ps, P part
  | [], _, _ => nofun
  | p :: ps, hcodes, htexts => by
    obtain ⟨hp, hps⟩ := List.forall_mem_append.1 hcodes
    rw [takenAll, List.forall_mem_append]
    exact ⟨taken_of_piece hname p hp fun value h => htexts value (List.mem_append_left _ h),
      taken_of_pieces hname ps hps fun value h => htexts value (List.mem_append_right _ h)⟩

theorem taken_of_branch {P : Taken → Prop} (hname : ∀ name, P (.name name)) :
    ∀ b : Option (List Piece), (∀ code ∈ codesOfBranch b, P (.code code)) →
      (∀ value, .text value ∈ leavesOfPieces b → P (.text value)) → ∀ part ∈ takenOfBranch b, P part
  | none, _, _ => nofun
  | some ps, hcodes, htexts => taken_of_pieces hname ps hcodes htexts

end

/-- The name that a guard is reduced to is one line. -/
theorem Code.Becomes.eq_or_isFolded_of_broken {code code' : Code} (h : code.Becomes code')
    (hbroken : ¬Pug.Unbroken code'.text) : code' = code ∨ code'.IsFolded := by
  cases h with
  | same => exact .inl rfl
  | name _ hguard =>
    have hname : IsTagName _ := Script.isTagName_of_isWord (isName_of_guardName? hguard).isWord
    exact absurd (Pug.unbroken_of_isTagName hname) hbroken
  | folded _ hfold => exact .inr ⟨_, _, hfold⟩

/-- Where a part comes from. A text with a line feed is the value of a copied string literal. A code
comes of a copied one, and if it holds a line break, then it is the copied one or a folded template
literal. -/
def Taken.Origin (fs : Files) (o : Options) (source : String) : Taken → Prop
  | .text value =>
    '\n' ∈ value.toList → ∃ e, Copied fs o source (.verbatim e) ∧ e.Spells value
  | .code embedded => ∃ c, Copied fs o source c ∧ c.code.Becomes embedded ∧
    (¬Pug.Unbroken embedded.text → embedded = c.code ∨ embedded.IsFolded)
  | .name _ => True

variable {fs : Files} {o : Options} {source : String} {l l' : Lowered}

/-- Every part of a compiled layout comes from the source, or from a file of the bundle. -/
theorem origin_taken (hl : Lowered.optimized o.file source = .ok l)
    (hl' : (l.bundled fs o.file).result = .ok l') :
    ∀ part ∈ takenAll (l'.tree.layout l'.table), part.Origin fs o source := by
  refine taken_of_pieces (fun _ => trivial) _ (fun code hcode => ?_) fun value hvalue hfeed => ?_
  · obtain ⟨c, hc, hbecomes⟩ := becomes_layout hl hl' code hcode
    exact ⟨c, hc, hbecomes, hbecomes.eq_or_isFolded_of_broken⟩
  · rcases comesFrom_layout hl hl' _ hvalue with ⟨raw, rfl⟩ | hliteral
    · exact absurd hfeed (Lower.notMem_cleanText raw)
    · exact hliteral

/-- The elements of a layout have tags of the tree or of the table. -/
theorem tag_of_mem_headsAll {n : Node} {t : Table} :
    ∀ head ∈ headsAll (n.layout t), head.tag ∈ n.tags ++ t.tags := by
  intro head hhead
  obtain ⟨s, hreaches, hkeeps⟩ := leadsTo_of_mem (lays_site_iff.2 rfl) head hhead
  refine (stackFits_of_reaches hreaches).tags_subset (mem_site_tags.2 (.inl ?_))
  cases hkeeps with
  | plain | recursive => exact List.mem_cons_self

/-- The tags of a compilation are made of words. -/
theorem isTagName_layout (hl : Lowered.optimized o.file source = .ok l)
    (hl' : (l.bundled fs o.file).result = .ok l') :
    ∀ head ∈ headsAll (l'.tree.layout l'.table), IsTagName head.tag := by
  have htags : (∀ tag ∈ l'.tree.tags, IsTagName tag) ∧
      ∀ c ∈ l'.table.components.values, ∀ tag ∈ Node.tagsOfList c.body, IsTagName tag := by
    -- Without a file there is nothing to bundle, and the tags are those of the one source.
    cases hfile : o.file with
    | none =>
      rw [hfile] at hl'
      cases hl'
      exact ⟨Lowered.isTagName_tree hl, fun c hc => Lowered.isTagName_tags hl hc⟩
    | some file =>
      rw [hfile] at hl hl'
      obtain ⟨table, hlinked, hrest⟩ := Outcome.result_bind_iff.1 hl'
      obtain ⟨g, hg, rfl⟩ := Bundle.link_ok hlinked
      cases hrest
      refine ⟨fun tag htag => ?_, fun c hc => Lowered.isTagName_merged hl hg hc⟩
      -- The tree of the root is optimized once more after linking, which makes no new tag.
      exact Lowered.isTagName_tree hl tag ((Node.tags_optimize l.tree).subset htag)
  intro head hhead
  rcases List.mem_append.1 (tag_of_mem_headsAll head hhead) with htree | htable
  · exact htags.1 _ htree
  · obtain ⟨c, hc, htag⟩ := List.mem_flatMap.1 htable
    exact htags.2 c hc _ htag

/-- **The lines of a Pug template are its constructs, unless a part is taken with a line break.** If
a source compiles to Pug, the template is the text of its constructs, each with its indentation and
a line end, and no two of them share a line. There is one line for each construct if none of the
parts that are taken as they are holds a line break, and only then: the tags and all that the engine
adds never do. A text between tags has lost its line feeds, so a text with one is the value of a
string literal; and a code with a line break is one that lowering copies, or a folded template
literal. -/
theorem compile_lines {fs : Files} {o : Options} {source out : String} (hpug : o.engine = .pug)
    (h : (compile fs o source).result = .ok out) :
    ∃ l l' body, Lowered.optimized o.file source = .ok l ∧
      (l.bundled fs o.file).result = .ok l' ∧ out = o.wrap body ∧
      let ps := l'.tree.layout l'.table
      let ls := Emission.lines (Pug.emitAll o.level ps)
      body.toList = (Pug.glyphs ls).map Pug.Glyph.char ∧
      Pug.physicalLines (Pug.glyphs ls)
        = ls.flatMap (fun l => Pug.physicalLines (Pug.lineGlyphs l)) ++ [[]] ∧
      (Pug.physicalLines (Pug.glyphs ls) = ls.map Pug.lineGlyphs ++ [[]] ↔
        ∀ part ∈ takenAll ps, part.Unbroken) ∧
      ∀ part ∈ takenAll ps, part.Origin fs o source := by
  obtain ⟨l, hl, h⟩ := Outcome.result_bind_iff.1 h
  obtain ⟨l', hl', h⟩ := Outcome.result_bind_iff.1 h
  obtain ⟨body, hbody, h⟩ := Outcome.result_bind_iff.1 h
  cases h
  rw [hpug] at hbody
  obtain ⟨-, rfl⟩ := Emission.result_outcome_iff.1 hbody
  refine ⟨l, l', _, hl, hl', rfl, (Pug.map_char_glyphs _).symm, Pug.physicalLines_glyphs _, ?_,
    origin_taken hl hl'⟩
  -- Tags are words of markup, so they hold no line break and the lines break by their parts.
  have htags : ∀ head ∈ headsAll (l'.tree.layout l'.table), Pug.Unbroken head.tag :=
    fun head hhead => Pug.unbroken_of_isTagName (isTagName_layout hl hl' head hhead)
  have hparts := Pug.breaksBy_emitAll o.level _ htags
  rw [Pug.physicalLines_glyphs_eq_iff]
  exact (forall₂_congr fun l _ => Pug.endsLine_lineGlyphs_iff l).trans hparts

/-- An attribute that is written over two lines, and a text over two lines: the attribute list goes
over two lines, and everything else is one line for each construct. -/
theorem compile_lines_list :
    let source := "const Row = ({ t }) => <li>{t}</li>;\n"
      ++ "export default ({ xs, on }) => <ul title=\x7bon ?\n  'a' : 'b'\x7d>\n"
      ++ "  two\n  lines\n  {xs.map(x => <Row t={x} />)}\n</ul>;"
    let o : Options := { engine := .pug }
    let body := "ul(title=on ?\n  'a' : 'b')\n  | two lines\n  each x in xs\n    - var t = x\n"
      ++ "    li\n      = t\n"
    ∃ l, Lowered.optimized none source = .ok l ∧ (compile {} o source).result = .ok body ∧
      let ls := Emission.lines (Pug.emitAll 0 (l.tree.layout l.table))
      ls.length = 6 ∧ body.toList = (Pug.glyphs ls).map Pug.Glyph.char ∧
      Pug.physicalLines (Pug.glyphs ls) = ls.map Pug.lineGlyphs ++ [[]] := by
  intro source o body
  -- One run: the output, the number of its lines, and that nothing embedded breaks a line.
  have hrun : (compile {} o source).result.toOption.any (fun out => out == body &&
      (Lowered.optimized none source).toOption.any fun l =>
        let ps := l.tree.layout l.table
        (Emission.lines (Pug.emitAll 0 ps)).length == 6 &&
          (takenAll ps).all fun part => decide part.Unbroken) = true := by
    decide +kernel
  obtain ⟨out, hout, hrun⟩ := exists_ok_of_any hrun
  obtain ⟨hbody, hrun⟩ := Bool.and_eq_true_iff.1 hrun
  obtain ⟨l, hl, hrun⟩ := exists_ok_of_any hrun
  obtain ⟨hlength, hparts⟩ := Bool.and_eq_true_iff.1 hrun
  obtain ⟨l₁, l', text, hl₁, hl', hwrap, hchars, -, hlines, -⟩ := compile_lines rfl hout
  have hsame : l₁ = l := Except.ok.inj (hl₁.symm.trans hl)
  -- Without a file the bundle is the module itself.
  have hbundled : l' = l := by
    subst hsame
    exact (Except.ok.inj hl').symm
  have htext : text = body := by
    rw [← beq_iff_eq.1 hbody, hwrap, Options.wrap]
    exact (String.empty_append.trans String.append_empty).symm
  subst hsame hbundled htext
  rw [beq_iff_eq.1 hbody] at hout
  refine ⟨l', hl, hout, beq_iff_eq.1 hlength, hchars, hlines.2 fun part hpart => ?_⟩
  exact of_decide_eq_true (List.all_eq_true.1 hparts part hpart)

/-- A text, a test, an iterable, a prop and an interpolation that all hold line breaks: each of them
breaks the line it stands on. -/
theorem line_breaks_embedded :
    let source := "const Row = ({ t }) => <li>{t}</li>;\n"
      ++ "export default ({ a, b, xs }) => <ul>\x7ba &&\n b ? 'x\\ny' : null\x7d"
      ++ "\x7b[a,\n b].map(x => <Row t=\x7bx +\n 1\x7d />)\x7d\x7ba +\n b\x7d</ul>;"
    let body := "ul\n  if a &&\n b\n    | x\ny\n  each x in [a,\n b]\n    - var t = x +\n 1\n"
      ++ "    li\n      = t\n  = a +\n b\n"
    let parts : List Taken := [.code ⟨"a &&\n b"⟩, .text "x\ny", .code ⟨"[a,\n b]"⟩,
      .code ⟨"x +\n 1"⟩, .code ⟨"a +\n b"⟩]
    ∃ l out, Lowered.optimized none source = .ok l ∧
      (compile {} { engine := .pug } source).result = .ok out ∧ out = body ∧
      let ps := l.tree.layout l.table
      let ls := Emission.lines (Pug.emitAll 0 ps)
      out.toList = (Pug.glyphs ls).map Pug.Glyph.char ∧
      Pug.physicalLines (Pug.glyphs ls) ≠ ls.map Pug.lineGlyphs ++ [[]] ∧
      ∀ part ∈ parts, part ∈ takenAll ps ∧ ¬part.Unbroken := by
  intro source body parts
  -- One run, with each of the parts looked up among those of the layout.
  have hrun : (Lowered.optimized none source).toOption.any (fun l =>
      (compile {} { engine := .pug } source).result.toOption.any fun out =>
        let ps := l.tree.layout l.table
        let ls := Emission.lines (Pug.emitAll 0 ps)
        out == body && decide (out.toList = (Pug.glyphs ls).map Pug.Glyph.char) &&
          decide (Pug.physicalLines (Pug.glyphs ls) ≠ ls.map Pug.lineGlyphs ++ [[]]) &&
          parts.all fun part => decide (part ∈ takenAll ps ∧ ¬part.Unbroken)) = true := by
    decide +kernel
  obtain ⟨l, hl, hrun⟩ := exists_ok_of_any hrun
  obtain ⟨out, hout, hrun⟩ := exists_ok_of_any hrun
  obtain ⟨hrun, hparts⟩ := Bool.and_eq_true_iff.1 hrun
  obtain ⟨hrun, hlines⟩ := Bool.and_eq_true_iff.1 hrun
  obtain ⟨hbody, hchars⟩ := Bool.and_eq_true_iff.1 hrun
  exact ⟨l, out, hl, hout, beq_iff_eq.1 hbody, of_decide_eq_true hchars, of_decide_eq_true hlines,
    fun part hpart => of_decide_eq_true (List.all_eq_true.1 hparts part hpart)⟩

end Stencil
