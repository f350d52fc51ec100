import Stencil.Proofs.Engine.Outline

/-!
# Reading templates back

Each engine gives its lines their marks (`Directive.mark`). The lines of EJS and Liquid bracket what
is inside them, so their marks are read as they stand. Those of Pug nest by their levels alone:
`unindent` puts an end wherever the level goes back, and refuses a line that does not stand right
inside the block around it.

The lemmas are stated for pieces in front of any further lines, so that they compose. What is read
off the lines for the pieces is their outline, and the reader goes on with the lines that follow:
`Ejs.read_emitAll`, `Pug.read_emitAll`, and `Liquid.read_emitAll` where Liquid has words for
everything. The main results are `Ejs.outline?_lines`, `Pug.outline?_lines` and
`Liquid.outline?_lines`: what is read off a template is the outline of its pieces.
-/

namespace Stencil

/-! ### EJS -/

/-- What a line does to the nesting. -/
def Ejs.Directive.mark : Ejs.Directive → Mark
  | .startTag tag _ => .start (.element tag)
  | .endTag tag => .stop (.element tag)
  | .emptyTag tag _ | .voidTag tag _ => .part (.element tag [])
  | .text s => .part (.text s)
  | .value code => .part (.value code.text)
  | .startIf test => .start (.test test.text false)
  | .otherwise => .otherwise
  | .endIf => .stop (.test false)
  | .startEach loop => .start (.loop loop.item loop.iterable.text loop.index loop.array)
  | .endEach => .stop .loop
  | .startScope bindings => .start (.scope (bindings.map (·.name)))
  | .endScope bindings => .stop (.scope (bindings.map (·.script)))

/-- What is read off lines by their brackets. -/
def Ejs.outline? (ls : List (Nat × Ejs.Directive)) : Option (List Outline) :=
  (Reader.fresh.read (ls.map fun l => l.2.mark)).bind Reader.finish?

namespace Ejs

/-- A scope that is closed shows its assignments and then what stood inside. -/
theorem outline_scope (bindings : List Binding) (before inside : List Outline) :
    Frame.outline ⟨.scope (bindings.map (·.name)), before, none⟩
        (.scope (bindings.map (·.script))) inside
      = bindings.map (fun b => .bound b.name (some (Vocabulary.scripts.binding b))) ++ inside := by
  simp only [Frame.outline, List.zipWith_map, List.zipWith_self]
  rfl

open Emission Reader in
mutual

/-- Reading the marks of a piece puts its outline into whatever is open. -/
theorem read_emit : ∀ (p : Piece), p.Tidy → ∀ (r : Reader) (level : Nat) (rest : List Mark),
    r.read (marks Directive.mark (emit level p) ++ rest) = (r.put (p.outline .scripts)).read rest
  | .element head content, h, r, level, rest => by
    rw [emit, marks_append, marks_warnings, List.nil_append, Piece.outline]
    -- An element without content is read as a part with nothing inside, and its content is empty as
    -- nothing is hidden.
    by_cases hvoid : isVoid head.tag = true
    · rw [if_pos hvoid, h.1 (.inl hvoid), outlineAll]
      rfl
    · rw [if_neg hvoid]
      by_cases hempty : head.isEmpty = true
      · rw [if_pos hempty, h.1 (.inr hempty), outlineAll]
        rfl
      · rw [if_neg hempty, marks_append, marks_line, marks_line, marks_nil]
        simp only [List.cons_append, List.append_assoc, List.nil_append, Directive.mark]
        rw [read_start, read_emitAll content h.2, read_stop r (beq_self_eq_true _)]
        rfl
  | .text value, _, r, level, rest => rfl
  | .interpolation code, _, r, level, rest => rfl
  | .condition test consequent alternate, h, r, level, rest => by
    rw [emit, Piece.outline]
    -- With two branches the line between them is read while the construct is open.
    cases alternate with
    | none =>
      simp only [marks_append, marks_line, marks_nil, List.cons_append, List.append_assoc,
        List.nil_append, Directive.mark, emitAlternate]
      rw [read_start, read_emitConsequent consequent h.1, read_stop r rfl]
      rfl
    | some no =>
      simp only [marks_append, marks_line, marks_nil, List.cons_append, List.append_assoc,
        List.nil_append, Directive.mark, emitAlternate]
      rw [read_start, read_emitConsequent consequent h.1, read_otherwise, read_emitAll no h.2,
        read_stop_divided r _ _ _ rfl]
      rfl
  | .iteration loop body, h, r, level, rest => by
    rw [emit, Piece.outline]
    simp only [marks_append, marks_line, marks_nil, List.cons_append, List.append_assoc,
      List.nil_append, Directive.mark]
    rw [read_start, read_emitAll body h, read_stop r rfl]
    rfl
  | .scope bindings body, h, r, level, rest => by
    rw [emit, Piece.outline]
    -- Without bindings there is no function around the body.
    by_cases hempty : bindings.isEmpty = true
    · rw [if_pos hempty, List.isEmpty_iff.1 hempty, List.map_nil, List.nil_append,
        read_emitAll body h]
    · rw [if_neg hempty]
      simp only [marks_append, marks_line, marks_nil, List.cons_append, List.append_assoc,
        List.nil_append, Directive.mark]
      rw [read_start, read_emitAll body h, read_stop r (by simp [Closing.fits]), outline_scope]

/-- So does reading the marks of pieces side by side. -/
theorem read_emitAll : ∀ (ps : List Piece), TidyAll ps →
    ∀ (r : Reader) (level : Nat) (rest : List Mark),
    r.read (marks Directive.mark (emitAll level ps) ++ rest)
      = (r.put (outlineAll .scripts ps)).read rest
  | [], _, r, level, rest => by rw [emitAll, marks_nil, List.nil_append, outlineAll, put_nil]
  | p :: ps, h, r, level, rest => by
    rw [emitAll, marks_append, List.append_assoc, read_emit p h.1, read_emitAll ps h.2, put_put,
      outlineAll]

theorem read_emitConsequent : ∀ (b : Option (List Piece)), TidyBranch b →
    ∀ (r : Reader) (level : Nat) (rest : List Mark),
    r.read (marks Directive.mark (emitConsequent level b) ++ rest)
      = (r.put (outlineBranch .scripts b)).read rest
  | none, _, r, level, rest => by
    rw [emitConsequent, marks_nil, List.nil_append, outlineBranch, put_nil]
  | some ps, h, r, level, rest => by
    rw [emitConsequent, read_emitAll ps h, outlineBranch]

end

/-- **What is read off a template for EJS is the outline of its pieces.** -/
theorem outline?_lines {ps : List Piece} (h : TidyAll ps) (level : Nat) :
    outline? (Emission.lines (emitAll level ps)) = some (outlineAll .scripts ps) := by
  have hread := read_emitAll ps h Reader.fresh level []
  rw [List.append_nil, Emission.marks] at hread
  rw [outline?, hread]
  rfl

end Ejs

/-! ### Pug -/

/-- The level below which the blocks end where a line stands. The second branch of a test goes on
with the block of its first one. -/
def Mark.bar (level : Nat) : Mark → Nat
  | .otherwise => level + 1
  | _ => level

/-- The level right inside the innermost of the open blocks. -/
def levelIn (base : Nat) : List Nat → Nat
  | [] => base
  | level :: _ => level + 1

/-- The blocks that are open after a line inside some blocks. -/
def Mark.blocks (level : Nat) (opened : List Nat) : Mark → List Nat
  | .start _ => level :: opened
  | _ => opened

/-- The marks of lines by their levels, where the blocks at the given levels are open: blocks end
where the level goes back, and each line has to stand right inside the block that is left. -/
def unindent (base : Nat) : List Nat → List (Nat × Mark) → Option (List Mark)
  | opened, [] => some (opened.map fun _ => .stop .indent)
  | opened, (level, m) :: rest =>
    let ended := opened.takeWhile (m.bar level ≤ ·)
    let kept := opened.dropWhile (m.bar level ≤ ·)
    if levelIn base kept = m.bar level then
      (unindent base (m.blocks level kept) rest).map (ended.map (fun _ => .stop .indent) ++ m :: ·)
    else none

/-- What is read off lines by their levels, the outermost at level `base`. -/
def readIndented (base : Nat) (opened : List Nat) (ls : List (Nat × Mark)) (r : Reader) :
    Option Reader :=
  (unindent base opened ls).bind r.read

/-- No line stands deeper than the level, but for what follows the first one. -/
def StartsBelow (level : Nat) (ls : List (Nat × Mark)) : Prop :=
  ∀ l ∈ ls.head?, l.2.bar l.1 ≤ level

/-- What begins below a level begins below every deeper one. -/
theorem StartsBelow.succ {level : Nat} {ls : List (Nat × Mark)} (h : StartsBelow level ls) :
    StartsBelow (level + 1) ls :=
  fun l hl => Nat.le_succ_of_le (h l hl)

section

variable {base level : Nat} {opened : List Nat}

/-- A line right inside the open blocks ends none of them. -/
theorem unindent_of_level {m : Mark} (h : levelIn base opened = m.bar level)
    (rest : List (Nat × Mark)) : unindent base opened ((level, m) :: rest)
      = (unindent base (m.blocks level opened) rest).map (m :: ·) := by
  -- The innermost block is less deep than the line, so no block is taken off.
  have hsplit : opened.takeWhile (m.bar level ≤ ·) = [] ∧
      opened.dropWhile (m.bar level ≤ ·) = opened := by
    cases opened with
    | nil => exact ⟨rfl, rfl⟩
    | cons l outer =>
      have hl : ¬decide (m.bar level ≤ l) = true := by
        rw [← h, levelIn, decide_eq_true_iff]
        exact Nat.not_succ_le_self l
      exact ⟨List.takeWhile_cons_of_neg hl, List.dropWhile_cons_of_neg hl⟩
  rw [unindent]
  simp only [hsplit.1, hsplit.2, if_pos h, List.map_nil, List.nil_append]

/-- A block ends where the next line does not stand inside it. -/
theorem unindent_stop {rest : List (Nat × Mark)} (h : StartsBelow level rest) :
    unindent base (level :: opened) rest
      = (unindent base opened rest).map (.stop .indent :: ·) := by
  cases rest with
  | nil => rfl
  | cons l rest =>
    obtain ⟨k, m⟩ := l
    -- The innermost block is at least as deep as the line, so it is the first one that is taken
    -- off.
    have hbar : decide (m.bar k ≤ level) = true := decide_eq_true (h (k, m) rfl)
    rw [unindent, unindent]
    simp only [List.takeWhile_cons, List.dropWhile_cons, hbar, if_true]
    split
    · -- Taking off one block more, or one less, leaves the same line to be placed.
      rw [Option.map_map]
      rfl
    · rfl

/-- Reading a mark and then marks that may be missing. -/
theorem bind_map_cons (ms : Option (List Mark)) (m : Mark) (r : Reader) :
    (ms.map (m :: ·)).bind r.read = ms.bind fun ms => r.read (m :: ms) := by
  cases ms <;> rfl

/-- A line that stands for itself. -/
theorem readIndented_part (h : levelIn base opened = level) (o : Outline)
    (rest : List (Nat × Mark)) (r : Reader) :
    readIndented base opened ((level, .part o) :: rest) r
      = readIndented base opened rest (r.put [o]) := by
  rw [readIndented, unindent_of_level h, bind_map_cons]
  rfl

/-- Parts on lines of their own go into what is open at their level. -/
theorem readIndented_parts (h : levelIn base opened = level) (os : List Outline)
    (rest : List (Nat × Mark)) (r : Reader) :
    readIndented base opened (os.map (fun o => (level, .part o)) ++ rest) r
      = readIndented base opened rest (r.put os) := by
  induction os generalizing r with
  | nil => rw [List.map_nil, List.nil_append, Reader.put_nil]
  | cons o os ih =>
    rw [List.map_cons, List.cons_append, readIndented_part h, ih, Reader.put_put,
      List.singleton_append]

/-- A line that starts a block. -/
theorem readIndented_start (h : levelIn base opened = level) (opening : Opening)
    (rest : List (Nat × Mark)) (r : Reader) :
    readIndented base opened ((level, .start opening) :: rest) r
      = readIndented base (level :: opened) rest (r.enter opening) := by
  rw [readIndented, unindent_of_level h, bind_map_cons]
  rfl

/-- The line between the branches of a test. -/
theorem readIndented_otherwise (words : String) (negated : Bool) (os : List Outline)
    (rest : List (Nat × Mark)) (r : Reader) :
    readIndented base (level :: opened) ((level, .otherwise) :: rest)
        ((r.enter (.test words negated)).put os)
      = readIndented base (level :: opened) rest (r.divide words negated os) := by
  rw [readIndented, unindent_of_level rfl, bind_map_cons]
  rfl

/-- The end of a block without a second branch. -/
theorem readIndented_stop {rest : List (Nat × Mark)} (h : StartsBelow level rest) (r : Reader)
    {opening : Opening} (hfits : Closing.indent.fits opening = true) (os : List Outline) :
    readIndented base (level :: opened) rest ((r.enter opening).put os)
      = readIndented base opened rest
          (r.put (Frame.outline ⟨opening, r.shown, none⟩ .indent os)) := by
  rw [readIndented, unindent_stop h, bind_map_cons]
  simp only [Reader.read_stop r hfits]
  rfl

/-- The end of the second branch of a test. -/
theorem readIndented_stop_divided {rest : List (Nat × Mark)} (h : StartsBelow level rest)
    (r : Reader) (words : String) (negated : Bool) (first os : List Outline) :
    readIndented base (level :: opened) rest ((r.divide words negated first).put os)
      = readIndented base opened rest (r.put [.ofTest words negated first os]) := by
  have hfits : Closing.indent.fits (.test words negated) = true := rfl
  rw [readIndented, unindent_stop h, bind_map_cons]
  simp only [Reader.read_stop_divided r words negated first hfits]
  rfl

end

/-- What a line does to the nesting. -/
def Pug.Directive.mark : Pug.Directive → Mark
  | .tag name _ => .start (.element name)
  | .text s => .part (.text s)
  | .value code => .part (.value code.text)
  | .startIf test => .start (.test test.text false)
  | .startUnless test => .start (.test test.text true)
  | .otherwise => .otherwise
  | .each item index iterable => .start (.loop item iterable index none)
  | .assign name v => .part (.bound name (some v))

/-- What is read off lines by their levels, the outermost at level `base`. -/
def Pug.outline? (base : Nat) (ls : List (Nat × Pug.Directive)) : Option (List Outline) :=
  (readIndented base [] (ls.map fun l => (l.1, l.2.mark)) .fresh).bind Reader.finish?

namespace Pug

/-- The marks of the lines among emissions, with their levels. -/
def marks (es : List (Emission Directive)) : List (Nat × Mark) :=
  (Emission.lines es).map fun l => (l.1, l.2.mark)

@[simp] theorem marks_nil : marks [] = [] := rfl

@[simp] theorem marks_line (level : Nat) (d : Directive) (es : List (Emission Directive)) :
    marks (.line level d :: es) = (level, d.mark) :: marks es := rfl

@[simp] theorem marks_append (as bs : List (Emission Directive)) :
    marks (as ++ bs) = marks as ++ marks bs := by
  rw [marks, Emission.lines_append, List.map_append]
  rfl

@[simp] theorem marks_warnings (h : Head) : marks h.warnings = [] := by
  rw [marks, Emission.lines_warnings, List.map_nil]

@[simp] theorem marks_map_line (level : Nat) (ds : List Directive) :
    marks (ds.map (.line level)) = ds.map fun d => (level, d.mark) := by
  rw [marks, Emission.lines_map_line, List.map_map]
  rfl

/-- The marks of the lines that assign the props of a call. -/
theorem marks_bindings (level : Nat) (bindings : List Binding) :
    marks (bindings.map fun b => .line level (assignment b))
      = (bindings.map fun b => .bound b.name (some (Vocabulary.scripts.binding b))).map
          fun o => (level, .part o) := by
  induction bindings with
  | nil => rfl
  | cons b bs ih =>
    rw [List.map_cons, marks_line, ih]
    rfl

/-! Whatever pieces come first at a level, their first line stands there. -/

/-- A line at its own level begins below what stands inside. -/
theorem startsBelow_line {level : Nat} {d : Directive} (h : d.mark.bar level = level)
    (ls : List (Nat × Mark)) : StartsBelow level ((level, d.mark) :: ls) := by
  intro l hl
  cases hl
  exact Nat.le_of_eq h

mutual

/-- A piece begins below the inside of what stands around it; it may also be empty. -/
theorem startsBelow_emit {level : Nat} {rest : List (Nat × Mark)} (h : StartsBelow level rest) :
    ∀ p : Piece, StartsBelow level (marks (emit level p) ++ rest)
  | .element head content => by
    rw [emit, marks_append, marks_warnings]
    exact startsBelow_line rfl _
  | .text _ => startsBelow_line rfl _
  | .interpolation _ => startsBelow_line rfl _
  | .condition test none (some alternate) => startsBelow_line rfl _
  | .condition test none none => startsBelow_line rfl _
  | .condition test (some consequent) alternate => startsBelow_line rfl _
  | .iteration loop body => by
    rw [emit, startLoop]
    cases loop.array <;> exact startsBelow_line rfl _
  | .scope bindings body => by
    rw [emit]
    -- Without bindings the first line is that of the body.
    cases bindings with
    | nil => exact startsBelow_emitAll h body
    | cons b rest => exact startsBelow_line rfl _

theorem startsBelow_emitAll {level : Nat} {rest : List (Nat × Mark)} (h : StartsBelow level rest) :
    ∀ ps : List Piece, StartsBelow level (marks (emitAll level ps) ++ rest)
  | [] => h
  | p :: ps => by
    rw [emitAll, marks_append, List.append_assoc]
    exact startsBelow_emit (startsBelow_emitAll h ps) p

end

/-- A line that starts a block, and the block. -/
theorem read_block {base level : Nat} {opened : List Nat} {rest : List (Nat × Mark)}
    {content : List Piece} (hlevel : levelIn base opened = level) (hrest : StartsBelow level rest)
    (hcontent : ∀ r,
      readIndented base (level :: opened) (marks (emitAll (level + 1) content) ++ rest) r
        = readIndented base (level :: opened) rest (r.put (outlineAll .scripts content)))
    {opening : Opening} (hfits : Closing.indent.fits opening = true) (r : Reader) :
    readIndented base opened ((level, .start opening) ::
        (marks (emitAll (level + 1) content) ++ rest)) r
      = readIndented base opened rest (r.put
          (Frame.outline ⟨opening, r.shown, none⟩ .indent (outlineAll .scripts content))) := by
  rw [readIndented_start hlevel, hcontent, readIndented_stop hrest r hfits]

mutual

/-- Reading the marks of a piece by their levels puts its outline into what is open at its level,
provided that what follows closes what the piece opens. -/
theorem read_emit (base : Nat) : ∀ (p : Piece) (level : Nat) (opened : List Nat)
    (rest : List (Nat × Mark)) (r : Reader), levelIn base opened = level →
    StartsBelow level rest → readIndented base opened (marks (emit level p) ++ rest) r
      = readIndented base opened rest (r.put (p.outline .scripts))
  | .element head content, level, opened, rest, r, hlevel, hrest => by
    have hcontent (r : Reader) :=
      read_emitAll base content (level + 1) (level :: opened) rest r rfl hrest.succ
    rw [emit, marks_append, marks_warnings, List.nil_append, marks_line, List.cons_append,
      Directive.mark, read_block hlevel hrest hcontent rfl]
    rfl
  | .text value, level, opened, rest, r, hlevel, hrest => readIndented_part hlevel _ _ _
  | .interpolation code, level, opened, rest, r, hlevel, hrest => readIndented_part hlevel _ _ _
  | .condition test none (some alternate), level, opened, rest, r, hlevel, hrest => by
    have halternate (r : Reader) :=
      read_emitAll base alternate (level + 1) (level :: opened) rest r rfl hrest.succ
    rw [emit, marks_line, List.cons_append, Directive.mark,
      read_block hlevel hrest halternate rfl]
    rfl
  | .condition test none none, level, opened, rest, r, hlevel, hrest => by
    have hstart := readIndented_start hlevel (.test test.text false) rest r
    rw [← Reader.put_nil (r.enter _), readIndented_stop hrest r rfl] at hstart
    exact hstart
  | .condition test (some consequent) none, level, opened, rest, r, hlevel, hrest => by
    have hconsequent (r : Reader) :=
      read_emitAll base consequent (level + 1) (level :: opened) rest r rfl hrest.succ
    rw [emit, emitConsequent, emitAlternate, List.append_nil, marks_line, List.cons_append,
      Directive.mark, read_block hlevel hrest hconsequent rfl]
    · rfl
    · nofun
  | .condition test (some consequent) (some alternate), level, opened, rest, r, hlevel, hrest => by
    -- The second branch stands in the block that the first one was in.
    have hdivide : StartsBelow (level + 1)
        ((level, .otherwise) :: (marks (emitAll (level + 1) alternate) ++ rest)) := by
      intro l hl
      cases hl
      exact Nat.le_refl _
    have hconsequent (r : Reader) :=
      read_emitAll base consequent (level + 1) (level :: opened) _ r rfl hdivide
    have halternate (r : Reader) :=
      read_emitAll base alternate (level + 1) (level :: opened) rest r rfl hrest.succ
    rw [emit, emitConsequent, emitAlternate, marks_append, marks_line, marks_line,
      List.cons_append, List.cons_append, List.append_assoc, List.cons_append, Directive.mark,
      Directive.mark, readIndented_start hlevel, hconsequent, readIndented_otherwise, halternate,
      readIndented_stop_divided hrest]
    · rfl
    · nofun
  | .iteration loop body, level, opened, rest, r, hlevel, hrest => by
    have hbody (r : Reader) :=
      read_emitAll base body (level + 1) (level :: opened) rest r rfl hrest.succ
    have heach (source : String) (r : Reader) :
        readIndented base opened ((level, .start (.loop loop.item source loop.index none)) ::
            (marks (emitAll (level + 1) body) ++ rest)) r
          = readIndented base opened rest (r.put (Outline.ofLoop loop.item source loop.index none
              none (outlineAll .scripts body))) :=
      read_block hlevel hrest hbody rfl r
    rw [emit, marks_append, marks_map_line, List.append_assoc, Piece.outline, startLoop]
    cases loop.array with
    | none => exact heach _ r
    | some array =>
      simp only [List.map_cons, List.map_nil, List.cons_append, List.nil_append, Directive.mark]
      rw [readIndented_part hlevel, heach, Reader.put_put]
      rfl
  | .scope bindings body, level, opened, rest, r, hlevel, hrest => by
    rw [emit, Piece.outline, marks_append, List.append_assoc, marks_bindings,
      readIndented_parts hlevel, read_emitAll base body _ _ _ _ hlevel hrest, Reader.put_put]

/-- So does reading the marks of pieces side by side. -/
theorem read_emitAll (base : Nat) : ∀ (ps : List Piece) (level : Nat) (opened : List Nat)
    (rest : List (Nat × Mark)) (r : Reader), levelIn base opened = level →
    StartsBelow level rest → readIndented base opened (marks (emitAll level ps) ++ rest) r
      = readIndented base opened rest (r.put (outlineAll .scripts ps))
  | [], level, opened, rest, r, _, _ => by
    rw [emitAll, marks_nil, List.nil_append, outlineAll, Reader.put_nil]
  | p :: ps, level, opened, rest, r, hlevel, hrest => by
    have hps := startsBelow_emitAll hrest ps
    rw [emitAll, marks_append, List.append_assoc, read_emit base p _ _ _ _ hlevel hps,
      read_emitAll base ps _ _ _ _ hlevel hrest, Reader.put_put, outlineAll]

end

/-- **What is read off a template for Pug is the outline of its pieces.** -/
theorem outline?_lines (ps : List Piece) (level : Nat) :
    outline? level (Emission.lines (emitAll level ps)) = some (outlineAll .scripts ps) := by
  have hread := read_emitAll level ps level [] [] Reader.fresh rfl nofun
  rw [List.append_nil, marks] at hread
  rw [outline?, hread]
  rfl

end Pug

/-! ### Liquid -/

/-- What a line does to the nesting. -/
def Liquid.Directive.mark : Liquid.Directive → Mark
  | .startTag tag _ => .start (.element tag)
  | .endTag tag => .stop (.element tag)
  | .emptyTag tag _ | .voidTag tag _ => .part (.element tag [])
  | .text s => .part (.text s)
  | .value words => .part (.value words)
  | .startIf test => .start (.test test.words test.negated)
  | .otherwise => .otherwise
  | .endIf negated => .stop (.test negated)
  | .startFor item iterable => .start (.loop item iterable none none)
  | .endFor => .stop .loop
  | .assign name words => .part (.bound name (some words))

/-- What is read off lines by their brackets. -/
def Liquid.outline? (ls : List (Nat × Liquid.Directive)) : Option (List Outline) :=
  (Reader.fresh.read (ls.map fun l => l.2.mark)).bind Reader.finish?

namespace Liquid

open Emission

/-- Bindings that are written bind the same names, in Liquid's words. -/
theorem marks_bindings {level : Nat} {bindings : List Binding}
    (h : Succeeds (bindings.map (emitBinding level))) :
    marks Directive.mark (bindings.map (emitBinding level))
      = (bindings.map fun b => Outline.bound b.name (some (Vocabulary.liquid.binding b))).map
          .part := by
  induction bindings with
  | nil => rfl
  | cons b bs ih =>
    rw [List.map_cons] at h
    obtain ⟨hb, hbs⟩ := succeeds_cons.1 h
    cases hwords : bindingWords b with
    | error f =>
      -- A binding without words is no line, and `h` excludes it.
      rw [emitBinding, hwords] at hb
      cases hb
    | ok words =>
      have hvalue : Vocabulary.liquid.binding b = words := by
        simp only [Vocabulary.liquid, hwords, Except.toOption, Option.getD_some]
      have hline : emitBinding level b = .line level (.assign b.name words) := by
        rw [emitBinding, hwords]
        rfl
      rw [List.map_cons, hline, marks_line, ih hbs, List.map_cons, List.map_cons, hvalue]
      rfl

/-- The vocabulary gives a test the words that it was translated to. -/
theorem test_liquid {test : Code} {t : Bool × String} (h : test.liquidTest = .ok t) :
    Vocabulary.liquid.test test = t := by
  simp only [Vocabulary.liquid, h, Except.toOption, Option.getD_some]

/-- A test that is written has words, and its content is written as well. -/
theorem succeeds_emitTest {level : Nat} {flip : Bool} {test : Code}
    {content : List (Emission Directive)} (h : Succeeds (emitTest level flip test content)) :
    ∃ negated words, test.liquidTest = .ok (negated, words) ∧ Succeeds content ∧
      emitTest level flip test content = .line level (.startIf ⟨negated ^^ flip, words⟩) :: content
        ++ [.line level (.endIf (negated ^^ flip))] := by
  unfold emitTest testOf at h ⊢
  cases htest : test.liquidTest with
  | error f =>
    rw [htest] at h
    -- Without words for the test there is only the failure.
    cases h _ List.mem_cons_self
  | ok t =>
    obtain ⟨negated, words⟩ := t
    rw [htest] at h
    refine ⟨negated, words, rfl, ?_, ?_⟩
    · exact (succeeds_append.1 (succeeds_cons.1 h).2).1
    · cases flip <;> cases negated <;> rfl

/-! What is written has words for all its parts. -/

/-- An element is printed only if its attributes are translated and its content is printed. -/
theorem succeeds_element {head : Head} {content : List Piece} {level : Nat}
    (htidy : (Piece.element head content).Tidy)
    (h : Succeeds (emit level (.element head content))) :
    ∃ attributes, slots head.attributes = .ok attributes ∧
      Succeeds (emitAll (level + 1) content) := by
  rw [emit] at h
  replace h := (succeeds_append.1 h).2
  cases hslots : slots head.attributes with
  | error f =>
    rw [hslots] at h
    cases h _ List.mem_cons_self
  | ok attributes =>
    refine ⟨attributes, rfl, ?_⟩
    by_cases hbare : isVoid head.tag = true ∨ head.isEmpty = true
    · -- Nothing is hidden, so there is no content that could fail.
      rw [htidy.1 hbare, emitAll]
      exact fun e he => absurd he List.not_mem_nil
    · rw [not_or] at hbare
      simp only [hslots, if_neg hbare.1, if_neg hbare.2] at h
      exact (succeeds_append.1 (succeeds_cons.1 h).2).1

/-- A condition is printed only if its test is translated and both branches are printed. -/
theorem succeeds_condition {test : Code} {consequent alternate : Option (List Piece)} {level : Nat}
    (h : Succeeds (emit level (.condition test consequent alternate))) :
    ∃ negated words, test.liquidTest = .ok (negated, words) ∧
      (∀ ps ∈ consequent, Succeeds (emitAll (level + 1) ps)) ∧
      ∀ ps ∈ alternate, Succeeds (emitAll (level + 1) ps) := by
  -- The branches stand inside the test one after the other, so each of them is written if the whole
  -- is.
  match consequent, alternate with
  | none, none =>
    obtain ⟨negated, words, htest, -⟩ := succeeds_emitTest h
    exact ⟨negated, words, htest, nofun, nofun⟩
  | none, some ps =>
    obtain ⟨negated, words, htest, hcontent, -⟩ := succeeds_emitTest h
    refine ⟨negated, words, htest, nofun, fun qs hqs => ?_⟩
    cases hqs
    exact hcontent
  | some ps, none =>
    obtain ⟨negated, words, htest, hcontent, -⟩ := succeeds_emitTest h
    refine ⟨negated, words, htest, fun qs hqs => ?_, nofun⟩
    cases hqs
    exact (succeeds_append.1 hcontent).1
  | some ps, some qs =>
    obtain ⟨negated, words, htest, hcontent, -⟩ := succeeds_emitTest h
    obtain ⟨hps, hqs⟩ := succeeds_append.1 hcontent
    refine ⟨negated, words, htest, fun _ heq => ?_, fun _ heq => ?_⟩
    · cases heq
      exact hps
    · cases heq
      exact (succeeds_cons.1 hqs).2

/-- An iteration is printed only if its iterable is translated and its body is printed. -/
theorem succeeds_iteration {loop : Loop} {body : List Piece} {level : Nat}
    (h : Succeeds (emit level (.iteration loop body))) :
    ∃ iterable, loop.iterable.liquid = .ok iterable ∧ Succeeds (emitAll (level + 1) body) := by
  rw [emit] at h
  -- A loop whose iterable has no words fails at its first line.
  cases hiterable : loop.iterable.liquid with
  | error f =>
    rw [hiterable] at h
    cases h _ List.mem_cons_self
  | ok iterable =>
    rw [hiterable] at h
    exact ⟨iterable, rfl, (succeeds_append.1 (succeeds_append.1 h).1).2⟩

open Reader in
mutual

/-- Reading the marks of a printed piece puts its outline into whatever is open. -/
theorem read_emit : ∀ (p : Piece), p.Tidy → ∀ (r : Reader) (level : Nat) (rest : List Mark),
    Succeeds (emit level p) →
    r.read (marks Directive.mark (emit level p) ++ rest) = (r.put (p.outline .liquid)).read rest
  | .element head content, h, r, level, rest, hok => by
    obtain ⟨attributes, hslots, hcontent⟩ := succeeds_element h hok
    rw [emit, marks_append, marks_warnings, List.nil_append, hslots, Piece.outline]
    by_cases hvoid : isVoid head.tag = true
    · simp only [if_pos hvoid, h.1 (.inl hvoid), outlineAll]
      rfl
    · by_cases hempty : head.isEmpty = true
      · simp only [if_neg hvoid, if_pos hempty, h.1 (.inr hempty), outlineAll]
        rfl
      · simp only [if_neg hvoid, if_neg hempty, marks_append, marks_line, marks_nil,
          List.cons_append, List.append_assoc, List.nil_append, Directive.mark]
        rw [read_start, read_emitAll content h.2 _ _ _ hcontent, read_stop r (beq_self_eq_true _)]
        rfl
  | .text value, _, r, level, rest, _ => rfl
  | .interpolation code, _, r, level, rest, hok => by
    rw [emit] at hok ⊢
    cases hcode : code.liquid with
    | error f =>
      rw [hcode] at hok
      cases hok _ List.mem_cons_self
    | ok words =>
      simp only [Piece.outline, Vocabulary.liquid, hcode]
      rfl
  | .condition test none (some alternate), h, r, level, rest, hok => by
    rw [emit] at hok ⊢
    obtain ⟨negated, words, htest, hcontent, hlines⟩ := succeeds_emitTest hok
    rw [hlines, Piece.outline, test_liquid htest]
    simp only [marks_append, marks_line, marks_nil, List.cons_append, List.append_assoc,
      List.nil_append, Directive.mark]
    rw [read_start, read_emitAll alternate h.2 _ _ _ hcontent, read_stop r (beq_self_eq_true _)]
    cases negated <;> rfl
  | .condition test none none, h, r, level, rest, hok => by
    obtain ⟨negated, words, htest, -, hlines⟩ := succeeds_emitTest hok
    rw [show emit level (.condition test none none) = _ from hlines, Piece.outline,
      test_liquid htest]
    simp only [marks_line, marks_nil, List.cons_append, List.nil_append, Directive.mark,
      Bool.xor_false, emitConsequent, emitAlternate]
    rw [read_start, ← put_nil (r.enter _), read_stop r (beq_self_eq_true _)]
    rfl
  | .condition test (some consequent) none, h, r, level, rest, hok => by
    obtain ⟨negated, words, htest, hcontent, hlines⟩ := succeeds_emitTest hok
    obtain ⟨hconsequent, -⟩ := succeeds_append.1 hcontent
    rw [show emit level (.condition test (some consequent) none) = _ from hlines, Piece.outline,
      test_liquid htest]
    simp only [marks_append, marks_line, marks_nil, List.cons_append, List.append_assoc,
      List.nil_append, Directive.mark, Bool.xor_false, emitConsequent, emitAlternate]
    rw [read_start, read_emitAll consequent h.1 _ _ _ hconsequent,
      read_stop r (beq_self_eq_true _)]
    rfl
  | .condition test (some consequent) (some alternate), h, r, level, rest, hok => by
    obtain ⟨negated, words, htest, hcontent, hlines⟩ := succeeds_emitTest hok
    obtain ⟨hconsequent, halternate⟩ := succeeds_append.1 hcontent
    replace halternate := (succeeds_cons.1 halternate).2
    rw [show emit level (.condition test (some consequent) (some alternate)) = _ from hlines,
      Piece.outline, test_liquid htest]
    simp only [marks_append, marks_line, marks_nil, List.cons_append, List.append_assoc,
      List.nil_append, Directive.mark, Bool.xor_false, emitConsequent, emitAlternate]
    rw [read_start, read_emitAll consequent h.1 _ _ _ hconsequent, read_otherwise,
      read_emitAll alternate h.2 _ _ _ halternate,
      read_stop_divided r _ _ _ (beq_self_eq_true _)]
    rfl
  | .iteration loop body, h, r, level, rest, hok => by
    obtain ⟨iterable, hiterable, hbody⟩ := succeeds_iteration hok
    have hvalue : Vocabulary.liquid.value loop.iterable = iterable := by
      simp only [Vocabulary.liquid, hiterable, Except.toOption, Option.getD_some]
    -- The index is assigned inside the loop, in front of the body.
    have hindex : (loopIndex loop).map Directive.mark
        = (loop.index.toList.map (Outline.bound · Vocabulary.liquid.position)).map .part := by
      cases hindex : loop.index <;> simp only [loopIndex, hindex] <;> rfl
    have heach (source : String) (r : Reader) :
        r.read (.start (.loop loop.item source none none) ::
            ((loopIndex loop).map Directive.mark ++
              (marks Directive.mark (emitAll (level + 1) body) ++ .stop .loop :: rest)))
          = (r.put (Outline.ofLoop loop.item source loop.index none Vocabulary.liquid.position
              (outlineAll .liquid body))).read rest := by
      rw [read_start, hindex, read_parts, read_emitAll body h _ _ _ hbody, put_put,
        read_stop r rfl]
      rfl
    rw [emit, hiterable, Piece.outline, hvalue]
    simp only [marks_append, marks_line, marks_nil, marks_map_line, List.append_assoc,
      List.cons_append, List.nil_append, startLoop]
    cases loop.array with
    | none => exact heach iterable r
    | some array =>
      simp only [List.map_cons, List.map_nil, List.cons_append, List.nil_append, Directive.mark]
      rw [read_part, heach, put_put]
      rfl
  | .scope bindings body, h, r, level, rest, hok => by
    rw [emit] at hok ⊢
    obtain ⟨hbindings, hbody⟩ := succeeds_append.1 hok
    rw [marks_append, List.append_assoc, marks_bindings hbindings, read_parts,
      read_emitAll body h _ _ _ hbody, put_put, Piece.outline]

/-- So does reading the marks of printed pieces side by side. -/
theorem read_emitAll : ∀ (ps : List Piece), TidyAll ps →
    ∀ (r : Reader) (level : Nat) (rest : List Mark), Succeeds (emitAll level ps) →
    r.read (marks Directive.mark (emitAll level ps) ++ rest)
      = (r.put (outlineAll .liquid ps)).read rest
  | [], _, r, level, rest, _ => by rw [emitAll, marks_nil, List.nil_append, outlineAll, put_nil]
  | p :: ps, h, r, level, rest, hok => by
    rw [emitAll] at hok ⊢
    obtain ⟨hp, hps⟩ := succeeds_append.1 hok
    rw [marks_append, List.append_assoc, read_emit p h.1 _ _ _ hp, read_emitAll ps h.2 _ _ _ hps,
      put_put, outlineAll]

end

/-- **What is read off a template for Liquid is the outline of its pieces**, in Liquid's words. -/
theorem outline?_lines {ps : List Piece} (h : TidyAll ps) {level : Nat}
    (hok : Succeeds (emitAll level ps)) :
    outline? (lines (emitAll level ps)) = some (outlineAll .liquid ps) := by
  have hread := read_emitAll ps h Reader.fresh level [] hok
  rw [List.append_nil, marks] at hread
  rw [outline?, hread]
  rfl

end Liquid

end Stencil
