import Stencil.Engine

/-!
# What a template shows

What a template shows is read off its lines, whatever engine they are for, and compared with what
the pieces say it should.

* `Outline` — what a template shows, as a tree: elements, texts, values, bound names, loops, and
  choices between two branches;
* `Piece.outline` — what a piece shows. It knows the engine only through the words that the engine
  puts code in (`Vocabulary`);
* `Mark` — what a line does to the nesting: it stands for itself, or it starts, divides or ends a
  construct;
* `Reader` — reads marks, with the constructs that are open on a stack. It refuses an end that does
  not fit the start, and a second branch outside of a test.

A negated test is read as the test itself with its branches exchanged, a loop that names its array
as binding this array in front, and the parameters of a function as names that are bound in front of
its body.
-/

namespace Stencil

/-! ### Outlines -/

/-- A part of what a template shows. -/
inductive Outline where
  | element (tag : String) (inside : List Outline)
  | text (value : String)
  /-- The value of some code, in the words of the engine. -/
  | value (words : String)
  /-- A name that is bound from here on; the position in a loop needs no words. -/
  | bound (name : String) (words : Option String)
  | loop (item source : String) (inside : List Outline)
  | choice (test : String) (yes no : List Outline)

namespace Outline

/-- The choice that a test makes. The branches of a negated test are exchanged. -/
def ofTest (words : String) (negated : Bool) (yes no : List Outline) : Outline :=
  if negated then .choice words no yes else .choice words yes no

/-- A loop over `source`. If the array is named, the loop runs over that name. -/
def ofLoop (item source : String) (index array position : Option String)
    (inside : List Outline) : List Outline :=
  array.toList.map (.bound · (some source)) ++
    [.loop item (array.getD source) (index.toList.map (.bound · position) ++ inside)]

end Outline

/-- The words that an engine puts code in. -/
structure Vocabulary where
  value : Code → String
  /-- A test, and whether it is negated. -/
  test : Code → Bool × String
  binding : Binding → String
  /-- The position in a loop, where it is assigned to a name. -/
  position : Option String

/-- The words of the engines that take code as it is. -/
def Vocabulary.scripts : Vocabulary where
  value code := code.text
  test code := (false, code.text)
  binding := Binding.script
  position := none

/-- The words of Liquid, as far as it has any. -/
def Vocabulary.liquid : Vocabulary where
  value code := code.liquid.toOption.getD ""
  test code := code.liquidTest.toOption.getD (false, "")
  binding b := (Liquid.bindingWords b).toOption.getD ""
  position := some "forloop.index0"

mutual

/-- What a piece shows. -/
def Piece.outline (v : Vocabulary) : Piece → List Outline
  | .element head content => [.element head.tag (outlineAll v content)]
  | .text value => [.text value]
  | .interpolation code => [.value (v.value code)]
  | .condition test consequent alternate =>
    [.ofTest (v.test test).2 (v.test test).1 (outlineBranch v consequent)
      (outlineBranch v alternate)]
  | .iteration loop body =>
    Outline.ofLoop loop.item (v.value loop.iterable) loop.index loop.array v.position
      (outlineAll v body)
  | .scope bindings body =>
    bindings.map (fun b => .bound b.name (some (v.binding b))) ++ outlineAll v body

def outlineAll (v : Vocabulary) : List Piece → List Outline
  | [] => []
  | p :: rest => p.outline v ++ outlineAll v rest

def outlineBranch (v : Vocabulary) : Option (List Piece) → List Outline
  | none => []
  | some ps => outlineAll v ps

end

/-! ### Marks -/

/-- The start of a construct. -/
inductive Opening where
  | element (tag : String)
  | test (words : String) (negated : Bool)
  | loop (item source : String) (index array : Option String)
  /-- A function of these parameters. -/
  | scope (names : List String)

/-- The end of a construct. -/
inductive Closing where
  | element (tag : String)
  | test (negated : Bool)
  | loop
  /-- The call of a function with these arguments. -/
  | scope (values : List String)
  /-- The end of an indented block, whatever it is in. -/
  | indent

/-- The end fits the start. -/
def Closing.fits : Closing → Opening → Bool
  | .element tag, .element tag' => tag == tag'
  | .test negated, .test _ negated' => negated == negated'
  | .loop, .loop _ _ _ _ => true
  | .scope values, .scope names => values.length == names.length
  | .indent, .scope _ => false
  | .indent, _ => true
  | _, _ => false

/-- What a line does to the nesting. -/
inductive Mark where
  | part (o : Outline)
  | start (opening : Opening)
  /-- The end of the first branch of a test. -/
  | otherwise
  | stop (closing : Closing)

/-- A construct that is open. -/
structure Frame where
  opening : Opening
  /-- What stands in front of it. -/
  before : List Outline
  /-- The first branch of a test, once it is read. -/
  first : Option (List Outline)

/-- What the construct shows with its last part, once it is closed. -/
def Frame.outline (f : Frame) (closing : Closing) (inside : List Outline) : List Outline :=
  match f.opening with
  | .element tag => [.element tag inside]
  | .test words negated =>
    match f.first with
    | none => [.ofTest words negated inside []]
    | some first => [.ofTest words negated first inside]
  | .loop item source index array => Outline.ofLoop item source index array none inside
  | .scope names =>
    match closing with
    | .scope values =>
      List.zipWith (fun name words => .bound name (some words)) names values ++ inside
    | _ => inside

/-- What is read so far: the innermost construct last. -/
structure Reader where
  shown : List Outline
  frames : List Frame

namespace Reader

/-- Nothing is read yet. -/
def fresh : Reader := ⟨[], []⟩

/-- Reads what stands for itself. -/
def put (r : Reader) (os : List Outline) : Reader :=
  { r with shown := r.shown ++ os }

/-- Reads the start of a construct. -/
def enter (r : Reader) (opening : Opening) : Reader :=
  ⟨[], ⟨opening, r.shown, none⟩ :: r.frames⟩

/-- Reads a mark; nothing if it does not fit. -/
def step (r : Reader) : Mark → Option Reader
  | .part o => some (r.put [o])
  | .start opening => some (r.enter opening)
  | .otherwise =>
    match r.frames with
    | ⟨.test words negated, before, none⟩ :: outer =>
      some ⟨[], ⟨.test words negated, before, some r.shown⟩ :: outer⟩
    | _ => none
  | .stop closing =>
    match r.frames with
    | [] => none
    | f :: outer =>
      if closing.fits f.opening then some ⟨f.before ++ f.outline closing r.shown, outer⟩ else none

/-- Reads marks. -/
def read (r : Reader) : List Mark → Option Reader
  | [] => some r
  | m :: rest => (r.step m).bind fun r => r.read rest

/-- What is shown, if nothing is open. -/
def finish? (r : Reader) : Option (List Outline) :=
  if r.frames.isEmpty then some r.shown else none

@[simp] theorem put_nil (r : Reader) : r.put [] = r := by
  rw [put, List.append_nil]

/-- Putting twice is putting both. -/
@[simp] theorem put_put (r : Reader) (as bs : List Outline) :
    (r.put as).put bs = r.put (as ++ bs) := by
  rw [put, put, put, List.append_assoc]

/-- A part goes into what is open. -/
theorem read_part (r : Reader) (o : Outline) (rest : List Mark) :
    r.read (.part o :: rest) = (r.put [o]).read rest := rfl

theorem read_parts (r : Reader) (os : List Outline) (rest : List Mark) :
    r.read (os.map .part ++ rest) = (r.put os).read rest := by
  induction os generalizing r with
  | nil => rw [List.map_nil, List.nil_append, put_nil]
  | cons o os ih =>
    rw [List.map_cons, List.cons_append, read_part, ih, put_put, List.singleton_append]

/-- An opening mark opens a construct. -/
theorem read_start (r : Reader) (opening : Opening) (rest : List Mark) :
    r.read (.start opening :: rest) = (r.enter opening).read rest := rfl

/-- The first branch of a test ends. -/
def divide (r : Reader) (words : String) (negated : Bool) (first : List Outline) : Reader :=
  ⟨[], ⟨.test words negated, r.shown, some first⟩ :: r.frames⟩

/-- The mark between two branches ends the first one. -/
theorem read_otherwise (r : Reader) (words : String) (negated : Bool) (os : List Outline)
    (rest : List Mark) : ((r.enter (.test words negated)).put os).read (.otherwise :: rest)
      = (r.divide words negated os).read rest := rfl

/-- A construct without a second branch ends. -/
theorem read_stop (r : Reader) {opening : Opening} {closing : Closing}
    (h : closing.fits opening = true) (os : List Outline) (rest : List Mark) :
    ((r.enter opening).put os).read (.stop closing :: rest)
      = (r.put (Frame.outline ⟨opening, r.shown, none⟩ closing os)).read rest := by
  rw [read, step]
  simp only [put, enter, h, if_true, Option.bind_some, List.nil_append]

/-- The second branch of a test ends. -/
theorem read_stop_divided (r : Reader) (words : String) (negated : Bool) (first : List Outline)
    {closing : Closing} (h : closing.fits (.test words negated) = true) (os : List Outline)
    (rest : List Mark) : ((r.divide words negated first).put os).read (.stop closing :: rest)
      = (r.put [.ofTest words negated first os]).read rest := by
  rw [read, step]
  simp only [put, divide, h, if_true, Option.bind_some, List.nil_append, Frame.outline]

end Reader

/-! ### Lines -/

namespace Emission

variable {δ : Type}

/-- The lines among emissions, with their levels. -/
def lines (es : List (Emission δ)) : List (Nat × δ) :=
  es.filterMap fun
    | .line level content => some (level, content)
    | _ => none

/-- Nothing fails. -/
def Succeeds (es : List (Emission δ)) : Prop :=
  ∀ e ∈ es, e.failure? = none

/-- Emissions side by side succeed if both do. -/
theorem succeeds_append {as bs : List (Emission δ)} :
    Succeeds (as ++ bs) ↔ Succeeds as ∧ Succeeds bs :=
  List.forall_mem_append

/-- They succeed if each of them is no failure. -/
theorem succeeds_cons {e : Emission δ} {es : List (Emission δ)} :
    Succeeds (e :: es) ↔ e.failure? = none ∧ Succeeds es :=
  List.forall_mem_cons

/-- The text of lines. -/
def spelled (spell : δ → String) (ls : List (Nat × δ)) : String :=
  String.join (ls.map fun l => indented l.1 (spell l.2))

@[simp] theorem lines_line (level : Nat) (content : δ) (es : List (Emission δ)) :
    lines (.line level content :: es) = (level, content) :: lines es := rfl

@[simp] theorem lines_append (as bs : List (Emission δ)) :
    lines (as ++ bs) = lines as ++ lines bs :=
  List.filterMap_append

@[simp] theorem lines_warnings (h : Head) : lines (h.warnings : List (Emission δ)) = [] := by
  rw [Head.warnings]
  split <;> rfl

/-- The lines of several directives at one level. -/
@[simp] theorem lines_map_line (level : Nat) (contents : List δ) :
    lines (contents.map (.line level)) = contents.map fun d => (level, d) := by
  induction contents with
  | nil => rfl
  | cons d rest ih => rw [List.map_cons, lines_line, ih, List.map_cons]

/-- The marks of the lines among emissions. -/
def marks (mark : δ → Mark) (es : List (Emission δ)) : List Mark :=
  (lines es).map fun l => mark l.2

variable (mark : δ → Mark)

@[simp] theorem marks_nil : marks mark ([] : List (Emission δ)) = [] := rfl

@[simp] theorem marks_line (level : Nat) (content : δ) (es : List (Emission δ)) :
    marks mark (.line level content :: es) = mark content :: marks mark es := rfl

@[simp] theorem marks_append (as bs : List (Emission δ)) :
    marks mark (as ++ bs) = marks mark as ++ marks mark bs := by
  rw [marks, lines_append, List.map_append]
  rfl

@[simp] theorem marks_warnings (h : Head) : marks mark (h.warnings : List (Emission δ)) = [] := by
  rw [marks, lines_warnings, List.map_nil]

@[simp] theorem marks_map_line (level : Nat) (contents : List δ) :
    marks mark (contents.map (.line level)) = contents.map mark := by
  rw [marks, lines_map_line, List.map_map]
  rfl

end Emission

/-! ### Pieces without hidden content -/

mutual

/-- An element that is written without content has none. -/
def Piece.Tidy : Piece → Prop
  | .element head content =>
    (isVoid head.tag = true ∨ head.isEmpty = true → content = []) ∧ TidyAll content
  | .text _ | .interpolation _ => True
  | .condition _ consequent alternate => TidyBranch consequent ∧ TidyBranch alternate
  | .iteration _ body => TidyAll body
  | .scope _ body => TidyAll body

def TidyAll : List Piece → Prop
  | [] => True
  | p :: rest => p.Tidy ∧ TidyAll rest

def TidyBranch : Option (List Piece) → Prop
  | none => True
  | some ps => TidyAll ps

end

end Stencil
