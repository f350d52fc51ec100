import Stencil.Engine
import Stencil.Json.Read

/-!
# Options of a compilation

The options, and their form as JSON: an object with a member for each option that is given, or an
array with the options in their order. Members are read one by one, so of several faults in a text
the first one counts.
-/

namespace Stencil

/-- What a compilation is told. -/
structure Options where
  /-- The file that holds the source; its imports are bundled only if it is known. -/
  file : Option Path := none
  engine : Engine := Engine.standard
  /-- Goes before the template, with a line end. -/
  beginning : String := ""
  /-- Goes after the template, with a line end. -/
  ending : String := ""
  /-- The level of the outermost lines. -/
  level : Nat := 0
deriving DecidableEq

namespace Options

/-- An option. -/
inductive Field where
  | file | engine | beginning | ending | level
deriving DecidableEq, Repr

/-- The options in their order. -/
def fields : List Field :=
  [.file, .engine, .beginning, .ending, .level]

/-- The option that a key names. -/
def field? (key : String) : Option Field :=
  if key = "fileIdentity" || key = "inputFile" then some .file
  else if key = "templateEngine" then some .engine
  else if key = "beginning" then some .beginning
  else if key = "ending" then some .ending
  else if key = "initialIndentLevel" then some .level
  else none

/-- A fault in a text: the name of an unknown engine, or anything else. -/
abbrev Fault := Option String

/-- A text for an option that has to be one. -/
def text : Json.Value → Except Fault String
  | .string (some s) => .ok s
  | _ => .error none

/-- Sets an option to a value. -/
def set (o : Options) : Field → Json.Value → Except Fault Options
  | .file, .null => .ok { o with file := none }
  | .file, v => do
    let s ← text v
    .ok { o with file := some ⟨s⟩ }
  | .engine, v => do
    let s ← text v
    match Engine.ofName? s with
    | some e => .ok { o with engine := e }
    | none => .error (some s)
  | .beginning, v => do
    let s ← text v
    .ok { o with beginning := s }
  | .ending, v => do
    let s ← text v
    .ok { o with ending := s }
  -- The level is a count, so fractions and negative numbers are refused.
  | .level, .number n =>
    match n.natural? with
    | some level => .ok { o with level := level }
    | none => .error none
  | .level, _ => .error none

/-! ### Reading -/

/-- Something that must be there. -/
def need {α : Type} : Option α → Except Fault α
  | some a => .ok a
  | none => .error none

/-- The items of an array, for the options in their order, up to the closing bracket. -/
def readItems (o : Options) : List Field → List Char → Except Fault (Options × List Char)
  | [], s => do
    let s ← need (Json.take? ']' s)
    .ok (o, s)
  | f :: rest, s => do
    let (v, s) ← need (Json.Value.read? s)
    let o ← o.set f v
    -- The list may end early; the other fields keep their defaults.
    match Json.take? ']' s with
    | some s => .ok (o, s)
    | none =>
      if rest.isEmpty then .error none
      else
        let s ← need (Json.take? ',' s)
        readItems o rest s

/-- The option that a key sets; one that is set already must not be set again. -/
def unset (seen : List Field) (key : Option String) : Except Fault (Option Field) := do
  let key ← need key
  match field? key with
  | some f => if seen.contains f then .error none else .ok (some f)
  | none => .ok none

/-- The members of an object up to the closing brace, where `seen` holds the options that are set.
Keys that name no option are passed over. -/
def readMembers (o : Options) (seen : List Field) :
    Nat → List Char → Except Fault (Options × List Char)
  | 0, _ => .error none
  | fuel + 1, s => do
    let s ← need (Json.take? '"' s)
    let (key, s) ← need (Json.readText? s)
    let f ← unset seen key
    let s ← need (Json.take? ':' s)
    let (v, s) ← need (Json.Value.read? s)
    -- Unknown keys are passed over with their value.
    let o ← match f with
      | some f => o.set f v
      | none => .ok o
    match Json.take? ',' s with
    | some s => readMembers o (f.toList ++ seen) fuel s
    | none =>
      let s ← need (Json.take? '}' s)
      .ok (o, s)

/-- An object or an array of options. -/
def read (s : List Char) : Except Fault (Options × List Char) :=
  match Json.skipBlanks s with
  -- Options come as an object, or as a list of its values in order.
  | '[' :: rest =>
    match Json.take? ']' rest with
    | some rest => .ok ({}, rest)
    | none => readItems {} fields rest
  | '{' :: rest =>
    match Json.take? '}' rest with
    | some rest => .ok ({}, rest)
    | none => readMembers {} [] rest.length rest
  | _ => .error none

/-- The options of a text that holds nothing else. -/
def ofJson (s : String) : Except Failure Options :=
  match read s.toList with
  | .error fault => .error (.badOptions fault)
  | .ok (o, rest) =>
    if (Json.skipBlanks rest).isEmpty then .ok o else .error (.badOptions none)

end Options

end Stencil
