import Stencil.Layout.Piece
import Stencil.Outcome

/-!
# Emissions

An engine turns pieces into emissions: lines with their nesting level, warnings, and failures for
what it cannot spell. What they come to is read off the emissions: the warnings up to the first
failure, and the text if there is none.
-/

namespace Stencil

/-- Something that an engine gives off, where `δ` holds the constructs of its lines. -/
inductive Emission (δ : Type) where
  | line (level : Nat) (content : δ)
  | warning (w : Warning)
  | failure (f : Failure)

/-- One level of indentation. -/
def indentUnit : List Char := [' ', ' ']

/-- A line of text at a nesting level, with its end. -/
def indented (level : Nat) (text : String) : String :=
  String.ofList (List.replicate level indentUnit).flatten ++ text ++ "\n"

namespace Emission

variable {δ : Type}

/-- The emissions before the first failure. -/
def untilFailure (es : List (Emission δ)) : List (Emission δ) :=
  es.takeWhile fun
    | .failure _ => false
    | _ => true

/-- The failure that an emission is. -/
def failure? : Emission δ → Option Failure
  | .failure f => some f
  | _ => none

/-- The warning that an emission is. -/
def warning? : Emission δ → Option Warning
  | .warning w => some w
  | _ => none

/-- The text that an emission contributes. -/
def text (spell : δ → String) : Emission δ → String
  | .line level content => indented level (spell content)
  | _ => ""

/-- What emissions come to, where `spell` gives the text of a construct. -/
def outcome (spell : δ → String) (es : List (Emission δ)) : Outcome String where
  warnings := (untilFailure es).filterMap warning?
  result :=
    -- The first failure counts, and nothing is printed then.
    match es.findSome? failure? with
    | some f => .error f
    | none => .ok (String.join (es.map (text spell)))

end Emission

/-- Elements that have no content and no end tag. -/
def voidTags : List String :=
  ["area", "base", "br", "col", "embed", "hr", "img", "input", "link", "meta", "param", "source",
   "track", "wbr"]

/-- The element has no content and no end tag. -/
def isVoid (tag : String) : Bool :=
  voidTags.contains tag

/-- The warning about an element whose component is being inlined already. -/
def Head.warnings {δ : Type} (h : Head) : List (Emission δ) :=
  if h.isRecursive then [.warning (.recursiveUse h.tag)] else []

end Stencil
