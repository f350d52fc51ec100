import Stencil.Path

/-!
# Failures

Every cause for which a compilation stops, with its stable code and its message. The same input
always fails the same way.
-/

namespace Stencil

/-- Why a file could not be read or written. -/
inductive Access where
  | missing
  | notDirectory
  | isDirectory
  | exists
  /-- More links on the way than a walk follows. -/
  | tooManyLinks
  /-- The content is not valid UTF-8. -/
  | notText
deriving DecidableEq, Repr

/-- The reason in words. -/
def Access.reason : Access → String
  | .missing => "No such file or directory (os error 2)"
  | .notDirectory => "Not a directory (os error 20)"
  | .isDirectory => "Is a directory (os error 21)"
  | .exists => "File exists (os error 17)"
  | .tooManyLinks => "Too many levels of symbolic links (os error 40)"
  | .notText => "stream did not contain valid UTF-8"

/-- Why a compilation stops. -/
inductive Failure where
  /-- The source of a module is malformed. -/
  | malformedModule (file : String)
  /-- The code of an expression is malformed. -/
  | malformedCode (code : String)
  /-- An expression that an engine has no words for. -/
  | unsupported (kind name : String)
  /-- An import specifier that no file answers to. -/
  | unresolved (specifier : String) (importer : Path)
  | inaccessible (path : Path) (cause : Access)
  /-- A directory tree that cannot be walked. -/
  | unwalkable (path : Path) (cause : Access)
  /-- A module without a default exported component. -/
  | noDefault (file : String)
  | unknownEngine (name : String)
  /-- Malformed options; the engine is named if it is what they fail at. -/
  | badOptions (engine : Option String)
deriving DecidableEq, Repr

/-- A stable name for the kind of failure. -/
def Failure.code : Failure → String
  | .malformedModule _ | .malformedCode _ => "UR-ERR-PARSE"
  | .unsupported _ _ => "UR-ERR-UNSUPPORTED"
  | .unresolved _ _ => "UR-ERR-RESOLUTION"
  | .inaccessible _ _ | .unwalkable _ _ => "UR-ERR-IO"
  | .noDefault _ => "UR-ERR-NO-DEFAULT-EXPORT"
  | .unknownEngine _ => "UR-ERR-UNKNOWN-ENGINE"
  | .badOptions _ => "UR-ERR-CONFIG"

/-- The message about an unknown engine. -/
def unknownEngineMessage (name : String) : String :=
  "unknown code generator for " ++ name

/-- What there is to say about a failure; options may be malformed in too many ways to tell. -/
def Failure.message? : Failure → Option String
  | .malformedModule file => some ("Failed to parse " ++ file)
  | .malformedCode code =>
    some ("Failed to parse <expression>: invalid expression `" ++ code ++ "`")
  | .unsupported kind name => some ("Unsupported " ++ kind ++ " \"" ++ name ++ "\"")
  | .unresolved specifier importer =>
    some ("Cannot resolve \"" ++ specifier ++ "\" from " ++ importer.text)
  | .inaccessible path cause =>
    some ("Failed to access " ++ path.text ++ ": " ++ cause.reason)
  -- The cause of this failure names the path a second time.
  | .unwalkable path cause =>
    some ("Failed to access " ++ path.text ++ ": IO error for operation on " ++ path.text ++ ": "
      ++ cause.reason)
  | .noDefault file => some ("No default exported component found in " ++ file)
  | .unknownEngine name => some (unknownEngineMessage name)
  | .badOptions (some engine) => some ("Invalid compile options: " ++ unknownEngineMessage engine)
  | .badOptions none => none

end Stencil
