/-!
# Liquid string literals

A Liquid literal has no escapes: it stands between two quotes of either kind and cannot hold the
quote it is written with. A text with quotes of both kinds is cut into runs that each hold one kind
at most, and the literals of the runs are joined by a filter.
-/

namespace Stencil.Liquid

/-- The character cannot go into one literal with the run. -/
def clashes (c : Char) (run : List Char) : Bool :=
  (c == '"' && run.contains '\'') || (c == '\'' && run.contains '"')

/-- Cuts a text before each character that clashes with the run in front of it, where `run` holds
the current run reversed. -/
def runsFrom (run : List Char) : List Char → List (List Char)
  | [] => [run.reverse]
  | c :: rest =>
    if clashes c run then run.reverse :: runsFrom [c] rest else runsFrom (c :: run) rest

/-- The literal of a run. -/
def runLiteral (run : List Char) : String :=
  let mark := if run.contains '"' then '\'' else '"'
  String.ofList (mark :: run ++ [mark])

/-- The filter that appends a value. -/
def appendFilter : String := " | append: "

/-- The literal of a text. -/
def literal (s : String) : String :=
  appendFilter.intercalate ((runsFrom [] s.toList).map runLiteral)

end Stencil.Liquid
