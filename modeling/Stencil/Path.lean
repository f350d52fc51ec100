import Stencil.Text.Search
import Stencil.Text.Visible

/-!
# Paths

A path is kept as it was written and compared by its components: repeated separators, a separator at
the end and inner `.` components make no difference. A `..` component is never folded away, because
what it means depends on the directory before it.
-/

namespace Stencil

/-- A path, as written. -/
structure Path where
  text : String
deriving DecidableEq, Repr

namespace Path

/-- A component of a path. A current-directory component stands only at the start of a relative
path. -/
inductive Component where
  | root
  | current
  | parent
  | name (text : String)
deriving DecidableEq, Repr

/-- The pieces between the separators. -/
def pieces (p : Path) : List String :=
  (Text.splitAt '/' p.text.toList).map String.ofList

/-- The path starts at the root directory. -/
def isAbsolute (p : Path) : Bool :=
  Text.startsWith p.text "/"

/-- The component that a piece after the first spells, if it spells one. -/
def component? (piece : String) : Option Component :=
  if piece = "" || piece = "." then none
  else if piece = ".." then some .parent
  else some (.name piece)

/-- The components of a path. -/
def components (p : Path) : List Component :=
  match p.pieces with
  | [] => []
  | first :: rest =>
    let start :=
      if p.isAbsolute then [.root]
      else if first = "." then [.current]
      else (component? first).toList
    start ++ rest.filterMap component?

/-- Two spellings of one path. -/
def same (p q : Path) : Bool :=
  p.components == q.components

/-- Paths are the same if their components are. -/
theorem same_iff {p q : Path} : p.same q = true ↔ p.components = q.components := beq_iff_eq

/-- Every path is the same as itself. -/
@[simp] theorem same_self (p : Path) : p.same p = true := same_iff.2 rfl

/-- It does not matter which one is named first. -/
theorem same_comm (p q : Path) : p.same q = q.same p := by
  rw [Bool.eq_iff_iff, same_iff, same_iff, eq_comm]

theorem same_trans {p q r : Path} (hpq : p.same q = true) (hqr : q.same r = true) :
    p.same r = true :=
  same_iff.2 ((same_iff.1 hpq).trans (same_iff.1 hqr))

/-- Two spellings of one path are compared with a third one alike. -/
theorem same_congr {p q : Path} (h : p.same q = true) (r : Path) : p.same r = q.same r := by
  rw [Bool.eq_iff_iff, same_iff, same_iff, same_iff.1 h]

/-! ### Order -/

/-- The order of components: root, current, parent, then names by code point. -/
def Component.less : Component → Component → Bool
  | .root, .root => false
  | .root, _ => true
  | .current, .root | .current, .current => false
  | .current, _ => true
  | .parent, .name _ => true
  | .parent, _ => false
  | .name a, .name b => a < b
  | .name _, _ => false

/-- The order of component lists: the first difference decides, and a beginning comes first. -/
def lessComponents : List Component → List Component → Bool
  | _, [] => false
  | [], _ :: _ => true
  | a :: as, b :: bs => a.less b || (a == b && lessComponents as bs)

/-- The path comes strictly before the other one. -/
def less (p q : Path) : Bool :=
  lessComponents p.components q.components

/-! ### Parents, names and extensions -/

/-- A piece after the first that spells no component. -/
def isIdle (piece : String) : Bool :=
  piece = "" || piece = "."

/-- Drops the idle pieces at the end, the first piece aside. -/
def dropIdle : List String → List String
  | [] => []
  | first :: rest => first :: (rest.reverse.dropWhile isIdle).reverse

/-- The path of a list of pieces. -/
def ofPieces (absolute : Bool) (pieces : List String) : Path :=
  let text := "/".intercalate pieces
  ⟨if absolute && text = "" then "/" else text⟩

/-- The path without separators at its end; the root directory keeps its own. -/
def dropTrailing (p : Path) : Path :=
  let text := String.ofList (p.text.toList.reverse.dropWhile (· == '/')).reverse
  ⟨if p.isAbsolute && text = "" then "/" else text⟩

/-- The path without its last component. The root directory and the empty path have no parent. -/
def parent? (p : Path) : Option Path :=
  match p.components.getLast? with
  | none | some .root => none
  | some _ => some (ofPieces p.isAbsolute (dropIdle (dropIdle p.pieces).dropLast))

/-- The path itself, its parent, the parent of that and so on, `bound` of them at most. -/
def ancestorsUpTo : Nat → Path → List Path
  | 0, _ => []
  | bound + 1, p =>
    -- A parent has one component less, so the components bound the chain.
    p :: match p.parent? with
      | some q => ancestorsUpTo bound q
      | none => []

/-- The path itself, its parent, the parent of that and so on. -/
def ancestors (p : Path) : List Path :=
  ancestorsUpTo (p.components.length + 1) p

/-- The path `q` as seen from the directory `p`. -/
def join (p : Path) (q : String) : Path :=
  -- An absolute path is the same from everywhere.
  if Text.startsWith q "/" then ⟨q⟩
  else if p.text = "" || Text.endsWith p.text "/" then ⟨p.text ++ q⟩
  else ⟨p.text ++ "/" ++ q⟩

/-- The last component, if it is a name. -/
def fileName? (p : Path) : Option String :=
  match p.components.getLast? with
  | some (.name n) => some n
  | _ => none

/-- A file name divided at its last dot; a dot in front does not divide. -/
def splitName (name : String) : String × Option String :=
  let back := name.toList.reverse
  let extension := back.takeWhile (· != '.')
  match back.drop extension.length with
  | _ :: stem =>
    -- The only dot is in front, so all of it is the name.
    if stem.isEmpty then (name, none)
    else (String.ofList stem.reverse, some (String.ofList extension.reverse))
  | [] => (name, none)

/-- What stands after the last dot of the file name. -/
def extension? (p : Path) : Option String :=
  p.fileName?.bind fun n => (splitName n).2

/-- The path with another extension of its file name. -/
def withExtension (p : Path) (extension : String) : Path :=
  match p.fileName? with
  | none => p
  | some n =>
    let stem := (splitName n).1
    ofPieces p.isAbsolute ((dropIdle p.pieces).dropLast ++ [stem ++ "." ++ extension])

/-! ### Paths in messages -/

/-- The spelling of one character of a path in a warning. -/
def quotedChar (c : Char) : String :=
  if c = '"' || c = '\'' || c = '\\' then String.ofList ['\\', c]
  else if c = '\n' then "\\n"
  else if c = '\r' then "\\r"
  else if c = '\t' then "\\t"
  else if c.toNat = 0 then "\\0"
  else if Text.isVisible c then String.singleton c
  else "\\u\x7b" ++ String.ofList (Nat.toDigits 16 c.toNat) ++ "\x7d"

/-- An optional path in a warning. -/
def quotedOption : Option Path → String
  | none => "None"
  | some p => "Some(\"" ++ String.join (p.text.toList.map quotedChar) ++ "\")"

end Path

/-- Two optional paths are both missing or two spellings of one path. -/
def samePath : Option Path → Option Path → Bool
  | none, none => true
  | some p, some q => p.same q
  | _, _ => false

/-- Paths that may be absent are compared by their components too. -/
theorem samePath_iff {a b : Option Path} :
    samePath a b = true ↔ a.map Path.components = b.map Path.components := by
  cases a with
  | none => cases b <;> simp [samePath]
  | some p =>
    cases b with
    | none => simp [samePath]
    | some q => rw [samePath, Path.same_iff, Option.map_some, Option.map_some, Option.some.injEq]

end Stencil
