/-
  Paths as they are spelled, and the components that a spelling denotes.

  A path keeps its spelling, because it is shown the way it was written; two paths are the same
  when they have the same components.  Repeated and trailing slashes and inner `.` segments make no
  component; a `.` at the start of a relative path does.
-/
import SourceWeb.Text.Order
import SourceWeb.Text.Split

namespace SourceWeb

open SourceWeb.Text

structure Path where
  text : String
  deriving DecidableEq, Repr, Inhabited

namespace Path

/-! ### Components -/

inductive Component
  | root
  | here
  | up
  | name (s : String)
  deriving DecidableEq, Repr

def Component.text : Component → String
  | root => "/"
  | here => "."
  | up => ".."
  | name s => s

def Component.rank : Component → Nat
  | root => 0
  | here => 1
  | up => 2
  | name _ => 3

def Component.before : Component → Component → Bool
  | name s, name t => precedes s t
  | c, d => c.rank < d.rank

def ofSegment (s : String) : Option Component :=
  if s = "" ∨ s = "." then none
  else if s = ".." then some .up
  else some (.name s)

def segments (p : Path) : List String :=
  splitChar '/' p.text

def isAbsolute (p : Path) : Bool :=
  p.text.toList.head? = some '/'

def components (p : Path) : List Component :=
  let named := p.segments.filterMap ofSegment
  if p.isAbsolute then .root :: named
  else if p.segments.head? = some "." then .here :: named
  else named

/-- Do the paths have the same components? -/
def same (p q : Path) : Bool :=
  p.components == q.components

/-- Component lists in the order of paths: component by component, names by their characters. -/
def componentsBefore : List Component → List Component → Bool :=
  listPrecedes Component.before

def before (p q : Path) : Bool :=
  componentsBefore p.components q.components

def sort (ps : List Path) : List Path :=
  ps.mergeSort fun p q => !q.before p

def isIn (p : Path) (ps : List Path) : Bool :=
  ps.any p.same

/-- The paths without those that are the same as an earlier one. -/
def distinct (ps : List Path) : List Path :=
  ps.foldl (fun found p => if p.isIn found then found else found ++ [p]) []

/-! ### Joining -/

/-- The path `q`, read from `p`: an absolute `q` replaces `p`. -/
def join (p q : Path) : Path :=
  if q.isAbsolute then q
  else if p.text = "" ∨ endsWith "/" p.text then ⟨p.text ++ q.text⟩
  else ⟨p.text ++ "/" ++ q.text⟩

def child (p : Path) (t : String) : Path :=
  p.join ⟨t⟩

def withSuffix (p : Path) (t : String) : Path :=
  ⟨p.text ++ t⟩

/-! ### Taking paths apart -/

/-- Drops the segments at the end that make no component, but never the first one. -/
def dropIdle : List String → List String
  | [] => []
  | first :: rest =>
    first :: (rest.reverse.dropWhile fun s => s = "" || s = ".").reverse

/-- The path with these segments, the first of which is empty for an absolute path. -/
def ofSegments (absolute : Bool) (segments : List String) : Path :=
  if absolute && segments.length ≤ 1 then ⟨"/"⟩ else ⟨"/".intercalate segments⟩

/-- The path without its last component; nothing is above the root or the empty path. -/
def parent? (p : Path) : Option Path :=
  match dropIdle p.segments with
  | [] => none
  | [first] => if p.isAbsolute ∨ first = "" then none else some ⟨""⟩
  | first :: rest => some (ofSegments p.isAbsolute (dropIdle (first :: rest.dropLast)))

/-- The path, its parent, the parent's parent and so on, at most `fuel` of them. -/
def ancestorsFrom : Nat → Path → List Path
  | 0, _ => []
  | fuel + 1, p =>
    match p.parent? with
    | some q => p :: ancestorsFrom fuel q
    | none => [p]

def ancestors (p : Path) : List Path :=
  ancestorsFrom (p.segments.length + 1) p

def fileName? (p : Path) : Option String :=
  match p.components.getLast? with
  | some (.name s) => some s
  | _ => none

/-- Cuts a file name at its last dot, if that is not its first character. -/
def cutName (s : String) : String × Option String :=
  let cs := s.toList
  let tail := (cs.reverse.takeWhile (· != '.')).reverse
  let body := cs.length - tail.length
  if body ≤ 1 then (s, none)
  else (String.ofList (cs.take (body - 1)), some (String.ofList tail))

def fileStem? (p : Path) : Option String :=
  p.fileName?.map fun s => (cutName s).1

def extension? (p : Path) : Option String :=
  p.fileName?.bind fun s => (cutName s).2

/-- The components of `p` that follow those of `base`, if `p` begins with these. -/
def below? (base p : Path) : Option (List Component) :=
  base.components.isPrefixOf? p.components

def startsWith (p base : Path) : Bool :=
  (below? base p).isSome

def ofComponents (cs : List Component) : Path :=
  cs.foldl (fun p c => p.child c.text) ⟨""⟩

end Path

end SourceWeb
