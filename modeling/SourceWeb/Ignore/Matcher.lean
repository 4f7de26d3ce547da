/-
  What a run leaves out: the exclude pattern, the built-in globs and the ignore files of a project.

  The rules in force in a directory are those of its ignore file after those in force in its parent,
  up to the project root.  They are read once and remembered, so a change to an ignore file does not
  show in a directory that was asked about before.
-/
import SourceWeb.Disk.Basic
import SourceWeb.Ignore.Builtin
import SourceWeb.Ignore.Rule
import SourceWeb.Path.Normal
import SourceWeb.Pattern.Reader
import SourceWeb.Pattern.Search

namespace SourceWeb.Ignore

open SourceWeb.Text

/-! ### The exclude pattern -/

/-- A pattern that is looked for anywhere in a path from the project root, in any case. -/
structure Exclude where
  source : String
  pattern : Pattern
  deriving DecidableEq, Repr

structure BadExclude where
  source : String
  defect : Pattern.Defect
  deriving DecidableEq, Repr

namespace Exclude

/-- What is left out where nothing else is asked for: dependencies and tests. -/
def defaultSource : String :=
  "(^|/)(node_modules|tests?|__tests__|spec)(/|$)"

def ofText (source : String) : Except BadExclude Exclude :=
  match Pattern.ofText source true with
  | .ok p => .ok ⟨source, p⟩
  | .error d => .error ⟨source, d⟩

def covers (e : Exclude) (relative : String) : Bool :=
  e.pattern.isMatch relative.toList

end Exclude

/-! ### What is left out of a project -/

/-- What is to be left out of a project. -/
structure Matcher where
  projectRoot : Path
  exclude : Option Exclude
  builtin : Bool
  useIgnoreFiles : Bool
  deriving DecidableEq, Repr

abbrev RuleCache := List (Path × List Rule)

def RuleCache.get? (cache : RuleCache) (dir : Path) : Option (List Rule) :=
  (cache.find? fun e => e.1.same dir).map Prod.snd

namespace Matcher

def make (root : Path) (exclude : Option String) (useIgnoreFiles builtin : Bool) :
    Except BadExclude Matcher :=
  let source := (exclude.map trimmed).filter fun s => s != ""
  match source with
  | none => .ok ⟨root, none, builtin, useIgnoreFiles⟩
  | some s => (Exclude.ofText s).map fun e => ⟨root, some e, builtin, useIgnoreFiles⟩

/-- The path from the project root, in names and `..` with slashes between them. -/
def relative (m : Matcher) (p : Path) : String :=
  let way := (p.relativeTo? m.projectRoot).getD p
  "/".intercalate (way.components.filterMap fun c =>
    match c with
    | .name s => some s
    | .up => some ".."
    | _ => none)

/-! ### Rules -/

def localRules (m : Matcher) (disk : Disk) (dir : Path) : List Rule :=
  let file := dir.child ".gitignore"
  if disk.isFile file then
    match disk.readText file with
    | .ok content => Rule.ofFile content (m.relative dir)
    | .error _ => []
  else []

def inherits (m : Matcher) (dir : Path) : Bool :=
  !dir.same m.projectRoot && dir.startsWith m.projectRoot

/-- The rules in force in the first of a chain of directories, each the parent of the one before. -/
def rulesAlong (m : Matcher) (disk : Disk) : List Path → StateM RuleCache (List Rule)
  | [] => return []
  | dir :: above => do
    match (← get).get? dir with
    | some rules => return rules
    | none =>
      -- what is remembered of a directory holds all rules in force there
      let inherited ←
        if m.inherits dir && !above.isEmpty then rulesAlong m disk above else pure []
      let rules := inherited ++ m.localRules disk dir
      modify fun cache => cache ++ [(dir, rules)]
      return rules

def rulesFor (m : Matcher) (disk : Disk) (dir : Path) : StateM RuleCache (List Rule) :=
  if m.useIgnoreFiles then m.rulesAlong disk dir.ancestors else return []

/-! ### Paths -/

def covers (m : Matcher) (p : Path) (isDir : Bool) (rules : List Rule) : Bool :=
  let relative := m.relative p
  m.exclude.any (·.covers relative) ||
    (m.builtin && Builtin.covers relative isDir) ||
    rules.any (·.covers relative isDir)

/-- Is one of the paths that lead from `current` down through the components left out, under the
    rules in force where it stands? -/
def coversBelow (m : Matcher) (disk : Disk) : Path → List Path.Component → StateM RuleCache Bool
  | _, [] => return false
  | parent, c :: cs => do
    let current := parent.child c.text
    let isDir := !cs.isEmpty || disk.isDir current
    let rules ← m.rulesFor disk parent
    if m.covers current isDir rules then return true else coversBelow m disk current cs

/-- Is the path left out, itself or a directory between it and the project root?  Outside of the
    project no ignore file counts. -/
def isIgnored (m : Matcher) (disk : Disk) (p : Path) : StateM RuleCache Bool :=
  match Path.below? m.projectRoot p with
  | some components => m.coversBelow disk m.projectRoot components
  | none => return m.covers p (disk.isDir p) []

end Matcher

end SourceWeb.Ignore
