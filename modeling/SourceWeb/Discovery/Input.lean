/-
  From the inputs of a run to the files it starts from.
-/
import SourceWeb.Discovery.Run

namespace SourceWeb.Discovery

open SourceWeb.Ignore (RuleCache)

inductive SeedOrder
  /-- As the directory lists them. -/
  | listed
  /-- In the order of paths, each input for itself. -/
  | sorted
  deriving DecidableEq, Repr

/-- The files of the inputs so far, the inputs that lead nowhere, and what was read of the ignore
    files. -/
structure Seeds where
  files : List Path
  missing : List Event
  rules : RuleCache

def Seeds.add (s : Setting) (order : SeedOrder) (seeds : Seeds) (input : Path) : Seeds :=
  let input := s.identity input
  if s.disk.exists input then
    let (walked, rules) := (s.matcher.walk s.disk input).run seeds.rules
    let found := walked.map s.identity
    let found := match order with
      | .listed => found
      | .sorted => Path.sort found
    { seeds with files := found.foldl State.addPath seeds.files, rules := rules }
  else { seeds with missing := seeds.missing ++ [.missingInput input] }

def seedsOf (s : Setting) (order : SeedOrder) (inputs : List Path) : Seeds :=
  inputs.foldl (Seeds.add s order) ⟨[], [], []⟩

structure NoSeeds where
  inputs : List Path
  deriving DecidableEq, Repr

/-- The run from inputs, which may be directories.  It fails only if there are inputs and none of
    them leads anywhere. -/
def fromInputs (s : Setting) (order : SeedOrder) (inputs : List Path) : Except NoSeeds Report :=
  let seeds := seedsOf s order inputs
  if !inputs.isEmpty && seeds.missing.length = inputs.length then .error ⟨inputs⟩
  else .ok (discover s seeds.files seeds.missing seeds.rules)

def hasDirectory (s : Setting) (inputs : List Path) : Bool :=
  inputs.any fun p => s.disk.isDir (s.identity p)

end SourceWeb.Discovery
