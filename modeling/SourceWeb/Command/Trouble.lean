/-
  What stops a command, how it is told, and the exit code that it leads to.
-/
import SourceWeb.Failure

namespace SourceWeb.Command

inductive Cause
  | failure (f : Failure)
  | system (e : OsError)
  /-- A file stands where one is to be written, and nobody may be asked about it. -/
  | inTheWay (path : Path)
  /-- There is no directory for completion scripts. -/
  | noScriptDir
  deriving DecidableEq, Repr

structure Trouble where
  doing : List String
  cause : Cause
  deriving DecidableEq, Repr

namespace Cause

def messages : Cause → List String
  | failure f => f.message :: f.causeMessage?.toList
  | system e => [e.message]
  | inTheWay path =>
    ["Target file '" ++ path.text ++ "' exists. Overwrite prevented in quiet mode."]
  | noScriptDir => ["Could not determine standard completion directory."]

def exitCode : Cause → Nat
  | failure f =>
    match f with
    | .settingsMissing _ | .settingsMissingIn _ _ | .settingsMalformed _ => 1
    | .rootNotFound _ _ | .unreadable _ _ | .unwritable _ _ => 2
    | .noSeeds _ => 3
    | .badExclude _ | .unknownFormat _ | .unknownShell _ => 5
    | .unwritableXml _ => 6
  | system _ | inTheWay _ | noScriptDir => 1

end Cause

namespace Trouble

/-- The trouble as it is told on one line, or on several if a cause takes several. -/
def message (t : Trouble) : String :=
  ": ".intercalate (t.doing ++ t.cause.messages)

def within (doing : String) (t : Trouble) : Trouble :=
  { t with doing := doing :: t.doing }

def isLoud (t : Trouble) : Bool :=
  t.cause.exitCode = 1 || t.cause.exitCode = 5

end Trouble

end SourceWeb.Command
