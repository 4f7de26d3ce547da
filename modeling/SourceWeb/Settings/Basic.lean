/-
  The settings of a project.
-/
import SourceWeb.Discovery.Run
import SourceWeb.Output.Format

namespace SourceWeb

open SourceWeb.Text

structure GeneralSettings where
  projectName : Option String := none
  exclude : String := Ignore.Exclude.defaultSource
  useGitignore : Bool := true
  enableBuiltinIgnore : Bool := true
  canonicalizePaths : Bool := true
  deriving DecidableEq, Repr, Inhabited

structure LanguageSettings where
  disabled : List String := []
  deriving DecidableEq, Repr, Inhabited

structure OutputSettings where
  format : String := "markdown"
  includeTree : Bool := true
  includeProjectRoot : Bool := true
  includeTimestamp : Bool := true
  jsonMinify : Bool := false
  deriving DecidableEq, Repr, Inhabited

structure SaveSettings where
  outputDir : String := ".xtools/xdeps/output"
  filenameBase : Option String := none
  extension : Option String := none
  deriving DecidableEq, Repr, Inhabited

structure Settings where
  general : GeneralSettings := {}
  languages : LanguageSettings := {}
  output : OutputSettings := {}
  save : SaveSettings := {}
  deriving DecidableEq, Repr, Inhabited

namespace Settings

def defaultDir : String := ".xtools/xdeps"

def defaultName : String := "xdeps.toml"

/-- The name of the project: the one set, else that of its directory. -/
def effectiveName (s : Settings) (root : Path) : String :=
  s.general.projectName.getD (root.fileName?.getD "UnknownProject")

def matcher (s : Settings) (root : Path) : Except Ignore.BadExclude Ignore.Matcher :=
  Ignore.Matcher.make root (some s.general.exclude) s.general.useGitignore
    s.general.enableBuiltinIgnore

def registry (s : Settings) : Registry :=
  Registry.builtinWithout s.languages.disabled

def format (s : Settings) : Except Format.Unknown Format :=
  Format.ofName s.output.format

/-- Where a result is saved: in the directory given, else in the one set, read from the project
    root. -/
def savePath (s : Settings) (root : Path) (dir : Option Path) (format : Format) : Path :=
  let dir := root.join (dir.getD ⟨s.save.outputDir⟩)
  let base := s.save.filenameBase.getD "xdeps_bundle"
  let ending := dropLeading '.' (s.save.extension.getD format.extension)
  dir.child (base ++ "." ++ ending)

end Settings

end SourceWeb
