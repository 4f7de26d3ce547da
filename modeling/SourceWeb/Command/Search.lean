/-
  Searches as commands ask for them: settings are loaded, changed by what the command line says, and
  then references are followed from the inputs.
-/
import SourceWeb.Bundle.Document
import SourceWeb.Command.Basic
import SourceWeb.Command.Trouble
import SourceWeb.Settings.File

namespace SourceWeb.Command

/-! ### Settings -/

def addName (names : List String) (name : String) : List String :=
  if names.contains name then names else names ++ [name]

def overlay (s : Settings) (search : Search) (shape : Shape) : Settings :=
  { s with
    general := { s.general with
      projectName := search.projectName.orElse fun _ => s.general.projectName
      exclude := search.exclude.getD s.general.exclude
      useGitignore := s.general.useGitignore && !search.noGitignore
      enableBuiltinIgnore := s.general.enableBuiltinIgnore && !search.noBuiltinIgnore }
    languages := { s.languages with
      disabled := search.disabled.foldl addName s.languages.disabled }
    output := { s.output with
      format := shape.format.getD s.output.format
      jsonMinify := shape.minify.getD s.output.jsonMinify } }

def withName (s : Settings) (root : Path) : Settings :=
  { s with general := { s.general with projectName := some (s.effectiveName root) } }

def within {α : Type} (doing : String) (r : Except Trouble α) : Except Trouble α :=
  r.mapError (·.within doing)

def troubled {α ε : Type} (failure : ε → Failure) (r : Except ε α) : Except Trouble α :=
  r.mapError fun e => ⟨[], .failure (failure e)⟩

def settingsFor (disk : Disk) (env : Environment) (root : Path) (search : Search) (shape : Shape) :
    Except Trouble Settings := do
  let file ← within "Failed to resolve configuration path"
    (troubled id (Settings.fileFor disk env root search.settingsFile search.noSettings))
  let loaded ← match file with
    | some path =>
      within ("Failed to load config from " ++ path.text) (troubled id (Settings.load disk path))
    | none => .ok {}
  return withName (overlay loaded search shape) root

/-! ### Searching -/

/-- What a search finds: the root of the project, the settings, and the report of the run. -/
structure Found where
  root : Path
  settings : Settings
  report : Discovery.Report

namespace Found

def name (f : Found) : String :=
  f.settings.effectiveName f.root

def pretty (f : Found) : Bool :=
  !f.settings.output.jsonMinify

/-- The paths of the files from the project root, in the order of paths. -/
def relativeFiles (f : Found) : List String :=
  f.report.sortedFiles.map fun p => Bundle.relativeDisplay p f.root

end Found

def Search.run (disk : Disk) (env : Environment) (search : Search) (shape : Shape) :
    Except Trouble Found := do
  let root ← within "Failed to determine project root"
    (troubled id (Settings.projectRoot disk env search.projectRoot search.inputs.head?))
  let settings ← within "Failed to load configuration" (settingsFor disk env root search shape)
  let matcher ← within "Failed to build ignore rules" (troubled .badExclude (settings.matcher root))
  let setting : Discovery.Setting :=
    ⟨disk, settings.registry, matcher, settings.general.canonicalizePaths⟩
  let report ← troubled .noSeeds (Discovery.fromInputs setting .listed search.inputs)
  return ⟨root, settings, report⟩

end SourceWeb.Command
