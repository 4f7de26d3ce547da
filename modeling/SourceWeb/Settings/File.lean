/-
  Where settings are kept, and how they are loaded and saved; where the project is.
-/
import SourceWeb.Disk.Edit
import SourceWeb.Environment
import SourceWeb.Failure
import SourceWeb.Project
import SourceWeb.Settings.Text

namespace SourceWeb.Settings

open SourceWeb.Text

/-! ### The project -/

/-- The root of the project that a run is for: the one asked for, else the one that the environment
    names, else that of the project around the first input or the current directory. -/
def projectRoot (disk : Disk) (env : Environment) (asked first : Option Path) :
    Except Failure Path :=
  match (asked.map Path.text).orElse fun _ => env.filled? "PROJECT_ROOT" with
  | some s =>
    let path := env.expandHome s
    match disk.canonical path with
    | .ok root => .ok root
    | .error e => .error (.rootNotFound path e)
  | none =>
    let start := match first with
      | some input => env.expandHome input.text
      | none => disk.herePath
    .ok (Project.rootOf disk start)

/-! ### The file of settings -/

def dirIn (root : Path) : Path :=
  root.child defaultDir

/-- Is the name of a file of settings given as a path, rather than as a name in the directory of
    settings? -/
def isPathLike (name : String) (path : Path) : Bool :=
  path.isAbsolute || path.components.length > 1 ||
    name.toList.any fun c => c == '/' || c == '\\'

/-- The path with the ending of settings where it has no ending of its own; what stands behind the
    file name gives way to it. -/
def withEnding (path : Path) : Path :=
  match path.fileName?, path.extension? with
  | some _, none => ⟨"/".intercalate (Path.dropIdle path.segments) ++ ".toml"⟩
  | _, _ => path

/-- The file of settings for a project: the one asked for, which has to exist, else the default
    one if it exists. -/
def fileFor (disk : Disk) (env : Environment) (root : Path) (asked : Option String)
    (disabled : Bool) : Except Failure (Option Path) :=
  if disabled then .ok none
  else match asked with
    | none =>
      let path := (dirIn root).child defaultName
      .ok (if disk.exists path then some path else none)
    | some name =>
      let path := env.expandHome name
      if isPathLike name path then
        let path := if disk.exists path then path else withEnding path
        if disk.exists path then .ok (some path) else .error (.settingsMissing path)
      else
        let file := if path.extension? = some "toml" then path.text else path.text ++ ".toml"
        let found := (dirIn root).child file
        if disk.exists found then .ok (some found)
        else .error (.settingsMissingIn path (dirIn root))

def load (disk : Disk) (path : Path) : Except Failure Settings :=
  match disk.readText path with
  | .error e => .error (.unreadable path e)
  | .ok text =>
    match ofText? text with
    | some s => .ok s
    | none => .error (.settingsMalformed path)

/-- Writes the default settings into a project, and gives the path of their file. -/
def saveDefault (disk : Disk) (root : Path) : Except Failure (Path × Disk) :=
  let dir := dirIn root
  let path := dir.child defaultName
  match disk.mkdir dir with
  | .error e => .error (.unwritable dir e)
  | .ok disk =>
    match disk.write path (toText {}).toUTF8 with
    | .ok disk => .ok (path, disk)
    | .error e => .error (.unwritable path e)

end SourceWeb.Settings
