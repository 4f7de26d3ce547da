/-
  Everything about a search: the settings, the languages, the files and the events.
-/
import SourceWeb.Command.Search
import SourceWeb.Discovery.Event
import SourceWeb.Output.Table
import SourceWeb.Settings.Text

namespace SourceWeb.Command

structure Inspection where
  root : Path
  settings : Settings
  aliasFile : Option Path
  languages : List Language
  seeds : List String
  files : List String
  scanCount : Nat
  events : List Discovery.Event

namespace Inspection

def shownFrom (root p : Path) : String :=
  ((p.relativeTo? root).getD p).text

def seedsIn (events : List Discovery.Event) : List Path :=
  events.filterMap fun e =>
    match e with
    | .seeded p _ => some p
    | _ => none

def ofFound (disk : Disk) (f : Found) : Inspection where
  root := f.root
  settings := f.settings
  aliasFile := f.report.files.head?.bind fun p => Alias.configFor disk f.root p
  languages := f.settings.registry.languages
  seeds := (seedsIn f.report.events).map (shownFrom f.root)
  files := f.report.sortedFiles.map (shownFrom f.root)
  scanCount := f.report.scanCount
  events := f.report.events

/-! ### As a value -/

def languageJson (l : Language) : Json :=
  .obj [("name", .str l.name), ("extensions", .arr (l.endings.map .str)),
    ("resolves", .bool l.resolver.isSome)]

def toJson (i : Inspection) : Json :=
  .obj [
    ("project_root", .str i.root.text),
    ("effective_config", i.settings.toJson),
    ("alias_config", .optionalStr (i.aliasFile.map Path.text)),
    ("plugins", .arr (i.languages.map languageJson)),
    ("seeds", .arr (i.seeds.map .str)),
    ("discovered_files", .arr (i.files.map .str)),
    ("scan_count", .nat i.scanCount),
    ("events", .arr (i.events.map Discovery.Event.toJson))]

/-! ### As text -/

def line (s : String) : String := s ++ "\n"

def heading (title : String) : String :=
  line ("\n--- " ++ title ++ " ---")

def linesOr (absent : String) (items : List String) : String :=
  if items.isEmpty then line absent else String.join (items.map line)

def languageLine (name resolves endings : String) : String :=
  line (Column.left 14 name ++ " " ++ Column.left 9 resolves ++ " " ++ endings)

def languageLines (languages : List Language) : String :=
  languageLine "Plugin" "Resolves" "Extensions" ++
    line (String.ofList (List.replicate 65 '-')) ++
    String.join (languages.map fun l =>
      languageLine l.name (if l.resolver.isSome then "yes" else "no") (" ".intercalate l.endings))

def eventText (root : Path) (e : Discovery.Event) : String :=
  let at_ := shownFrom root
  match e with
  | .missingInput path => "missing  " ++ at_ path
  | .seeded path recognized =>
    "seed     " ++ at_ path ++ (if recognized then "" else " (not scanned)")
  | .scanned path language references =>
    "scan     " ++ at_ path ++ " [" ++ language ++ "] " ++ toString references ++ " specifier(s)"
  | .resolved source reference target via =>
    "resolve  " ++ at_ source ++ ": " ++ reference ++ " -> " ++ at_ target ++ " (" ++ via ++ ")"
  | .unresolved source reference => "miss     " ++ at_ source ++ ": " ++ reference
  | .excluded source path => "exclude  " ++ at_ source ++ ": " ++ at_ path
  | .notAFile source path => "not file " ++ at_ source ++ ": " ++ at_ path
  | .readFailed path error => "unread   " ++ at_ path ++ ": " ++ error

def render (i : Inspection) : String :=
  heading "Project Root" ++ line i.root.text ++
  heading "Effective Configuration" ++ line i.settings.toText ++
  heading "Alias Config" ++ line ((i.aliasFile.map Path.text).getD "(None found)") ++
  heading "Registered Plugins" ++ languageLines i.languages ++
  heading "Seeds" ++ linesOr "(None)" (i.seeds.map ("- " ++ ·)) ++
  heading "Discovered Files" ++ linesOr "(None)" (i.files.map ("- " ++ ·)) ++
  heading "Discovery Events" ++ linesOr "(None)" (i.events.map (eventText i.root)) ++
  line ("\nFiles scanned: " ++ toString i.scanCount) ++
  line "\n--- End Debug Info ---"

end Inspection

end SourceWeb.Command
