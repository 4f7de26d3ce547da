/-
  The commands of the program and how they are given.
-/
import SourceWeb.Command.Arguments
import SourceWeb.Output.Format
import SourceWeb.Path.Basic

namespace SourceWeb

/-! ### What a command is asked to do -/

namespace Command

structure Search where
  inputs : List Path
  projectRoot : Option Path
  settingsFile : Option String
  noSettings : Bool
  projectName : Option String
  exclude : Option String
  noGitignore : Bool
  noBuiltinIgnore : Bool
  disabled : List String
  deriving DecidableEq, Repr

structure Shape where
  format : Option String
  minify : Option Bool
  deriving DecidableEq, Repr

inductive Target
  | screen
  | file (path : Path)
  /-- Where the settings say, or to the directory given. -/
  | saved (dir : Option Path)
  deriving DecidableEq, Repr

end Command

open SourceWeb.Command in
inductive Command
  | bundle (search : Search) (shape : Shape) (target : Target) (noTree : Bool)
  | list (search : Search) (shape : Shape) (target : Target) (absolute : Bool)
  | tree (search : Search) (shape : Shape) (target : Target)
  | stats (search : Search) (shape : Shape)
  | debug (search : Search) (shape : Shape)
  | completion (shell : Option String) (save : Bool)
  | config (save : Bool) (projectRoot : Option Path)
  deriving DecidableEq, Repr

namespace Command

/-! ### Grammars -/

def sharedOptions : List Opt :=
  [{ name := "verbose", letter := some 'v', repeats := true,
     about := "Increase message verbosity (-v, -vv, -vvv)." },
   { name := "quiet", letter := some 'q', about := "Silence informational messages and warnings." },
   { name := "help", letter := some 'h', takes := .help, about := "Print help" }]

def searchOptions : List Opt :=
  [{ name := "project-root", takes := .value, accepts := isFilled,
     about := "Base directory for root-relative resolution (default: located from the first input)." },
   { name := "context-file", takes := .value,
     about := "Specify path/filename of the TOML config file (default: .xtools/xdeps/xdeps.toml)." },
   { name := "disable-context-file", about := "Disable loading any TOML config file." },
   { name := "project-name", takes := .value,
     about := "Specify the project name (overrides config/dir name)." },
   { name := "exclude", letter := some 'e', takes := .value,
     about := "Case-insensitive exclude regex over root-relative paths (empty string disables it)." },
   { name := "no-gitignore", about := "Do not read .gitignore/.ignore files." },
   { name := "no-builtin-ignore",
     about := "Disable default built-in ignores (lock files, images, archives...)." },
   { name := "disable-language", takes := .value, repeats := true,
     about := "Leave a language plugin out of the registry (e.g., php)." }]

def shapeOptions : List Opt :=
  [{ name := "format", letter := some 'f', takes := .value,
     accepts := fun s => ["markdown", "json", "yaml", "xml"].contains s,
     about := "Set the output format." },
   { name := "enable-json-minify", about := "Ensure JSON output is compact (minified)." },
   { name := "disable-json-minify", about := "Ensure JSON output is pretty-printed [default]." }]

def targetOptions : List Opt :=
  [{ name := "output", letter := some 'o', takes := .value, accepts := isFilled,
     about := "Write the result to FILE instead of stdout." },
   { name := "save", letter := some 's', takes := .optionalValue, accepts := isFilled,
     about := "Save the result. Optional SAVE_DIR overrides config/default logic." }]

def conflicts : List (String × String) :=
  [("context-file", "disable-context-file"), ("enable-json-minify", "disable-json-minify"),
    ("output", "save")]

def searchGrammar (own : List Opt) : Grammar where
  options := sharedOptions ++ searchOptions ++ shapeOptions ++ own
  operands := true
  conflicts := conflicts

/-! ### From arguments to commands -/

def searchOf (a : Arguments) : Search where
  inputs := a.operands.map Path.mk
  projectRoot := (a.get? "project-root").map Path.mk
  settingsFile := a.get? "context-file"
  noSettings := a.has "disable-context-file"
  projectName := a.get? "project-name"
  exclude := a.get? "exclude"
  noGitignore := a.has "no-gitignore"
  noBuiltinIgnore := a.has "no-builtin-ignore"
  disabled := a.all "disable-language"

def shapeOf (a : Arguments) : Shape where
  format := a.get? "format"
  minify :=
    if a.has "disable-json-minify" then some false
    else if a.has "enable-json-minify" then some true
    else none

def targetOf (a : Arguments) : Target :=
  match a.get? "output", a.value? "save" with
  | some file, _ => .file ⟨file⟩
  | none, some dir => .saved (dir.map Path.mk)
  | none, none => .screen

/-- A kind of command: its name, its short name, what it is for, its grammar, and the command that
    arguments make of it. -/
structure Kind where
  name : String
  short : Option String
  about : String
  grammar : Grammar
  build : Arguments → Command

def kinds : List Kind :=
  [{ name := "bundle", short := some "b",
     about := "Discover dependencies and emit the bundle document."
     grammar := searchGrammar (targetOptions ++
       [{ name := "no-tree", about := "Leave the project tree out of the document." }])
     build := fun a => .bundle (searchOf a) (shapeOf a) (targetOf a) (a.has "no-tree") },
   { name := "list", short := some "l", about := "Discover dependencies and list the files found."
     grammar := searchGrammar (targetOptions ++
       [{ name := "absolute", about := "Print absolute paths instead of root-relative ones." }])
     build := fun a => .list (searchOf a) (shapeOf a) (targetOf a) (a.has "absolute") },
   { name := "tree", short := some "t",
     about := "Discover dependencies and print the project tree."
     grammar := searchGrammar targetOptions
     build := fun a => .tree (searchOf a) (shapeOf a) (targetOf a) },
   { name := "stats", short := some "m",
     about := "Line, size and token statistics for the discovered files."
     grammar := searchGrammar []
     build := fun a => .stats (searchOf a) (shapeOf a) },
   { name := "debug", short := some "d",
     about := "Show effective configuration, plugins and the discovery event log."
     grammar := searchGrammar []
     build := fun a => .debug (searchOf a) (shapeOf a) },
   { name := "completion", short := none, about := "Generate or save shell completion scripts."
     grammar := { options := sharedOptions ++
       [{ name := "shell", takes := .value,
          about := "Shell to generate completions for (fish, bash, zsh) [default: fish]" },
        { name := "save",
          about := "Save completion script to default location (prompts overwrite)." }] }
     build := fun a => .completion (a.get? "shell") (a.has "save") },
   { name := "config", short := none,
     about := "Show or save the default configuration file structure."
     grammar := { options := sharedOptions ++
       [{ name := "save",
          about := "Save default config structure to default path (prompts overwrite)." },
        { name := "project-root", takes := .value, accepts := isFilled,
          about := "Project directory to save the config into (default: located from the " ++
            "current dir)." }] }
     build := fun a => .config (a.has "save") ((a.get? "project-root").map Path.mk) }]

def kind? (word : String) : Option Kind :=
  kinds.find? fun k => k.name == word || k.short == some word

/-! ### Whole command lines -/

def frontGrammar : Grammar where
  options := sharedOptions ++
    [{ name := "version", letter := some 'V', takes := .version, about := "Print version" }]

inductive Request
  /-- It follows no grammar. -/
  | misuse
  /-- Help is asked for, with a kind of command in particular. -/
  | help (kind : Option String)
  | version
  | run (quiet : Bool) (command : Command)
  deriving DecidableEq, Repr

/-- What the words behind `help` ask for: at most one command, help itself included. -/
def helpRequest : List String → Request
  | [] | ["help"] => .help none
  | [word] =>
    match kind? word with
    | some k => .help (some k.name)
    | none => .misuse
  | _ => .misuse

def requestOf (quiet : Bool) (k : Kind) (words : List String) : Request :=
  match k.grammar.read words with
  | .error .misuse => .misuse
  | .error .help => .help (some k.name)
  | .error .version => .version
  | .ok a => .run (quiet || a.has "quiet") (k.build a)

/-- What the words of a command line ask for.  No words at all are a misuse; options without a
    command ask for help. -/
def request (words : List String) : Request :=
  match frontGrammar.readFrom true {} words with
  | .error .misuse => .misuse
  | .error .help => .help none
  | .error .version => .version
  | .ok (r, []) =>
    if r.arguments.given.isEmpty then .misuse else .help none
  | .ok (r, word :: words) =>
    if word = "help" then helpRequest words
    else match kind? word with
      | some k => requestOf (r.arguments.has "quiet") k words
      | none => .misuse

end Command

end SourceWeb
