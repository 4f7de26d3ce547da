/-
  Carrying out command lines.
-/
import SourceWeb.Command.Completion
import SourceWeb.Command.Figures
import SourceWeb.Command.Inspection
import SourceWeb.Command.Job

namespace SourceWeb

namespace Command

/-- What a command finds around it: the disk, the variables, the time, and how many tokens a text
    has in the vocabulary. -/
structure Surroundings where
  disk : Disk
  env : Environment
  time : String
  tokens : String → Nat

/-! ### Where results go -/

def Target.path? (f : Found) (format : Format) : Target → Option Path
  | screen => none
  | file path => some path
  | saved dir => some (f.settings.savePath f.root dir format)

def emit (quiet : Bool) (f : Found) (format : Format) (target : Target) (what content : String) :
    Job Unit :=
  match target.path? f format with
  | none => Job.displayLine content
  | some path => do
    Job.writeFile path content
    if !quiet then Job.tell ("✅ " ++ what ++ " saved to: " ++ path.text)

/-! ### Commands that search -/

def search (around : Surroundings) (s : Search) (shape : Shape) : Job Found :=
  MonadExcept.ofExcept (s.run around.disk around.env shape)

def askedFormat (shape : Shape) : Job (Option Format) :=
  match shape.format with
  | none => pure none
  | some name =>
    Job.within "Invalid output format"
      (some <$> Job.ofExcept .unknownFormat (Format.ofName name))

/-- A result in the format asked for, as text where none or Markdown is asked for. -/
def inFormat (f : Found) (format : Option Format) (names : Xml.Names) (text : String) (v : Json) :
    Job String :=
  match format with
  | none | some .markdown => pure text
  | some format => Job.ofExcept .unwritableXml (format.write f.pretty names v)

def documentOf (around : Surroundings) (f : Found) (tree root time : Bool) : Bundle.Document :=
  Bundle.Document.build around.disk f.root f.report.sortedFiles
    ⟨f.name, tree, root, if time then some around.time else none⟩

def bundleJob (around : Surroundings) (quiet : Bool) (s : Search) (shape : Shape) (target : Target)
    (noTree : Bool) : Job Unit := do
  let f ← search around s shape
  let format ← Job.within "Invalid output format in configuration"
    (Job.ofExcept .unknownFormat f.settings.format)
  let o := f.settings.output
  let d := documentOf around f (o.includeTree && !noTree) o.includeProjectRoot o.includeTimestamp
  let content ← Job.ofExcept .unwritableXml (d.render format (!f.pretty))
  emit quiet f format target "Bundle" content

def listJob (around : Surroundings) (quiet : Bool) (s : Search) (shape : Shape) (target : Target)
    (absolute : Bool) : Job Unit := do
  let f ← search around s shape
  let format ← askedFormat shape
  let paths := if absolute then f.report.sortedFiles.map Path.text else f.relativeFiles
  let content ← inFormat f format ⟨"files", ""⟩ ("\n".intercalate paths) (.arr (paths.map .str))
  emit quiet f (format.getD .markdown) target "File list" content

def treeJob (around : Surroundings) (quiet : Bool) (s : Search) (shape : Shape) (target : Target) :
    Job Unit := do
  let f ← search around s shape
  let format ← askedFormat shape
  let tree := Tree.ofSorted f.name f.relativeFiles
  let content ← inFormat f format Tree.xmlNames tree.render tree.toJson
  emit quiet f (format.getD .markdown) target "Tree" content

def statsJob (around : Surroundings) (quiet : Bool) (s : Search) (shape : Shape) : Job Unit := do
  let f ← search around s shape
  let format ← askedFormat shape
  let d := documentOf around f false false false
  -- the format asked for does not count here
  if d.files.isEmpty && !quiet then
    Job.display "No text files discovered to calculate statistics.\n"
  else
    let stats := Bundle.Stats.ofFiles around.tokens d.files
    match format with
    | none | some .markdown => Job.display (Figures.render stats)
    | some format =>
      Job.displayLine (← Job.ofExcept .unwritableXml (format.write f.pretty ⟨"stats", ""⟩ stats.toJson))

def debugJob (around : Surroundings) (s : Search) (shape : Shape) : Job Unit := do
  let f ← search around s shape
  let format ← askedFormat shape
  let i := Inspection.ofFound around.disk f
  match format with
  | none | some .markdown => Job.display i.render
  | some format =>
    Job.displayLine (← Job.ofExcept .unwritableXml (format.write f.pretty ⟨"debug", ""⟩ i.toJson))

/-! ### Other commands -/

/-- Shows a completion script, or saves it where the shell looks for it. -/
def completionSession (around : Surroundings) (quiet : Bool) (asked : Option String) (save : Bool) :
    Session :=
  let name := asked.getD "fish"
  match Shell.ofName name with
  | .error f => Session.ofJob quiet around.disk (Job.fail (.failure f))
  | .ok shell =>
    if !save then Session.ofJob quiet around.disk (Job.display shell.script)
    else match shell.scriptPath? around.env with
      | none => Session.ofJob quiet around.disk (Job.fail .noScriptDir)
      | some path =>
        Session.overwriting quiet around.disk "Completion file" path do
          Job.writeFile path shell.script
          if !quiet then
            Job.display ("✅ " ++ name ++ " completions saved to: " ++ path.text ++ "\n")

def saveConfigJob (quiet : Bool) (root : Path) : Job Unit := do
  let (path, disk) ← Job.ofExcept id (Settings.saveDefault (← get).disk root)
  modify fun d => { d with disk := disk }
  if !quiet then Job.display ("✅ Default config saved to: " ++ path.text ++ "\n")

def configSession (around : Surroundings) (quiet save : Bool) (asked : Option Path) : Session :=
  match Settings.projectRoot around.disk around.env asked none with
  | .error f =>
    Session.ofJob quiet around.disk
      (Job.within "Failed to determine project root for config command" (Job.fail (.failure f)))
  | .ok root =>
    if !save then Session.ofJob quiet around.disk (Job.displayLine (Settings.toText {}))
    else
      Session.overwriting quiet around.disk "Config file"
        ((Settings.dirIn root).child Settings.defaultName) (saveConfigJob quiet root)

/-! ### Command lines -/

/-- Carries out a command. -/
def session (around : Surroundings) (quiet : Bool) : Command → Session
  | bundle s shape target noTree =>
    Session.ofJob quiet around.disk (bundleJob around quiet s shape target noTree)
  | list s shape target absolute =>
    Session.ofJob quiet around.disk (listJob around quiet s shape target absolute)
  | tree s shape target => Session.ofJob quiet around.disk (treeJob around quiet s shape target)
  | stats s shape => Session.ofJob quiet around.disk (statsJob around quiet s shape)
  | debug s shape => Session.ofJob quiet around.disk (debugJob around s shape)
  | completion shell save => completionSession around quiet shell save
  | config save root => configSession around quiet save root

def run (around : Surroundings) (words : List String) : Session :=
  match request words with
  | .misuse => .finished ⟨2, "", Help.misuse, around.disk⟩
  | .help kind => .finished ⟨0, Help.text kind, "", around.disk⟩
  | .version =>
    .finished ⟨0, Help.programName ++ " " ++ Help.programVersion ++ "\n", "", around.disk⟩
  | .run quiet command => command.session around quiet

end Command

end SourceWeb
