/-
  The program: it takes in the directories that a command line speaks of, carries the command line
  out on them, and writes the files that this changed.
-/
import SourceWeb.Command.Run
import SourceWeb.Output.Moment
import Std.Time.DateTime.Timestamp

namespace SourceWeb.Program

/-! ### Taking in -/

def takeVariables : IO Environment := do
  let names := ["HOME", "PROJECT_ROOT", "XDG_CONFIG_HOME", "XDG_DATA_HOME"]
  let values ← names.mapM fun name => return (name, ← IO.getEnv name)
  return values.filterMap fun (name, value) => value.map fun v => (name, v)

def namesOf (path : String) : Location :=
  (Path.mk path).segments.filter fun s => s != ""

/-- Takes in a directory that stands at a place, with everything below it if `deep` says so;
    otherwise the directories in it are empty, and so are its files.  The places that cannot be
    read are noted. -/
partial def takeFolder (deep : Bool) (at_ : Location) (dir : String) :
    StateT (List Location) IO Folder := do
  try
    let entries ← (← IO.FS.realPath dir).readDir
    entries.foldlM (fun f e => try takeEntry f e catch _ => pure f) Folder.empty
  catch _ =>
    modify (at_ :: ·)
    return .empty
where
  /-- Adds one entry of the directory. -/
  takeEntry (f : Folder) (e : IO.FS.DirEntry) : StateT (List Location) IO Folder := do
    let name := e.fileName
    match (← e.path.symlinkMetadata).type with
    | .dir =>
      let inside ← if deep then takeFolder true (at_ ++ [name]) e.path.toString else pure .empty
      return f.put name (.folder inside)
    | .file => return f.put name (.file (← if deep then takeFile name e else pure .empty))
    | .symlink => return f.put name (.link (← IO.FS.realPath e.path).toString)
    | .other => return f.put name .special
  takeFile (name : String) (e : IO.FS.DirEntry) : StateT (List Location) IO ByteArray := do
    try IO.FS.readBinFile e.path
    catch _ =>
      modify ((at_ ++ [name]) :: ·)
      return .empty

def takeDir (deep : Bool) (disk : Disk) (dir : Path) : IO Disk := do
  let at_ := namesOf dir.text
  let (inside, unreadable) ← (takeFolder deep at_ dir.text).run []
  let disk := disk.plant at_ inside
  return { disk with unreadable := unreadable ++ disk.unreadable }

def takeChain (disk : Disk) (dir : Path) : IO Disk :=
  dir.ancestors.foldrM (fun dir disk =>
    match disk.root.at? (namesOf dir.text) with
    | some (.folder .empty) | none => takeDir false disk dir
    | _ => return disk) disk

def takeTree (disk : Disk) (dir : Path) : IO Disk :=
  if (namesOf dir.text).isEmpty then return disk else takeDir true disk dir

def dirsOf (words : List String) : IO (List Path) := do
  let found ← words.mapM fun word => do
    let spelled := ((Text.splitChar '=' word).getLast?).getD word
    try
      let path ← IO.FS.realPath spelled
      let path' := Path.mk path.toString
      if ← path.isDir then return some path' else return path'.parent?
    catch _ => return none
  return found.filterMap id

/-- Takes in the directories that a command line and the variables speak of: the projects around
    them, and what stands above these. -/
def takeDisk (env : Environment) (words : List String) : IO Disk := do
  let here := (← IO.FS.realPath (← IO.currentDir)).toString
  let named ← dirsOf (words ++ env.map Prod.snd)
  let dirs := Path.mk here :: named
  let scripts := [env.configDir?, env.dataDir?].filterMap id
  let disk ← (dirs ++ scripts).foldlM takeChain ⟨.empty, namesOf here, []⟩
  let inputs ← dirsOf (words ++ ["."] ++ (env.filled? "PROJECT_ROOT").toList)
  (inputs ++ inputs.map (Project.rootOf disk)).foldlM takeTree disk

/-! ### Carrying out -/

def writeChanges (before after : Disk) : IO Unit :=
  (after.changesSince before).forM fun (path, content) => do
    if let some dir := path.parent? then IO.FS.createDirAll dir.text
    IO.FS.writeBinFile path.text content

def converse : Command.Session → IO Command.Outcome
  | .finished o => return o
  | .ask question answer => do
    let out ← IO.getStdout
    out.putStr question
    out.flush
    let line ← (← IO.getStdin).getLine
    converse (answer line)

/-- How many tokens a text may have: the vocabulary is not at hand, but a token covers a byte at
    least. -/
def tokensOf (text : String) : Nat :=
  text.utf8ByteSize

def carryOut (words : List String) : IO UInt32 := do
  let env ← takeVariables
  let disk ← takeDisk env words
  let now ← Std.Time.Timestamp.now
  let time := Moment.text now.toSecondsSinceUnixEpoch.val.toNat
  let o ← converse (Command.run ⟨disk, env, time, tokensOf⟩ words)
  writeChanges disk o.disk
  IO.print o.shown
  IO.eprint o.told
  return o.code.toUInt32

end SourceWeb.Program

def main (words : List String) : IO UInt32 :=
  SourceWeb.Program.carryOut words
