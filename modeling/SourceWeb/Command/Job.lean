/-
  Jobs: computations that change the disk, show texts and may run into trouble, and sessions, which
  may ask a question before they do so.
-/
import SourceWeb.Command.Trouble
import SourceWeb.Disk.Edit

namespace SourceWeb.Command

structure Desk where
  disk : Disk
  shown : String := ""
  told : String := ""

abbrev Job (α : Type) := ExceptT Trouble (StateM Desk) α

namespace Job

def display (text : String) : Job Unit :=
  modify fun d => { d with shown := d.shown ++ text }

def tell (line : String) : Job Unit :=
  modify fun d => { d with told := d.told ++ line ++ "\n" }

def fail {α : Type} (cause : Cause) : Job α :=
  throw ⟨[], cause⟩

def ofExcept {α ε : Type} (failure : ε → Failure) : Except ε α → Job α
  | .ok a => pure a
  | .error e => fail (.failure (failure e))

def within {α : Type} (doing : String) (job : Job α) : Job α :=
  tryCatch job fun t => throw (t.within doing)

def change (f : Disk → Except OsError Disk) : Job Unit := do
  match f (← get).disk with
  | .ok disk => modify fun d => { d with disk := disk }
  | .error e => fail (.system e)

def displayLine (text : String) : Job Unit :=
  display (if Text.endsWith "\n" text then text else text ++ "\n")

def makeDir (dir : Path) : Job Unit :=
  if dir.text = "" then pure ()
  else within ("Failed to create directory " ++ dir.text) (change (·.mkdir dir))

def writeFile (path : Path) (content : String) : Job Unit := do
  match path.parent? with
  | some dir => makeDir dir
  | none => pure ()
  within ("Failed to create file " ++ path.text) (change (·.write path content.toUTF8))

end Job

/-! ### Sessions -/

structure Outcome where
  code : Nat
  shown : String
  told : String
  disk : Disk

/-- A command that is carried out: it is at its end, or it shows a question and goes on with the
    line that answers it. -/
inductive Session
  | finished (o : Outcome)
  | ask (question : String) (answer : String → Session)

namespace Session

def ofJob (quiet : Bool) (disk : Disk) (job : Job Unit) : Session :=
  let (result, desk) := job.run.run { disk := disk }
  match result with
  | .ok _ => .finished ⟨0, desk.shown, desk.told, desk.disk⟩
  | .error t =>
    let told := if !quiet || t.isLoud then desk.told ++ "Error: " ++ t.message ++ "\n" else desk.told
    .finished ⟨t.cause.exitCode, desk.shown, told, desk.disk⟩

/-- Carries out a job that writes a file, after a question if the file exists; in quiet mode, where
    nobody is asked, an existing file is trouble. -/
def overwriting (quiet : Bool) (disk : Disk) (what : String) (path : Path) (job : Job Unit) :
    Session :=
  if !disk.exists path then ofJob quiet disk job
  else if quiet then ofJob quiet disk (Job.fail (.inTheWay path))
  else
    .ask ("⚠️ " ++ what ++ " already exists at '" ++ path.text ++ "'. Overwrite? [y/N] ")
      fun answer =>
        let answer := Text.trimmed answer
        if answer = "y" ∨ answer = "Y" then ofJob quiet disk job
        else ofJob quiet disk (Job.display "Save cancelled.\n")

/-- The end of the session, where the input answers the questions line by line. -/
def feed : Session → List String → Outcome
  | finished o, _ => o
  | ask question answer, lines =>
    let o := (answer (lines.headD "")).feed lines.tail
    { o with shown := question ++ o.shown }

end Session

end SourceWeb.Command
