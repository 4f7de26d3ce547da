/-
  Changing the file system: writing files, making directories and links, removing entries.
-/
import SourceWeb.Disk.Basic

namespace SourceWeb.Disk

def putAt (d : Disk) (at_ : Location) (e : Entry) : Disk :=
  match at_.getLast? with
  | some name => { d with root := d.root.modify (·.put name e) at_.dropLast }
  | none => d

def placeOfParent (d : Disk) (p : Path) : Except OsError Location :=
  match p.parent? with
  | some parent => if parent.text = "" then .ok d.here else d.locate parent
  | none => .ok []

/-- Writes a file; its directory has to exist, and its name cannot end in a slash. -/
def write (d : Disk) (p : Path) (content : ByteArray) : Except OsError Disk := do
  checkPath p
  if Text.endsWith "/" p.text then
    match d.root.at? (← d.placeOfParent p) with
    | some (.folder _) => .error .isADirectory
    | _ => .error .notADirectory
  else
    let at_ ← d.locateWith .create p
    match d.root.at? at_ with
    | some (.folder _) => .error .isADirectory
    | some .special => .error .noDevice
    | _ => .ok (d.putAt at_ (.file content))

/-- Puts an entry under a new name; the directory that holds it has to exist. -/
def putNew (d : Disk) (p : Path) (e : Entry) : Except OsError Disk := do
  checkPath p
  match p.fileName? with
  | some name =>
    let at_ ← d.placeOfParent p
    match d.root.at? at_ with
    | some (.folder f) =>
      if isLongName name then .error .nameTooLong
      else if (f.get? name).isSome then .error .exists
      else .ok (d.putAt (at_ ++ [name]) e)
    | some _ => .error .notADirectory
    | none => .error .notFound
  | none => if d.exists p then .error .exists else .error .notFound

/-- Makes the directories `ps`, the innermost first; each needs those after it. -/
def mkdirChain (d : Disk) : List Path → Except OsError Disk
  | [] => .ok d
  | p :: ps =>
    if p.text = "" then .ok d
    else match d.putNew p (.folder .empty) with
      | .ok d => .ok d
      -- the directory above is missing, and is made first
      | .error .notFound => do
        let d ← mkdirChain d ps
        match d.putNew p (.folder .empty) with
        | .ok d => .ok d
        | .error e => if d.isDir p then .ok d else .error e
      | .error e => if d.isDir p then .ok d else .error e

def mkdir (d : Disk) (p : Path) : Except OsError Disk :=
  d.mkdirChain p.ancestors

/-- Removes what a path names: a file, a link, or a directory with everything in it. -/
def remove (d : Disk) (p : Path) : Except OsError Disk := do
  checkPath p
  match p.fileName? with
  | some name =>
    let at_ ← d.placeOfParent p
    match d.root.at? at_ with
    | some (.folder f) =>
      if (f.get? name).isSome then .ok { d with
        root := d.root.modify (·.erase name) at_
        unreadable := d.unreadable.filter fun place => !(at_ ++ [name]).isPrefixOf place }
      else .error .notFound
    | some _ => .error .notADirectory
    | none => .error .notFound
  | none => .error .notFound

def leaves : Folder → List Location
  | .empty => []
  | .file name _ others => [name] :: leaves others
  | .link name _ others | .special name others => [name] :: leaves others
  | .folder name inside others => (leaves inside).map (name :: ·) ++ leaves others

/-! ### Whole trees -/

/-- The folder with the folder at the end of a chain of names replaced by `inside`; folders that
    are missing on the way are made. -/
def plantIn (inside : Folder) : Location → Folder → Folder
  | [], _ => inside
  | name :: names, f =>
    let below := match f.get? name with
      | some (.folder g) => g
      | _ => .empty
    f.put name (.folder (plantIn inside names below))

def plant (d : Disk) (at_ : Location) (inside : Folder) : Disk :=
  { d with root := plantIn inside at_ d.root }

def filesIn : Folder → List (Location × ByteArray)
  | .empty => []
  | .file name content others => ([name], content) :: filesIn others
  | .link _ _ others | .special _ others => filesIn others
  | .folder name inside others =>
    (filesIn inside).map (fun f => (name :: f.1, f.2)) ++ filesIn others

/-- The files of a disk that were not on another one, or held something else there. -/
def changesSince (d old : Disk) : List (Path × ByteArray) :=
  (filesIn d.root).filterMap fun (at_, content) =>
    match old.root.at? at_ with
    | some (.file before) => if before = content then none else some (pathOf at_, content)
    | _ => some (pathOf at_, content)

end SourceWeb.Disk
