/-
  The file system: a tree of folders, files and symbolic links, the places in it that may not be
  read, and the current directory.

  A path is looked up segment by segment.  Links are followed wherever they stand, up to a limit on
  their number; every further segment, an empty one after a trailing slash included, asks for a
  directory.  Names and whole paths may not be too long, and nothing with a null byte is a path.
-/
import SourceWeb.Disk.Folder
import SourceWeb.Path.Normal
import SourceWeb.Text.Utf8

namespace SourceWeb

open SourceWeb.Text

inductive OsError
  | notFound
  | exists
  | noDevice
  | permissionDenied
  | notADirectory
  | isADirectory
  | tooManyLinks
  | nameTooLong
  | nullInPath
  | notText
  | emptyPath
  deriving DecidableEq, Repr

/-- The wording of an error, with its number where the system gives one. -/
def OsError.message : OsError → String
  | notFound => "No such file or directory (os error 2)"
  | «exists» => "File exists (os error 17)"
  | noDevice => "No such device or address (os error 6)"
  | permissionDenied => "Permission denied (os error 13)"
  | notADirectory => "Not a directory (os error 20)"
  | isADirectory => "Is a directory (os error 21)"
  | tooManyLinks => "Too many levels of symbolic links (os error 40)"
  | nameTooLong => "File name too long (os error 36)"
  | nullInPath => "file name contained an unexpected NUL byte"
  | notText => "stream did not contain valid UTF-8"
  | emptyPath => "cannot make an empty path absolute"

/-- A place in the tree: the names of the folders that lead to it, and its own name. -/
abbrev Location := List String

/-- A file system, the place of the current directory in it, and the places that may not be read: a
    file there cannot be opened and a directory not listed, but paths lead through it all the
    same. -/
structure Disk where
  root : Folder
  here : Location
  unreadable : List Location
  deriving DecidableEq, Inhabited

namespace Disk

def linkLimit : Nat := 40

/-- How many bytes a name may have. -/
def nameLimit : Nat := 255

/-- How many bytes a path may have. -/
def pathLimit : Nat := 4095

def isLongName (name : String) : Bool :=
  nameLimit < name.utf8ByteSize

def checkPath (p : Path) : Except OsError Unit :=
  if p.text.toList.contains '\x00' then .error .nullInPath
  else if p.text = "" then .error .notFound
  else if pathLimit < p.text.utf8ByteSize then .error .nameTooLong
  else .ok ()

def pathOf (at_ : Location) : Path :=
  ⟨"/" ++ "/".intercalate at_⟩

/-! ### Looking up -/

inductive Aim
  /-- What stands at the end. -/
  | find
  /-- A place at the end, where nothing need stand yet. -/
  | create
  /-- The path of the place at the end, which is spelled out name by name. -/
  | spell
  deriving DecidableEq

/-- Is a path of so many bytes too long to be asked about?  Only a look-up that spells out where it
    is asks about other paths than the one it was given. -/
def Aim.bars (aim : Aim) (size : Nat) : Bool :=
  aim = .spell && pathLimit < size

/-- How many bytes the path has that is asked about next, from a place that is no link: that of the
    next name, or the place with a slash behind it, where the segments ask for a directory. -/
def sizeAskedNext (at_ : Location) (todo : List String) : Nat :=
  match todo.find? fun s => s != "" && s != "." with
  | some s =>
    if s = ".." then (pathOf at_).text.utf8ByteSize + 1
    else (pathOf (at_ ++ [s])).text.utf8ByteSize
  | none => (pathOf at_).text.utf8ByteSize + if todo.isEmpty then 0 else 1

/-- Follows segments from a place.  A link is handed to `jump`, with the place it stands in and the
    segments that remain once its target is written in its stead. -/
def walk (root : Folder) (aim : Aim) (jump : Location → List String → Except OsError Location) :
    Location → List String → Except OsError Location
  | at_, [] => .ok at_
  | at_, s :: todo =>
    match root.at? at_ with
    | some (.folder f) =>
      if s = "" ∨ s = "." then walk root aim jump at_ todo
      else if s = ".." then walk root aim jump at_.dropLast todo
      else if isLongName s || aim.bars (pathOf (at_ ++ [s])).text.utf8ByteSize then
        .error .nameTooLong
      else match f.get? s with
        | some (.link target) =>
          jump (if Path.isAbsolute ⟨target⟩ then [] else at_) (splitChar '/' target ++ todo)
        | some _ =>
          if aim.bars (sizeAskedNext (at_ ++ [s]) todo) then .error .nameTooLong
          else walk root aim jump (at_ ++ [s]) todo
        | none => if aim = .create && todo.isEmpty then .ok (at_ ++ [s]) else .error .notFound
    | some _ => .error .notADirectory
    | none => .error .notFound

/-- Follows segments from a place, and at most `limit` links on the way. -/
def resolve (root : Folder) (aim : Aim) : Nat → Location → List String → Except OsError Location
  | 0, at_, todo => walk root aim (fun _ _ => .error .tooManyLinks) at_ todo
  | limit + 1, at_, todo => walk root aim (resolve root aim limit) at_ todo

def follow (d : Disk) (aim : Aim) (p : Path) : Except OsError Location :=
  resolve d.root aim linkLimit (if p.isAbsolute then [] else d.here) p.segments

def locateWith (d : Disk) (aim : Aim) (p : Path) : Except OsError Location := do
  checkPath p
  d.follow aim p

def locate (d : Disk) (p : Path) : Except OsError Location :=
  d.locateWith .find p

def entry? (d : Disk) (p : Path) : Except OsError Entry := do
  match d.root.at? (← d.locate p) with
  | some e => .ok e
  | none => .error .notFound

def herePath (d : Disk) : Path :=
  pathOf d.here

def «exists» (d : Disk) (p : Path) : Bool :=
  (d.entry? p).isOk

def isFile (d : Disk) (p : Path) : Bool :=
  match d.entry? p with
  | .ok (.file _) => true
  | _ => false

def isDir (d : Disk) (p : Path) : Bool :=
  match d.entry? p with
  | .ok (.folder _) => true
  | _ => false

/-- The path without links, `.` and `..` that leads to the same place.  The path that is given may
    be too long to be looked up as a whole, but what is spelled out on the way may not. -/
def canonical (d : Disk) (p : Path) : Except OsError Path :=
  match checkPath p with
  -- the path is worked off name by name and is never asked about as a whole
  | .error .nameTooLong | .ok () => (d.follow .spell p).map pathOf
  | .error e => .error e

def absolute (d : Disk) (p : Path) : Except OsError Path :=
  match Path.absoluteFrom d.herePath p with
  | some q => .ok q
  | none => .error .emptyPath

/-! ### Reading -/

def isReadable (d : Disk) (p : Path) : Bool :=
  match d.locate p with
  | .ok at_ => !d.unreadable.contains at_
  | .error _ => false

def read (d : Disk) (p : Path) : Except OsError ByteArray := do
  let e ← d.entry? p
  if d.isReadable p then
    match e with
    | .file content => .ok content
    | .special => .error .noDevice
    | _ => .error .isADirectory
  else .error .permissionDenied

def readText (d : Disk) (p : Path) : Except OsError String := do
  match decode? (← d.read p) with
  | some text => .ok text
  | none => .error .notText

def list (d : Disk) (p : Path) : Except OsError (List Path) := do
  match ← d.entry? p with
  | .folder f =>
    if d.isReadable p then .ok (f.entries.map fun e => p.child e.1) else .error .permissionDenied
  | _ => .error .notADirectory

def canList (d : Disk) (p : Path) : Bool :=
  (d.list p).isOk

def existingFile (d : Disk) (p : Path) : Option Path :=
  if d.isFile p then some p.normal else none

/-- The first regular file among the path, the path with each ending, and `index` in it with each
    ending. -/
def tryExtensions (d : Disk) (base : Path) (endings : List String) : Option Path :=
  (base :: endings.map base.withSuffix ++ endings.map (base.child "index").withSuffix).findSome?
    d.existingFile

end Disk

end SourceWeb
