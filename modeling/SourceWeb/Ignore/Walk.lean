/-
  The files below a directory that a run does not leave out.

  Directories that are left out or cannot be listed are not entered, and links to directories are
  not followed; a link to a file counts as a file.
-/
import SourceWeb.Ignore.Matcher

namespace SourceWeb.Ignore.Matcher

def prunes (m : Matcher) (disk : Disk) (p : Path) (isDir : Bool) : StateM RuleCache Bool :=
  match p.parent? with
  | some parent => return m.covers p isDir (← m.rulesFor disk parent)
  | none => return false

/-- The files in a folder that the path `dir` leads to, in the order of the folder. -/
def walkFolder (m : Matcher) (disk : Disk) (dir : Path) : Folder → StateM RuleCache (List Path)
  | .empty => return []
  | .file name _ others => do
    let p := dir.child name
    let here := if ← m.prunes disk p false then [] else [p]
    return here ++ (← walkFolder m disk dir others)
  | .link name _ others => do
    let p := dir.child name
    -- a link is no directory to go into, and is asked about as a file even if it leads to one
    let here := if ← m.prunes disk p false then [] else if disk.isFile p then [p] else []
    return here ++ (← walkFolder m disk dir others)
  | .special name others => do
    -- the rules above it are remembered all the same
    let _ ← m.prunes disk (dir.child name) false
    walkFolder m disk dir others
  | .folder name inside others => do
    let p := dir.child name
    let here ←
      if ← m.prunes disk p true then pure []
      else if disk.canList p then walkFolder m disk p inside
      else pure []
    return here ++ (← walkFolder m disk dir others)

/-- The files that a path stands for: a file itself, whatever the matcher says, and the files below
    a directory. -/
def walk (m : Matcher) (disk : Disk) (p : Path) : StateM RuleCache (List Path) :=
  match disk.entry? p with
  | .ok (.file _) => return [p]
  | .ok (.folder f) => if disk.canList p then m.walkFolder disk p f else return []
  | _ => return []

end SourceWeb.Ignore.Matcher
