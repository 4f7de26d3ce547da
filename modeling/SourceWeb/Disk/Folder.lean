/-
  Folders and what they hold: files, symbolic links, further folders, and special files such as
  sockets, which are neither files nor folders and hold nothing.

  A folder is kept as the list of its entries in increasing order of their names, so a folder is
  finite together with everything below it, and functions over a whole tree recurse on its
  structure.
-/
import SourceWeb.Path.Basic

namespace SourceWeb

instance decidableEqBytes : DecidableEq ByteArray := ByteArray.instDecidableEq

/-- A folder: its first entry, then the folder of the others. -/
inductive Folder
  | empty
  | file (name : String) (content : ByteArray) (others : Folder)
  | link (name : String) (target : String) (others : Folder)
  | special (name : String) (others : Folder)
  | folder (name : String) (inside : Folder) (others : Folder)
  deriving DecidableEq, Inhabited

inductive Entry
  | file (content : ByteArray)
  | link (target : String)
  | special
  | folder (inside : Folder)
  deriving DecidableEq, Inhabited

namespace Folder

def entries : Folder → List (String × Entry)
  | empty => []
  | file name content others => (name, .file content) :: others.entries
  | link name target others => (name, .link target) :: others.entries
  | special name others => (name, .special) :: others.entries
  | folder name inside others => (name, .folder inside) :: others.entries

def get? (f : Folder) (name : String) : Option Entry :=
  f.entries.lookup name

def cons (name : String) (e : Entry) (others : Folder) : Folder :=
  match e with
  | .file content => file name content others
  | .link target => link name target others
  | .special => special name others
  | .folder inside => folder name inside others

def ofEntries (es : List (String × Entry)) : Folder :=
  es.foldr (fun e f => cons e.1 e.2 f) empty

@[simp] theorem entries_cons (name : String) (e : Entry) (f : Folder) :
    (cons name e f).entries = (name, e) :: f.entries := by
  cases e <;> rfl

/-- The entries with `name` standing for `e`, in place of what it stood for, or in its place in the
    order of names. -/
def putEntry (name : String) (e : Entry) : List (String × Entry) → List (String × Entry)
  | [] => [(name, e)]
  | (n, old) :: es =>
    if name = n then (name, e) :: es
    else if Text.precedes name n then (name, e) :: (n, old) :: es
    else (n, old) :: putEntry name e es

def put (f : Folder) (name : String) (e : Entry) : Folder :=
  ofEntries (putEntry name e f.entries)

def erase (f : Folder) (name : String) : Folder :=
  ofEntries (f.entries.filter fun e => e.1 != name)

/-- What stands at the end of a chain of names through folders; links are not followed. -/
def at? (f : Folder) : List String → Option Entry
  | [] => some (.folder f)
  | [name] => f.get? name
  | name :: names =>
    match f.get? name with
    | some (.folder inside) => inside.at? names
    | _ => none

/-- The folder with the folder at the end of a chain of names changed by `change`. -/
def modify (f : Folder) (change : Folder → Folder) : List String → Folder
  | [] => change f
  | name :: names =>
    match f.get? name with
    | some (.folder inside) => f.put name (.folder (inside.modify change names))
    | _ => f

end Folder

end SourceWeb
