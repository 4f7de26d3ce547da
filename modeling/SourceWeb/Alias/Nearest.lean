/-
  Which configuration file holds the aliases for a source file: the nearest one above it within the
  project, else that of the project root.
-/
import SourceWeb.Alias.Reader
import SourceWeb.Disk.Basic

namespace SourceWeb.Alias

def configIn (disk : Disk) (dir : Path) : Option Path :=
  ([dir.child "tsconfig.json", dir.child "jsconfig.json"]).find? disk.isFile

/-- The first configuration file in a chain of directories that ends at the project root. -/
def configAlong (disk : Disk) (root : Path) : List Path → Option Path
  | [] => none
  | dir :: above =>
    match configIn disk dir with
    | some found => some found
    | none => if dir.same root then none else configAlong disk root above

def configFor (disk : Disk) (root hint : Path) : Option Path :=
  let start := if disk.isDir hint then some hint else hint.parent?
  let near := (start.filter fun s => s.startsWith root).bind fun s =>
    configAlong disk root s.ancestors
  near.orElse fun _ => configIn disk root

def load (disk : Disk) (root hint : Path) : Option AliasMap := do
  let config ← configFor disk root hint
  let content ← (disk.readText config).toOption
  ofText? content config

abbrev Cache := List (Path × Option AliasMap)

def forFile (disk : Disk) (root file : Path) : StateM Cache (Option AliasMap) := do
  let dir := file.parent?.getD root
  match (← get).find? fun e => e.1.same dir with
  | some e => return e.2
  | none =>
    let found := load disk root file
    modify fun cache => cache ++ [(dir, found)]
    return found

end SourceWeb.Alias
