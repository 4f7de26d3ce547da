/-
  Go: single imports and groups of imports.  A package is a directory, and its first source file
  that is no test stands for it.
-/
import SourceWeb.Language.Basic

namespace SourceWeb.Language.Go

open SourceWeb.Text
open SourceWeb.Pattern

/-! ### Finding references -/

def singleImport : Pattern :=
  all [lineStart, gap, text "import", gap1,
    optional (all [many1 (wordOr "."), gap1]),
    text "\"", group 1 (many1 (noneOf "\"")), text "\""]

def importGroup : Pattern :=
  all [wordEdge, text "import", gap, text "(", group 1 (manyLazy (set .all)), text ")"]

def quotedPath : Pattern :=
  all [text "\"", group 1 (many1 (noneOf "\"\n")), text "\""]

def moduleLine : Pattern :=
  all [lineStart, text "module", gap1, group 1 (many1 (set (.compl .blank)))]

def scan (content : String) : List Reference :=
  let cs := content.toList
  Reference.distinct <| List.map (.kinded "package") <|
    captured singleImport cs ++
    (importGroup.findAll cs).flatMap fun m => captured quotedPath (m.group 1)

/-! ### Looking up -/

/-- The nearest directory with a module file at or above that of the file, and the module's path. -/
def enclosingModule (disk : Disk) (site : Site) : Option (Path × String) := do
  let dirs := site.dir.ancestors.takeWhile fun dir => dir.startsWith site.projectRoot
  let dir ← dirs.find? fun dir => disk.isFile (dir.child "go.mod")
  let manifest ← (disk.readText (dir.child "go.mod")).toOption
  let found ← moduleLine.find? manifest.toList
  return (dir, String.ofList (found.group 1))

def isSource (p : Path) : Bool :=
  match p.fileName? with
  | some name => endsWith ".go" name && !endsWith "_test.go" name
  | none => false

def packageFile (disk : Disk) (dir : Path) : Option Path := do
  let entries ← (disk.list dir).toOption
  let sources := Path.sort (entries.filter fun p => disk.isFile p && isSource p)
  sources.head?.map Path.normal

def resolve (disk : Disk) (site : Site) (target : String) : Option Path := do
  let dir ←
    if Path.isRelativeReference target then some (site.dir.child target).normal
    else do
      let (root, module) ← enclosingModule disk site
      if target = module then some root
      else (afterStart (module ++ "/") target).map root.child
  packageFile disk dir

end Go

def go : Language where
  name := "go"
  endings := [".go"]
  scan := fun _ => Go.scan
  resolver := some <| resolverFor [".go"] <| resolverOfKind "package" Go.resolve

end SourceWeb.Language
