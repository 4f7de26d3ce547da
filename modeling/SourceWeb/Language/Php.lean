/-
  PHP: included files, and classes brought in by `use` and found through the name spaces that the
  project declares.
-/
import SourceWeb.Json.Reader
import SourceWeb.Language.Basic

namespace SourceWeb.Language.Php

open SourceWeb.Text
open SourceWeb.Pattern

/-! ### Finding references -/

/-- An inclusion, whose path may be written behind the directory of the file. -/
def inclusion : Pattern :=
  all [wordEdge, choice [text "require", text "include"], optional (text "_once"), blanks,
    optional (text "("), blanks, optional (group 1 (all [text "__DIR__", blanks, text ".", blanks])),
    quote, group 2 (many1 (noneOf "\"'\n")), quote]

/-- A class brought in on a line of its own, perhaps under another name. -/
def useLine : Pattern :=
  all [lineStart, gap, text "use", gap1, optional (text "\\"),
    group 1 (all [set (.unionAll [.range 'A' 'Z', .range 'a' 'z', .oneOf ['_']]),
      many (wordOr "\\")]),
    optional (all [gap1, text "as", gap1, many1 (set .word)]), gap, text ";"]

def inclusionRef (m : Match) : Reference :=
  let target := m.group 2
  if (m.group? 1).isSome then
    .kinded "include" (String.ofList ("./".toList ++ target.dropWhile (· == '/')))
  else .kinded "include" (String.ofList target)

def scan (content : String) : List Reference :=
  let cs := content.toList
  Reference.distinct <|
    (inclusion.findAll cs).map inclusionRef ++
    (useLine.findAll cs).map fun m => .kinded "namespace" (String.ofList (m.group 1))

/-! ### Name spaces -/

def declaredDirs (root : Path) : Json → Option (List Path)
  | .str dir => some [root.child dir]
  | .arr items => some (items.filterMap fun v => v.str?.map root.child)
  | _ => none

def sectionSpaces (root : Path) (manifest : Json) (section_ : String) :
    List (String × List Path) :=
  match ((manifest.get? section_).bind fun v => v.get? "psr-4").bind Json.members? with
  | some members =>
    members.filterMap fun (space, dirs) => (declaredDirs root dirs).map fun ps => (space, ps)
  | none => []

/-- The name spaces that the manifest of the project declares, with their directories, those with
    longer names first. -/
def nameSpaces (disk : Disk) (root : Path) : List (String × List Path) :=
  match (disk.readText (root.child "composer.json")).toOption.bind Json.ofText? with
  | some manifest =>
    (sectionSpaces root manifest "autoload" ++ sectionSpaces root manifest "autoload-dev").mergeSort
      fun a b => a.1.utf8ByteSize ≥ b.1.utf8ByteSize
  | none => []

/-! ### Looking up -/

def spaceFile (disk : Disk) (class_ : String) (space : String × List Path) : Option Path :=
  match afterStart space.1 class_ with
  | some rest =>
    let relative := replaceAll "\\" "/" (dropLeading '\\' rest) ++ ".php"
    space.2.findSome? fun dir => disk.existingFile (dir.child relative)
  | none => none

/-- Where a class may be that no declared name space holds: by its whole name, or without its first
    part, which names the vendor. -/
def classCandidates (root : Path) (class_ : String) : List Path :=
  let relative := replaceAll "\\" "/" class_
  let whole := [(root.child "src").child (relative ++ ".php"), root.child (relative ++ ".php")]
  match relative.toList.dropWhile (· != '/') with
  | _ :: rest =>
    let rest := String.ofList rest ++ ".php"
    whole ++ [(root.child "src").child rest, (root.child "app").child rest]
  | [] => whole

def resolveClass (disk : Disk) (root : Path) (class_ : String) : Option Path :=
  match (nameSpaces disk root).findSome? (spaceFile disk class_) with
  | some found => some found
  | none => (classCandidates root class_).findSome? disk.existingFile

/-- Looks up an included file: beside the file, else from the project root. -/
def resolveInclude (disk : Disk) (site : Site) (target : String) : Option Path :=
  match disk.existingFile (site.dir.child target) with
  | some found => some found
  | none =>
    if Path.isRelativeReference target then none
    else disk.existingFile (site.projectRoot.child (dropLeading '/' target))

def resolve (disk : Disk) (site : Site) (reference : Reference) : Option Path :=
  match reference.kind? with
  | some "include" => resolveInclude disk site reference.value
  | some "namespace" => resolveClass disk site.projectRoot reference.value
  | _ => none

end Php

def php : Language where
  name := "php"
  endings := [".php", ".blade.php"]
  scan := fun _ => Php.scan
  resolver := some <| resolverFor [".php", ".blade.php"] Php.resolve

end SourceWeb.Language
