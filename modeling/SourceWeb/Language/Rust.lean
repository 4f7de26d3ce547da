/-
  Rust: `mod` declarations and `use` paths within the crate.
-/
import SourceWeb.Language.Basic

namespace SourceWeb.Language.Rust

open SourceWeb.Text
open SourceWeb.Pattern

/-! ### Finding references -/

def itemStart : Pattern :=
  all [lineStart, gap,
    optional (all [text "pub", optional (all [text "(", many (noneOf ")"), text ")"]), gap1])]

def modDeclaration : Pattern :=
  all [itemStart, text "mod", gap1, group 1 (many1 (set .word)), gap, text ";"]

/-- A `use` of a path that starts at the crate, at this module or at the one above. -/
def usePath : Pattern :=
  all [itemStart, text "use", gap1,
    group 1 (all [choice [text "crate", text "self", text "super"],
      many1 (all [text "::", many1 (set .word)])])]

/-- The references of a file: the modules it declares, then the paths it uses. -/
def scan (content : String) : List Reference :=
  let cs := content.toList
  Reference.distinct <|
    ((modDeclaration.findAll cs).map fun m => .kinded "module" (String.ofList (m.group 1))) ++
    ((usePath.findAll cs).map fun m => .kinded "use" (String.ofList (m.group 1)))

/-! ### Looking up -/

/-- The directory of the children of the module that a file defines.  `main`, `lib` and `mod` own
    the directory they are in; any other file owns the directory of its name. -/
def moduleDir (file : Path) : Option Path := do
  let parent ← file.parent?
  let stem ← file.fileStem?
  if stem = "main" ∨ stem = "lib" ∨ stem = "mod" then return parent else return parent.child stem

def moduleFile (disk : Disk) (dir : Path) (name : String) : Option Path :=
  [dir.child (name ++ ".rs"), (dir.child name).child "mod.rs"].findSome? disk.existingFile

/-- Looks up a declared module: among the file's children, else beside the file. -/
def resolveMod (disk : Disk) (name : String) (file : Path) : Option Path := do
  let dir ← moduleDir file
  match moduleFile disk dir name with
  | some found => some found
  | none =>
    let parent ← file.parent?
    if parent.same dir then none else moduleFile disk parent name

def crateSource (disk : Disk) (site : Site) : Option Path :=
  let dirs := site.dir.ancestors.takeWhile fun dir => dir.startsWith site.projectRoot
  (dirs.find? fun dir => disk.isFile (dir.child "Cargo.toml")).map fun dir => dir.child "src"

def climbSupers : Path → List String → Option (Path × List String)
  | base, [] => some (base, [])
  | base, s :: rest =>
    if s = "super" then base.parent?.bind fun base => climbSupers base rest
    else some (base, s :: rest)

/-- The module that the most segments lead to; the segments after it name items within it. -/
def deepestModule (disk : Disk) (base : Path) (segments : List String) : Option Path :=
  ((List.range segments.length).reverse).findSome? fun n =>
    match segments[n]? with
    | some name => moduleFile disk ((segments.take n).foldl Path.child base) name
    | none => none

def resolveUse (disk : Disk) (site : Site) (path : String) : Option Path := do
  match (splitAtText "::".toList path.toList).map String.ofList with
  | [] => none
  | first :: rest =>
    let base ←
      if first = "crate" then crateSource disk site
      else if first = "self" then moduleDir site.file
      else if first = "super" then (moduleDir site.file).bind Path.parent?
      else none
    -- the first segment may be followed by any number of `super`
    let (base, rest) ← climbSupers base rest
    deepestModule disk base rest

def resolve (disk : Disk) (site : Site) (reference : Reference) : Option Path :=
  match reference.kind? with
  | some "module" => resolveMod disk reference.value site.file
  | some "use" => resolveUse disk site reference.value
  | _ => none

end Rust

def rust : Language where
  name := "rust"
  endings := [".rs"]
  scan := fun _ => Rust.scan
  resolver := some <| resolverFor [".rs"] Rust.resolve

end SourceWeb.Language
