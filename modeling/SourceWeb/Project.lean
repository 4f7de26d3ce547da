/-
  Where a project begins: at the nearest directory under version control, else at the nearest one
  with the manifest of a build tool, else where the search starts.
-/
import SourceWeb.Disk.Basic

namespace SourceWeb.Project

def vcsDirs : List String :=
  [".git", ".hg", ".svn"]

def manifests : List String :=
  ["package.json", "Cargo.toml", "go.mod", "Gemfile", "pyproject.toml", "setup.py",
    "composer.json", "pom.xml", "build.gradle", "Rakefile", "Makefile"]

def hasVcs (disk : Disk) (dir : Path) : Bool :=
  vcsDirs.any fun name => disk.isDir (dir.child name)

def hasManifest (disk : Disk) (dir : Path) : Bool :=
  manifests.any fun name => disk.isFile (dir.child name)

/-- The directory where the search from a path starts: the path itself, or the one above a file. -/
def startDir (disk : Disk) (p : Path) : Path :=
  let absolute := match disk.canonical p with
    | .ok q => q
    | .error _ =>
      match disk.absolute p with
      | .ok q => q
      | .error _ => p
  if disk.isFile absolute then absolute.parent?.getD absolute else absolute

/-- The root of the project around a path. -/
def rootOf (disk : Disk) (p : Path) : Path :=
  let start := startDir disk p
  let dirs := start.ancestors
  match dirs.find? (hasVcs disk) with
  | some dir => dir
  | none => (dirs.find? (hasManifest disk)).getD start

end SourceWeb.Project
