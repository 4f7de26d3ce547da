/-
  Files and directories that no project wants to have followed: the stores of version control and
  of tools, locks, compiled and packed files, images and fonts.

  They are globs over paths from the project root, and hold wherever in a path they fit.
-/
import SourceWeb.Text.Split

namespace SourceWeb.Ignore.Builtin

open SourceWeb.Text

/-- A glob that is built in: everything in the directories of a name, the files whose names have an
    ending, or the files of a name. -/
inductive Glob
  | inDir (name : String)
  | ending (text : String)
  | named (name : String)
  deriving DecidableEq, Repr

def dirNames : List String :=
  [".git", ".hg", ".svn", ".xtools", ".idea", ".vscode", "__pycache__", ".venv", ".mypy_cache",
    ".pytest_cache", ".next", ".turbo", "target"]

def fileEndings : List String :=
  [".lock", ".min.js", ".min.css", ".map", ".pyc", ".class", ".o", ".so", ".dylib", ".dll", ".exe",
    ".png", ".jpg", ".jpeg", ".gif", ".ico", ".webp", ".pdf", ".zip", ".tar", ".gz", ".woff",
    ".woff2", ".ttf"]

def fileNames : List String :=
  ["package-lock.json", "pnpm-lock.yaml", ".DS_Store"]

def globs : List Glob :=
  dirNames.map .inDir ++ fileEndings.map .ending ++ fileNames.map .named

/-- Does the glob match the path?  What a directory's name is followed by may be nothing. -/
def Glob.covers (g : Glob) (relative : String) : Bool :=
  let names := splitChar '/' relative
  match g with
  | inDir name => names.dropLast.contains name
  | ending t => endsWith t relative
  | named name => names.getLast? == some name

def probeName : String := "/dummy_file_for_dir_match"

/-- Does one of the globs match the path or, if it is a directory, what is in it? -/
def covers (relative : String) (isDir : Bool) : Bool :=
  globs.any fun g => g.covers relative || (isDir && g.covers (relative ++ probeName))

end SourceWeb.Ignore.Builtin
