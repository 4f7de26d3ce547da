/-
  Documents that hold the files of a run: a drawing of the tree they form, and their contents.
-/
import SourceWeb.Bundle.Language
import SourceWeb.Bundle.Tree
import SourceWeb.Disk.Basic
import SourceWeb.Output.Value

namespace SourceWeb.Bundle

open SourceWeb.Text

structure File where
  path : String
  language : String
  content : String
  deriving DecidableEq, Repr

structure Document where
  projectName : String
  projectRoot : Option String
  generatedAt : Option String
  tree : Option (List String)
  files : List File
  deriving DecidableEq, Repr

/-- What a document is to hold besides the files; the time is given if it is to be held. -/
structure Options where
  projectName : String
  includeTree : Bool
  includeProjectRoot : Bool
  time : Option String

/-- A path from the project root, with slashes; one outside of the project stays as it is. -/
def relativeDisplay (p root : Path) : String :=
  match Path.below? root p with
  | none => p.text
  | some components => "/".intercalate (components.filterMap fun c =>
      match c with
      | .name s => some s
      | _ => none)

namespace Document

def readFile (disk : Disk) (root p : Path) : Option File :=
  match disk.readText p with
  | .ok content => some ⟨relativeDisplay p root, languageMark p, content⟩
  | .error _ => none

/-- The document of a list of files.  Files that cannot be read as text stand in the tree only. -/
def build (disk : Disk) (root : Path) (paths : List Path) (o : Options) : Document where
  projectName := o.projectName
  projectRoot := if o.includeProjectRoot then some root.text else none
  generatedAt := o.time
  tree :=
    if o.includeTree then
      some (Tree.ofSorted o.projectName (paths.map fun p => relativeDisplay p root)).lines
    else none
  files := (paths.filterMap (readFile disk root)).mergeSort fun a b => !precedes b.path a.path

/-! ### Markdown -/

/-- The length of the longest run of backticks, where the run before the text has the length
    `run`. -/
def longestRun : Nat → List Char → Nat
  | run, [] => run
  | run, c :: cs => if c = '\x60' then longestRun (run + 1) cs else max run (longestRun 0 cs)

/-- A fence for a text: three backticks, or one more than the text has in a row. -/
def fenceFor (content : String) : String :=
  String.ofList (List.replicate (max 3 (longestRun 0 content.toList + 1)) '\x60')

def fileSection (f : File) : String :=
  let fence := fenceFor f.content
  "\n## " ++ f.path ++ "\n\n" ++ fence ++ f.language ++ "\n" ++ f.content ++
    (if endsWith "\n" f.content then "" else "\n") ++ fence ++ "\n"

def treeSection (lines : List String) : String :=
  "# Project Tree\n\n\x60\x60\x60text\n" ++ String.join (lines.map (· ++ "\n")) ++
    "\x60\x60\x60\n\n"

def toMarkdown (d : Document) : String :=
  (match d.tree with
    | some lines => treeSection lines
    | none => "") ++ "# Codebase\n" ++ String.join (d.files.map fileSection)

/-! ### Values -/

def memberOf (key : String) : Option Json → List (String × Json)
  | some v => [(key, v)]
  | none => []

def toJson (d : Document) : Json :=
  .obj <| [("projectName", .str d.projectName)] ++
    memberOf "projectRoot" (d.projectRoot.map .str) ++
    memberOf "generatedAt" (d.generatedAt.map .str) ++
    memberOf "tree" (d.tree.map fun lines => .arr (lines.map .str)) ++
    [("files", .arr (d.files.map fun f =>
      .obj [("path", .str f.path), ("language", .str f.language), ("content", .str f.content)]))]

/-- The document in a format; `minify` leaves the white space out of JSON.  Only XML can fail. -/
def render (d : Document) (format : Format) (minify : Bool) : Except Xml.Defect String :=
  match format with
  | .markdown => .ok d.toMarkdown
  | other => other.write (!minify) ⟨"bundle", "BundleFile"⟩ d.toJson

end Document

end SourceWeb.Bundle
