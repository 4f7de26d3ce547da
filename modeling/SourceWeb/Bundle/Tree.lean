/-
  Trees of names, and how they are drawn.

  A path adds its segments one below the other.  Siblings stand in the order of their names, each
  name once, so a tree does not depend on the order in which its paths were added.
-/
import SourceWeb.Output.Value
import SourceWeb.Text.Order
import SourceWeb.Text.Split

namespace SourceWeb

open SourceWeb.Text

/-- The nodes below another one: the first of them with what is below it, then the others. -/
inductive Forest
  | empty
  | node (name : String) (below others : Forest)
  deriving DecidableEq, Repr, Inhabited

namespace Forest

def ofPath : List String → Forest
  | [] => empty
  | s :: ss => node s (ofPath ss) empty

def insert : Forest → List String → Forest
  | f, [] => f
  | empty, s :: ss => ofPath (s :: ss)
  | node name below others, s :: ss =>
    if s = name then node name (below.insert ss) others
    else if precedes s name then node s (ofPath ss) (node name below others)
    else node name below (others.insert (s :: ss))

/-- How many nodes have nothing below them. -/
def leafCount : Forest → Nat
  | empty => 0
  | node _ empty others => 1 + others.leafCount
  | node _ below others => below.leafCount + others.leafCount

def isEmpty : Forest → Bool
  | empty => true
  | node .. => false

/-- The lines that draw the nodes, behind what is drawn for the nodes above them. -/
def lines (above : String) : Forest → List String
  | empty => []
  | node name below others =>
    let last := others.isEmpty
    let line := above ++ (if last then "└── " else "├── ") ++ name ++
      (if below.isEmpty then "" else "/")
    line :: below.lines (above ++ (if last then "    " else "│   ")) ++ others.lines above

/-- The nodes as members of an object: each with its name and, if there is anything below it, with
    that. -/
def toMembers : Forest → List (String × Json)
  | empty => []
  | node name below others =>
    let inner := ("name", Json.str name) ::
      (if below.isEmpty then [] else [("children", Json.obj below.toMembers)])
    (name, .obj inner) :: others.toMembers

end Forest

structure Tree where
  name : String
  below : Forest
  deriving DecidableEq, Repr, Inhabited

namespace Tree

def segmentsOf (path : String) : List String :=
  (splitChar '/' path).filter fun s => s != "" && s != "."

def insert (t : Tree) (path : String) : Tree :=
  { t with below := t.below.insert (segmentsOf path) }

def ofPaths (name : String) (paths : List String) : Tree :=
  paths.foldl insert ⟨name, .empty⟩

def ofSorted (name : String) (paths : List String) : Tree :=
  ofPaths name (paths.mergeSort fun a b => !precedes b a)

def isLeaf (t : Tree) : Bool := t.below.isEmpty

/-- How many nodes have nothing below them; a root alone is one. -/
def fileCount (t : Tree) : Nat :=
  if t.isLeaf then 1 else t.below.leafCount

/-- The drawing of the tree, a line for each node.  Nodes with something below them end in a
    slash, and so does the root. -/
def lines (t : Tree) : List String :=
  (t.name ++ "/") :: t.below.lines ""

def render (t : Tree) : String :=
  "\n".intercalate t.lines

def toJson (t : Tree) : Json :=
  .obj <| ("name", .str t.name) ::
    (if t.isLeaf then [] else [("children", .obj t.below.toMembers)])

def xmlNames : Xml.Names := ⟨"tree", "DirectoryTreeNode"⟩

def write (t : Tree) (format : Format) (pretty : Bool) : Except Xml.Defect String :=
  format.write pretty xmlNames t.toJson

end Tree

end SourceWeb
