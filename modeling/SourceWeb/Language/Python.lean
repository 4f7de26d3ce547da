/-
  Python: `import a.b` and `from a import b`, where `b` may be a module of the package `a`.
-/
import SourceWeb.Language.Basic

namespace SourceWeb.Language.Python

open SourceWeb.Text
open SourceWeb.Pattern

/-! ### Finding references -/

/-- `import` and a list of names, up to a comment or the end of the line. -/
def importLine : Pattern :=
  all [lineStart, gap, text "import", gap1, group 1 (many1 (noneOf "#\n"))]

/-- `from`, a module, `import` and a list of names, up to a comment, a closing parenthesis or the
    end of the line. -/
def fromLine : Pattern :=
  all [lineStart, gap, text "from", gap1,
    group 1 (all [many (text "."), many (wordOr ".")]),
    gap1, text "import", gap1, optional (text "("), group 2 (many (noneOf "#\n)"))]

def isNameChar (c : Char) : Bool :=
  isAlnum c || c == '_' || c == '.' || c == '*'

def namesOf (list : List Char) : List (List Char) :=
  ((splitWhere (· == ',') list).filterMap fun part => (wordsOf part).head?).filter
    fun name => name.all isNameChar

def moduleRef (name : List Char) : Reference :=
  .kinded "module" (String.ofList name)

/-- The references of one `from` line: the module, and each name as a module in it. -/
def fromRefs (module : List Char) (names : List Char) : List Reference :=
  if module.isEmpty then []
  else
    let dot := if module.getLast? = some '.' then [] else ['.']
    moduleRef module ::
      ((namesOf names).filter fun n => n != ['*']).map fun n => moduleRef (module ++ dot ++ n)

/-- The references of a file: those of `import` lines, then those of `from` lines. -/
def scan (content : String) : List Reference :=
  let cs := content.toList
  Reference.distinct <|
    ((importLine.findAll cs).flatMap fun m => (namesOf (m.group 1)).map moduleRef) ++
    ((fromLine.findAll cs).flatMap fun m => fromRefs (m.group 1) (m.group 2))

/-! ### Looking up -/

/-- The file of a module below a directory: the module itself or the package of its name. -/
def moduleFile (disk : Disk) (base : Path) (dotted : String) : Option Path :=
  if dotted = "" then disk.existingFile (base.child "__init__.py")
  else
    let parts := (splitChar '.' dotted).filter fun s => s != ""
    let module := base.join (parts.foldl Path.child ⟨""⟩)
    [module.withSuffix ".py", module.withSuffix ".pyi", module.child "__init__.py"].findSome?
      disk.existingFile

/-- The paths up to the first that is the project root or lies outside of it, that one included. -/
def upToRoot (root : Path) : List Path → List Path
  | [] => []
  | dir :: dirs => if dir.same root || !dir.startsWith root then [dir] else dir :: upToRoot root dirs

/-- Where absolute imports are looked up: the directories from the file's own up to the project
    root, then the directory `src` of the project. -/
def searchRoots (site : Site) : List Path :=
  let roots := upToRoot site.projectRoot site.dir.ancestors
  let src := site.projectRoot.child "src"
  if src.isIn roots then roots else roots ++ [src]

def climb : Nat → Path → Option Path
  | 0, p => some p
  | n + 1, p => p.parent?.bind (climb n)

/-- Looks up a module.  Leading dots count directories upwards from that of the file. -/
def resolve (disk : Disk) (site : Site) (module : String) : Option Path :=
  let cs := module.toList
  let dots := (cs.takeWhile (· == '.')).length
  let dotted := String.ofList (cs.drop dots)
  if dots = 0 then (searchRoots site).findSome? fun root => moduleFile disk root dotted
  else (climb (dots - 1) site.dir).bind fun base => moduleFile disk base dotted

end Python

def python : Language where
  name := "python"
  endings := [".py", ".pyi"]
  scan := fun _ => Python.scan
  resolver := some <| resolverFor [".py", ".pyi"] <| resolverOfKind "module" Python.resolve

end SourceWeb.Language
