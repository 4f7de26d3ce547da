/-
  Ruby: `require` and `load` lines, gems taken from a path, and constants that are loaded by name.
-/
import SourceWeb.Language.Basic

namespace SourceWeb.Language.Ruby

open SourceWeb.Text
open SourceWeb.Pattern

/-! ### Requirements and gems -/

def quoted (n : Nat) : Pattern :=
  all [quote, group n (many1 (noneOf "\"'")), quote]

/-- `require`, `require_relative` or `load` at the start of a line, with a quoted target. -/
def requirement : Pattern :=
  all [lineStart, gap,
    group 1 (choice [text "require", text "require_relative", text "load"]),
    many1 (oneOf " \t("), quoted 2]

def pathGem : Pattern :=
  all [lineStart, gap, text "gem", gap1, quoted 1, manyLazy (noneOf "\n"),
    wordEdge, text "path:", gap, quoted 2]

/-- The reference of a requirement: its statement says where its target is looked for. -/
def requirementRef (statement target : List Char) : Reference :=
  let target' := String.ofList target
  if statement = "require_relative".toList then
    if target.head? = some '.' then .plain target' else .plain ("./" ++ target')
  else if statement = "load".toList then .kinded "load" target'
  else .kinded "require" target'

def gemRef (gem path : List Char) : Reference :=
  .kinded "gem" (String.ofList (dropEndWhile (· == '/') path ++ "/lib/".toList ++ gem))

/-! ### Constants -/

def stringLiteral : Pattern :=
  let inside (delimiter : String) : Pattern :=
    all [text delimiter,
      many (choice [noneOf (delimiter ++ "\\\n"), all [text "\\", noneOf "\n"]]), text delimiter]
  choice [inside "\"", inside "'"]

def capitalised : Pattern :=
  all [set (.range 'A' 'Z'),
    many (set (.unionAll [.range 'A' 'Z', .range 'a' 'z', .range '0' '9', .oneOf ['_']]))]

/-- A constant, with its scopes, that no word character or colon precedes. -/
def constant : Pattern :=
  all [choice [place .textStart, set (.compl (.union .word (.oneOf [':'])))],
    group 1 (all [optional (text "::"), capitalised, many (all [text "::", capitalised])])]

/-- `class` or `module` at the start of a line, and the name it defines. -/
def definition : Pattern :=
  all [lineStart, gap, choice [text "class", text "module"], gap1,
    group 1 (all [set (.range 'A' 'Z'), many (wordOr ":")])]

def coreConstants : List String :=
  ["Array", "BasicObject", "Comparable", "Dir", "ENV", "Enumerable", "Exception", "FalseClass",
    "File", "Float", "Hash", "IO", "Integer", "Kernel", "Math", "Module", "NilClass", "Object",
    "Proc", "Process", "Range", "Regexp", "StandardError", "String", "Struct", "Symbol",
    "Thread", "Time", "TrueClass", "ArgumentError", "RuntimeError", "NotImplementedError"]

def dropScopeMarks : List Char → List Char
  | ':' :: ':' :: cs => dropScopeMarks cs
  | cs => cs

/-- The code of a line: without what follows a `#`, and with nothing in its string literals. -/
def codeOf (line : List Char) : List Char :=
  stringLiteral.replaceAll (fun _ => ['"', '"']) (line.takeWhile (· != '#'))

def constantsIn (code : List Char) : List String :=
  (constant.findAll code).map fun m => String.ofList (dropScopeMarks (m.group 1))

def outermost (name : String) : String :=
  match splitAtText "::".toList name.toList with
  | head :: _ => String.ofList head
  | [] => ""

/-- The constants of a text that are neither defined in it nor in every program. -/
def constants (content : List Char) : List String :=
  let defined := (definition.findAll content).map fun m => String.ofList (m.group 1)
  let used := (linesOf content).flatMap fun line => constantsIn (codeOf line)
  (used.filter fun name =>
    !(coreConstants.contains (outermost name) || defined.contains name)).eraseDups

def scan (content : String) : List Reference :=
  let cs := content.toList
  Reference.distinct <|
    ((requirement.findAll cs).map fun m => requirementRef (m.group 1) (m.group 2)) ++
    ((pathGem.findAll cs).map fun m => gemRef (m.group 1) (m.group 2)) ++
    (constants cs).map (.kinded "constant")

/-! ### From constants to paths -/

/-- Does an underscore go between `last` and the capital after it, which `next` follows? -/
def breaksWord (last : Char) (next : Option Char) : Bool :=
  last.isLower || last.isDigit || (last.isUpper && next.any Char.isLower)

/-- One name in lower case, with underscores between its words; `last` is the character before. -/
def underscoreName : Option Char → List Char → List Char
  | _, [] => []
  | last, c :: cs =>
    let sep := if c.isUpper && last.any (breaksWord · cs.head?) then ['_'] else []
    sep ++ c.toLower :: underscoreName (some c) cs

/-- A constant as a path: a directory for each scope, in lower case, words joined by underscores. -/
def underscore (constant : String) : String :=
  String.ofList <| ['/'].intercalate <|
    (splitAtText "::".toList constant.toList).map (underscoreName none)

/-! ### Looking up -/

def rubyFile (disk : Disk) (base : Path) : Option Path :=
  if base.extension? = some "rb" then disk.existingFile base
  else disk.existingFile (base.withSuffix ".rb")

/-- Where constants are looked up: `lib`, the directories within `app`, the project root. -/
def constantBases (disk : Disk) (root : Path) : List Path :=
  let apps := match disk.list (root.child "app") with
    | .ok ps => Path.sort (ps.filter disk.isDir)
    | .error _ => []
  root.child "lib" :: apps ++ [root]

def resolve (disk : Disk) (site : Site) (reference : Reference) : Option Path :=
  let target := reference.value
  match reference.kind? with
  | some "require" | some "load" =>
    [site.projectRoot.child "lib", site.projectRoot, site.dir].findSome? fun base =>
      rubyFile disk (base.child target)
  | some "gem" => rubyFile disk (site.dir.child target)
  | some "constant" =>
    (constantBases disk site.projectRoot).findSome? fun base =>
      rubyFile disk (base.child (underscore target))
  | _ => none

end Ruby

def ruby : Language where
  name := "ruby"
  endings := [".rb", ".rake", ".gemspec", "Gemfile", "Rakefile"]
  scan := fun _ => Ruby.scan
  resolver := some <|
    resolverFor [".rb", ".rake", ".gemspec", "Gemfile", "Rakefile"] Ruby.resolve

end SourceWeb.Language
