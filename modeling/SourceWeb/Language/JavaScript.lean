/-
  JavaScript and TypeScript: import and export statements, `require` and dynamic `import`.

  The two share one scanner and one way of looking up; they differ in the file names they claim and
  in the endings they try first.
-/
import SourceWeb.Language.Basic

namespace SourceWeb.Language.JavaScript

open SourceWeb.Text
open SourceWeb.Pattern

/-! ### Finding references -/

def quotedModule : Pattern :=
  all [quote, group 1 (many1 (noneOf "\"'\n")), quote]

def staticImport : Pattern :=
  all [wordEdge, text "import", blanks1, optional (all [text "type", blanks1]),
    optional (all [many1Lazy (set (.unionAll [.word, .oneOf "*\x7b\x7d$,".toList, .blank])),
      blanks1, text "from", blanks1]),
    quotedModule]

def reexport : Pattern :=
  all [wordEdge, text "export", blanks1, optional (all [text "type", blanks1]),
    choice [
      all [text "*", optional (all [blanks1, text "as", blanks1, many1 (wordOr "$")])],
      all [text "\x7b", many (noneOf "\x7d"), text "\x7d"]],
    blanks, text "from", blanks, quotedModule]

def callOf (function : String) : Pattern :=
  all [wordEdge, text function, blanks, text "(", blanks, quotedModule, blanks, text ")"]

def scan (content : String) : List Reference :=
  let cs := content.toList
  Reference.distinct <|
    [staticImport, reexport, callOf "require", callOf "import"].flatMap fun p =>
      (captured p cs).map .plain

/-! ### Looking up -/

def compiledEndings : List String := [".js", ".jsx", ".mjs", ".cjs"]

/-- Tries the endings on a path; where that finds nothing and the path has the ending of a compiled
    file, on the path without that. -/
def probeModule (disk : Disk) (endings : List String) (base : Path) : Option Path :=
  match disk.tryExtensions base endings with
  | some found => some found
  | none =>
    match compiledEndings.findSome? fun e => beforeEnd e base.text with
    | some stem => disk.tryExtensions ⟨stem⟩ endings
    | none => none

/-- Looks up a reference that starts neither with a dot nor with a slash: under the aliases if
    there are any, with the base directory they name as the last resort, and else under `src` for
    a reference that starts with `@/`. -/
def resolveBare (disk : Disk) (endings : List String) (site : Site) (target : String) :
    Option Path :=
  match site.aliases with
  | some aliases =>
    let base := site.aliasBase.getD aliases.targetBase
    let candidates := (aliases.expand target).map base.child
    let candidates := candidates ++ match aliases.baseUrl with
      | some baseUrl => [baseUrl.child target]
      | none => []
    candidates.findSome? (probeModule disk endings)
  | none =>
    match afterStart "@/" target with
    | some rest => probeModule disk endings ((site.projectRoot.child "src").child rest)
    | none => none

def resolveModule (endings : List String) (disk : Disk) (site : Site) (reference : Reference) :
    Option Path :=
  match reference with
  | .kinded _ _ => none
  | .plain target =>
    if Path.isRelativeReference target then
      probeModule disk endings (site.dir.child target)
    else if startsWith "/" target then
      probeModule disk endings (site.projectRoot.child (dropLeading '/' target))
    else resolveBare disk endings site target

end JavaScript

def javaScript : Language where
  name := "javascript"
  endings := [".js", ".jsx", ".mjs", ".cjs"]
  scan := fun _ => JavaScript.scan
  resolver := some <| resolverFor [".js", ".jsx", ".mjs", ".cjs"] <|
    JavaScript.resolveModule [".js", ".jsx", ".mjs", ".cjs", ".ts", ".tsx", ".json"]

def typeScript : Language where
  name := "typescript"
  endings := [".ts", ".tsx", ".mts", ".cts", ".d.ts"]
  scan := fun _ => JavaScript.scan
  resolver := some <| resolverFor [".ts", ".tsx", ".mts", ".cts", ".d.ts"] <|
    JavaScript.resolveModule
      [".ts", ".tsx", ".d.ts", ".mts", ".cts", ".js", ".jsx", ".mjs", ".cjs", ".json"]

end SourceWeb.Language
