/-
  Style sheets: `@import`, `@use` and `@forward`, with the partial files of Sass.
-/
import SourceWeb.Language.Basic

namespace SourceWeb.Language.Css

open SourceWeb.Text
open SourceWeb.Pattern

def importRule : Pattern :=
  all [text "@", choice [text "import", text "use", text "forward"], gap1,
    optional (text "url("), gap, optional quote,
    group 1 (many1 (set (.compl (.union .blank (.oneOf ['"', '\'', ')', ';'])))))]

/-- The references of a file, without remote addresses and built-in modules. -/
def scan (content : String) : List Reference :=
  let targets := (importRule.findAll content.toList).map fun m => String.ofList (m.group 1)
  Reference.distinct <|
    (targets.filter fun t => !isRemote t && !startsWith "sass:" t).map (.kinded "stylesheet_import")

def endings : List String := [".css", ".scss", ".sass", ".less"]

/-- The files that a path may mean: itself, the partial of its name, either with an ending, and the
    index of a directory. -/
def candidates (base : Path) : List Path :=
  match base.parent?, base.fileName? with
  | some dir, some name =>
    let part := dir.child ("_" ++ name)
    [base, part] ++
    (endings.flatMap fun e => [base.withSuffix e, part.withSuffix e]) ++
    (endings.flatMap fun e => [base.child ("index" ++ e), base.child ("_index" ++ e)])
  | _, _ => [base]

/-- Looks up a style sheet, from the project root if its path starts with a slash. -/
def resolve (disk : Disk) (site : Site) (target : String) : Option Path :=
  let base := match afterStart "/" target with
    | some rooted => site.projectRoot.child rooted
    | none => site.dir.child (dropLeading '~' target)
  (candidates base).findSome? disk.existingFile

end Css

def css : Language where
  name := "css"
  endings := Css.endings
  scan := fun _ => Css.scan
  resolver := some <|
    resolverFor Css.endings <| resolverOfKind "stylesheet_import" Css.resolve

end SourceWeb.Language
