/-
  Shell scripts: files that are sourced.
-/
import SourceWeb.Language.Basic

namespace SourceWeb.Language.Shell

open SourceWeb.Text
open SourceWeb.Pattern

/-- `source` or `.` at the start of a line, and its operand up to white space, a quote or the end of
    the command. -/
def sourceLine : Pattern :=
  all [lineStart, gap, choice [text "source", text "."], gap1, optional quote,
    group 1 (many1 (set (.compl (.union .blank (.oneOf ['"', '\'', ';', '|', '&'])))))]

/-- The ways to name the directory of the script: a variable, or `dirname` of something. -/
def scriptDir : Pattern :=
  all [place .textStart,
    choice [
      all [text "$", optional (text "\x7b"), many1 (set .word), optional (text "\x7d")],
      all [text "$(dirname", many (noneOf ")"), text ")"]],
    text "/"]

/-- The file that an operand names, as a path from the script's directory.  A variable that does
    not stand for that directory leaves the file unknown. -/
def operandTarget? (operand : List Char) : Option (List Char) :=
  match scriptDir.find? operand with
  | some m => some ("./".toList ++ m.rest)
  | none => if operand.contains '$' then none else some operand

def scan (content : String) : List Reference :=
  Reference.distinct <|
    ((sourceLine.findAll content.toList).filterMap fun m => operandTarget? (m.group 1)).map
      fun target => .kinded "source" (String.ofList target)

def dropHere : List Char → List Char
  | '.' :: '/' :: cs => dropHere cs
  | cs => cs

def resolve (disk : Disk) (site : Site) (target : String) : Option Path :=
  [site.dir.child target, site.projectRoot.child (String.ofList (dropHere target.toList))].findSome?
    disk.existingFile

end Shell

def shell : Language where
  name := "shell"
  endings := [".sh", ".bash", ".zsh"]
  scan := fun _ => Shell.scan
  resolver := some <| resolverFor [".sh", ".bash", ".zsh"] <| resolverOfKind "source" Shell.resolve

end SourceWeb.Language
