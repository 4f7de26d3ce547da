/-
  Help texts, which are made from the grammars of the commands.
-/
import SourceWeb.Command.Basic
import SourceWeb.Output.Table

namespace SourceWeb.Command.Help

def programName : String := "xdeps"

def programVersion : String := "0.1.0"

def optionName (o : Opt) : String :=
  (match o.letter with
    | some c => "-" ++ c.toString ++ ", "
    | none => "    ") ++ "--" ++ o.name ++
  (match o.takes with
    | .value => " <VALUE>"
    | .optionalValue => " [<VALUE>]"
    | _ => "")

def optionLine (o : Opt) : String :=
  "  " ++ Column.left 32 (optionName o) ++ o.about ++ "\n"

def kindLine (k : Kind) : String :=
  "  " ++ Column.left 12 k.name ++ k.about ++
    (match k.short with
      | some s => " [aliases: " ++ s ++ "]"
      | none => "") ++ "\n"

def optionLines (g : Grammar) : String :=
  "\nOptions:\n" ++ String.join (g.options.map optionLine)

def overview : String :=
  "Bundle a file and everything it references into one document.\n\nUsage: " ++ programName ++
    " [OPTIONS] [COMMAND]\n\nCommands:\n" ++ String.join (kinds.map kindLine) ++
    "  " ++ Column.left 12 "help" ++ "Print this message or the help of the given command\n" ++
    optionLines frontGrammar

def ofKind (k : Kind) : String :=
  k.about ++ "\n\nUsage: " ++ programName ++ " " ++ k.name ++ " [OPTIONS]" ++
    (if k.grammar.operands then " <PATHS>..." else "") ++ "\n" ++ optionLines k.grammar

def text (name : Option String) : String :=
  match name.bind kind? with
  | some k => ofKind k
  | none => overview

def misuse : String :=
  "error: the command line cannot be understood\n\nFor more information, try '--help'.\n"

end SourceWeb.Command.Help
