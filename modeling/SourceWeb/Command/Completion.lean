/-
  Scripts with which shells complete command lines of the program.
-/
import SourceWeb.Command.Help
import SourceWeb.Environment
import SourceWeb.Failure
import SourceWeb.Text.Lower

namespace SourceWeb.Command

inductive Shell
  | fish
  | bash
  | zsh
  deriving DecidableEq, Repr

namespace Shell

def ofName (name : String) : Except Failure Shell :=
  match Text.lower name with
  | "fish" => .ok fish
  | "bash" => .ok bash
  | "zsh" => .ok zsh
  | _ => .error (.unknownShell name)

def scriptPath? (env : Environment) : Shell → Option Path
  | fish => env.configDir?.map fun d =>
      ((d.child "fish").child "completions").child (Help.programName ++ ".fish")
  | bash => env.dataDir?.map fun d =>
      ((d.child "bash-completion").child "completions").child Help.programName
  | zsh => env.dataDir?.map fun d =>
      ((d.child "zsh").child "site-functions").child ("_" ++ Help.programName)

/-- The words that can stand behind the program: the names of the commands. -/
def commandWords : List String :=
  kinds.map Kind.name ++ ["help"]

def optionWords (k : Kind) : List String :=
  k.grammar.options.map fun o => "--" ++ o.name

def quoted (s : String) : String :=
  "'" ++ Text.replaceAll "'" "" s ++ "'"

/-- The lines of the script for fish that complete the options of a command. -/
def fishOptions (k : Kind) : String :=
  String.join (k.grammar.options.map fun o =>
    "complete -c " ++ Help.programName ++ " -n " ++
      quoted ("__fish_seen_subcommand_from " ++ k.name) ++
      (match o.letter with
        | some c => " -s " ++ c.toString
        | none => "") ++
      " -l " ++ o.name ++ " -d " ++ quoted o.about ++
      (if o.takes = .value then " -r" else "") ++ "\n")

def fishScript : String :=
  String.join (kinds.map fun k =>
    "complete -c " ++ Help.programName ++ " -n __fish_use_subcommand -f -a " ++ k.name ++ " -d " ++
      quoted k.about ++ "\n") ++
  String.join (kinds.map fishOptions)

/-- The cases of a script that tells the words to complete by the command. -/
def wordCases (indent : String) : String :=
  String.join (kinds.map fun k =>
    indent ++ k.name ++ ") words=" ++ quoted (" ".intercalate (optionWords k)) ++ " ;;\n") ++
  indent ++ "*) words=" ++ quoted (" ".intercalate commandWords) ++ " ;;\n"

def bashScript : String :=
  "_" ++ Help.programName ++ "() \x7b\n    local words\n    case \"$\x7bCOMP_WORDS[1]\x7d\" in\n" ++
    wordCases "        " ++
    "    esac\n    COMPREPLY=($(compgen -W \"$words\" -- \"$\x7bCOMP_WORDS[COMP_CWORD]\x7d\"))\n\x7d\n" ++
    "complete -o default -F _" ++ Help.programName ++ " " ++ Help.programName ++ "\n"

def zshScript : String :=
  "#compdef " ++ Help.programName ++ "\n\nlocal words_\ncase \"$words[2]\" in\n" ++
    Text.replaceAll ") words=" ") words_=" (wordCases "    ") ++
    "esac\n_alternative \"words:word:($words_)\" 'files:file:_files'\n"

def script : Shell → String
  | fish => fishScript
  | bash => bashScript
  | zsh => zshScript

end Shell

end SourceWeb.Command
