/-
  Why a run fails, and how that is put into words.
-/
import SourceWeb.Discovery.Input
import SourceWeb.Output.Value

namespace SourceWeb

inductive Failure
  /-- The file of settings asked for does not exist. -/
  | settingsMissing (path : Path)
  /-- The file of settings asked for does not exist in the directory of settings. -/
  | settingsMissingIn (path dir : Path)
  /-- A file spells no settings. -/
  | settingsMalformed (path : Path)
  /-- The project root asked for cannot be found. -/
  | rootNotFound (path : Path) (cause : OsError)
  /-- A file cannot be read. -/
  | unreadable (path : Path) (cause : OsError)
  /-- A file or directory cannot be written. -/
  | unwritable (path : Path) (cause : OsError)
  /-- The exclude pattern is no pattern. -/
  | badExclude (cause : Ignore.BadExclude)
  /-- A format is not known. -/
  | unknownFormat (cause : Format.Unknown)
  /-- A shell is not known. -/
  | unknownShell (name : String)
  /-- A value cannot be written as XML. -/
  | unwritableXml (cause : Xml.Defect)
  /-- None of the inputs leads anywhere. -/
  | noSeeds (cause : Discovery.NoSeeds)
  deriving DecidableEq, Repr

namespace Failure

def rootMessage (path : Path) (cause : OsError) : String :=
  "Failed to canonicalize project root '" ++ path.text ++ "': " ++ cause.message

def defectMessage : Pattern.Defect → String
  | .unclosedGroup => "unclosed group"
  | .unopenedGroup => "unopened group"
  | .unclosedClass => "unclosed character class"
  | .nothingToRepeat => "repetition operator missing expression"
  | .badCount => "invalid repetition count"
  | .badEscape => "unrecognized escape sequence"
  | .badRange => "invalid character class range"
  | .badFlags => "invalid flags"
  | .badGroupName => "invalid capture group name"
  | .lookaround => "look-around is not supported"
  | .unknownClass => "unknown character class"
  | .beyondAscii => "characters beyond ASCII are not allowed here"
  | .tooDeep => "pattern nested too deeply"
  | .tooLarge => "pattern too large"

/-- What is wrong with an exclude pattern: the pattern on a line of its own, then the defect. -/
def excludeMessage (b : Ignore.BadExclude) : String :=
  "regex parse error:\n    " ++ b.source ++ "\nerror: " ++ defectMessage b.defect

def message : Failure → String
  | settingsMissing path =>
    "Configuration Error: Specified config file not found at path: " ++ path.text
  | settingsMissingIn path dir =>
    "Configuration Error: Specified config file '" ++ path.text ++
      "' not found in default directory: " ++ dir.text
  | settingsMalformed path =>
    "TOML Parsing Error: Error parsing config file '" ++ path.text ++
      "'. Check TOML syntax and structure."
  | rootNotFound path cause => "Filesystem Error: " ++ rootMessage path cause
  | unreadable path cause =>
    "File Read Error: Path '" ++ path.text ++ "', Error: " ++ cause.message
  | unwritable path cause =>
    "File Write Error: Path '" ++ path.text ++ "', Error: " ++ cause.message
  | badExclude cause =>
    "Invalid Exclude Pattern '" ++ cause.source ++ "': " ++ excludeMessage cause
  | unknownFormat cause =>
    "Invalid Argument: Unknown output format \"" ++ cause.name ++
      "\" (expected markdown, json, yaml or xml)"
  | unknownShell name => "Invalid Argument: Unsupported shell for completion: " ++ name
  | unwritableXml cause => "XML Serialization Error: " ++ cause.message
  | noSeeds cause =>
    "None of the input paths could be read: " ++ ", ".intercalate (cause.inputs.map Path.text)

/-- The wording of what caused a failure, where it is told apart from the failure. -/
def causeMessage? : Failure → Option String
  | rootNotFound path cause => some (rootMessage path cause)
  | unreadable _ cause | unwritable _ cause => some cause.message
  | badExclude cause => some (excludeMessage cause)
  | _ => none

end Failure

end SourceWeb
