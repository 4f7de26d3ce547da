/-
  Settings as text.

  Every setting may be missing, and then it has its default; a setting that does not exist is an
  error.  In place of a table an array may stand, with the settings in their order.
-/
import SourceWeb.Json.Basic
import SourceWeb.Settings.Basic
import SourceWeb.Toml.Reader
import SourceWeb.Toml.Writer

namespace SourceWeb.Settings

/-! ### Writing -/

def optional (key : String) : Option String → List (String × Toml.Setting)
  | some s => [(key, .str s)]
  | none => []

def tables (s : Settings) : List (String × List (String × Toml.Setting)) :=
  [("general",
      optional "project_name" s.general.projectName ++
      [("exclude", .str s.general.exclude), ("use_gitignore", .bool s.general.useGitignore),
        ("enable_builtin_ignore", .bool s.general.enableBuiltinIgnore),
        ("canonicalize_paths", .bool s.general.canonicalizePaths)]),
    ("languages", [("disabled", .strs s.languages.disabled)]),
    ("output",
      [("format", .str s.output.format), ("include_tree", .bool s.output.includeTree),
        ("include_project_root", .bool s.output.includeProjectRoot),
        ("include_timestamp", .bool s.output.includeTimestamp),
        ("json_minify", .bool s.output.jsonMinify)]),
    ("save",
      [("output_dir", .str s.save.outputDir)] ++ optional "filename_base" s.save.filenameBase ++
      optional "extension" s.save.extension)]

def toText (s : Settings) : String :=
  Toml.write s.tables

/-! ### Reading -/

/-- The members that a value gives for the fields: those of a table, or the items of an array under
    the names of the fields in their order. -/
def membersFor (fields : List String) : Toml → Option (List (String × Toml))
  | .table members => if members.all fun m => fields.contains m.1 then some members else none
  | .arr items => some (fields.zip items)
  | _ => none

/-- The value of a field, or its default if it is missing; `none` if it is of the wrong kind. -/
def fieldOr {α : Type} (members : List (String × Toml)) (key : String) (read : Toml → Option α)
    (default : α) : Option α :=
  match members.lookup key with
  | some v => read v
  | none => some default

def readGeneral (v : Toml) : Option GeneralSettings := do
  let ms ← membersFor ["project_name", "exclude", "use_gitignore", "enable_builtin_ignore",
    "canonicalize_paths"] v
  let d : GeneralSettings := {}
  let projectName ← fieldOr ms "project_name" (fun v => v.str?.map some) d.projectName
  let exclude ← fieldOr ms "exclude" Toml.str? d.exclude
  let useGitignore ← fieldOr ms "use_gitignore" Toml.bool? d.useGitignore
  let enableBuiltinIgnore ← fieldOr ms "enable_builtin_ignore" Toml.bool? d.enableBuiltinIgnore
  let canonicalizePaths ← fieldOr ms "canonicalize_paths" Toml.bool? d.canonicalizePaths
  return ⟨projectName, exclude, useGitignore, enableBuiltinIgnore, canonicalizePaths⟩

def readLanguages (v : Toml) : Option LanguageSettings := do
  let ms ← membersFor ["disabled"] v
  let d : LanguageSettings := {}
  return ⟨← fieldOr ms "disabled" Toml.strs? d.disabled⟩

def readOutput (v : Toml) : Option OutputSettings := do
  let ms ← membersFor ["format", "include_tree", "include_project_root", "include_timestamp",
    "json_minify"] v
  let d : OutputSettings := {}
  let format ← fieldOr ms "format" Toml.str? d.format
  let includeTree ← fieldOr ms "include_tree" Toml.bool? d.includeTree
  let includeProjectRoot ← fieldOr ms "include_project_root" Toml.bool? d.includeProjectRoot
  let includeTimestamp ← fieldOr ms "include_timestamp" Toml.bool? d.includeTimestamp
  let jsonMinify ← fieldOr ms "json_minify" Toml.bool? d.jsonMinify
  return ⟨format, includeTree, includeProjectRoot, includeTimestamp, jsonMinify⟩

def readSave (v : Toml) : Option SaveSettings := do
  let ms ← membersFor ["output_dir", "filename_base", "extension"] v
  let d : SaveSettings := {}
  let outputDir ← fieldOr ms "output_dir" Toml.str? d.outputDir
  let filenameBase ← fieldOr ms "filename_base" (fun v => v.str?.map some) d.filenameBase
  let extension ← fieldOr ms "extension" (fun v => v.str?.map some) d.extension
  return ⟨outputDir, filenameBase, extension⟩

def ofToml? (v : Toml) : Option Settings := do
  let ms ← membersFor ["general", "languages", "output", "save"] v
  let general ← fieldOr ms "general" readGeneral {}
  let languages ← fieldOr ms "languages" readLanguages {}
  let output ← fieldOr ms "output" readOutput {}
  let save ← fieldOr ms "save" readSave {}
  return ⟨general, languages, output, save⟩

def ofText? (text : String) : Option Settings :=
  (Toml.ofText? text).bind ofToml?

/-! ### As a value -/

def toJson (s : Settings) : Json :=
  .obj [
    ("general", .obj [
      ("project_name", .optionalStr s.general.projectName),
      ("exclude", .str s.general.exclude),
      ("use_gitignore", .bool s.general.useGitignore),
      ("enable_builtin_ignore", .bool s.general.enableBuiltinIgnore),
      ("canonicalize_paths", .bool s.general.canonicalizePaths)]),
    ("languages", .obj [("disabled", .arr (s.languages.disabled.map .str))]),
    ("output", .obj [
      ("format", .str s.output.format),
      ("include_tree", .bool s.output.includeTree),
      ("include_project_root", .bool s.output.includeProjectRoot),
      ("include_timestamp", .bool s.output.includeTimestamp),
      ("json_minify", .bool s.output.jsonMinify)]),
    ("save", .obj [
      ("output_dir", .str s.save.outputDir),
      ("filename_base", .optionalStr s.save.filenameBase),
      ("extension", .optionalStr s.save.extension)])]

end SourceWeb.Settings
