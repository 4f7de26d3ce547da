/-
  The language that a file is marked with where it is quoted.
-/
import SourceWeb.Path.Basic
import SourceWeb.Language.Basic

namespace SourceWeb.Bundle

open SourceWeb.Text

/-- Endings without their dots, and whole names, with the marks of their languages. -/
def languageMarks : List (String × String) :=
  [("js", "javascript"), ("jsx", "jsx"), ("mjs", "javascript"), ("cjs", "javascript"),
    ("ts", "typescript"), ("tsx", "tsx"), ("mts", "typescript"), ("cts", "typescript"),
    ("py", "python"), ("pyi", "python"), ("rb", "ruby"), ("rake", "ruby"), ("gemspec", "ruby"),
    ("Gemfile", "ruby"), ("Rakefile", "ruby"), ("rs", "rust"), ("go", "go"), ("c", "c"),
    ("h", "c"), ("cc", "cpp"), ("cpp", "cpp"), ("cxx", "cpp"), ("hpp", "cpp"), ("hh", "cpp"),
    ("hxx", "cpp"), ("css", "css"), ("scss", "scss"), ("sass", "sass"), ("less", "less"),
    ("java", "java"), ("kt", "kotlin"), ("php", "php"), ("html", "html"), ("htm", "html"),
    ("sh", "bash"), ("bash", "bash"), ("zsh", "zsh"), ("Dockerfile", "dockerfile"),
    ("json", "json"), ("yaml", "yaml"), ("yml", "yaml"), ("toml", "toml"), ("md", "markdown"),
    ("xml", "xml"), ("sql", "sql")]

def wholeNames : List String :=
  ["Gemfile", "Rakefile", "Dockerfile"]

/-- The mark of a file: that of its whole name, then that of the whole name that it continues, then
    that of its ending, then the ending itself. -/
def languageMark (p : Path) : String :=
  match p.fileName? with
  | none => "text"
  | some name =>
    match languageMarks.lookup name with
    | some mark => mark
    | none =>
      if name.toList.contains '.' then
        match p.extension? with
        | some ending => (languageMarks.lookup ending).getD ending
        | none => "text"
      else
        match wholeNames.find? fun key => startsWith key name with
        | some key => (languageMarks.lookup key).getD "text"
        | none => "text"

end SourceWeb.Bundle
