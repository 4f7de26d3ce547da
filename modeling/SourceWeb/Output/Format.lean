/-
  The formats in which results are written.
-/
import SourceWeb.Text.Lower

namespace SourceWeb

inductive Format
  | markdown
  | json
  | yaml
  | xml
  deriving DecidableEq, Repr

namespace Format

def name : Format → String
  | markdown => "markdown"
  | json => "json"
  | yaml => "yaml"
  | xml => "xml"

def extension : Format → String
  | markdown => "md"
  | json => "json"
  | yaml => "yaml"
  | xml => "xml"

structure Unknown where
  name : String
  deriving DecidableEq, Repr

def ofName (s : String) : Except Unknown Format :=
  match Text.lower s with
  | "markdown" | "md" => .ok markdown
  | "json" => .ok json
  | "yaml" | "yml" => .ok yaml
  | "xml" => .ok xml
  | other => .error ⟨other⟩

end Format

end SourceWeb
