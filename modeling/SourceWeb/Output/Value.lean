/-
  Values in the formats of results.
-/
import SourceWeb.Output.Format
import SourceWeb.Output.Xml
import SourceWeb.Output.Yaml

namespace SourceWeb.Format

/-- A value in a format; Markdown has no form for values of its own and takes that of JSON, which is
    compact only where JSON is asked for and `pretty` is not. -/
def write (format : Format) (pretty : Bool) (names : Xml.Names) (v : Json) :
    Except Xml.Defect String :=
  match format with
  | markdown => .ok v.pretty
  | json => .ok (if pretty then v.pretty else v.compact)
  | yaml => .ok (Yaml.render v)
  | xml => Xml.render names v

end SourceWeb.Format
