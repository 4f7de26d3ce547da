/-
  TOML values, and what settings ask of them: strings, truth values and arrays of strings.
-/

namespace SourceWeb

/-- A value.  Numbers, dates and times are kept as they are spelled; the members of a table stand
    in the order in which their keys came up. -/
inductive Toml
  | str (s : String)
  | bool (b : Bool)
  | number (text : String)
  | moment (text : String)
  | arr (items : List Toml)
  | table (members : List (String × Toml))
  deriving Inhabited

namespace Toml

def str? : Toml → Option String
  | str s => some s
  | _ => none

def bool? : Toml → Option Bool
  | bool b => some b
  | _ => none

def strs? : Toml → Option (List String)
  | arr items => items.mapM str?
  | _ => none

end Toml

end SourceWeb
