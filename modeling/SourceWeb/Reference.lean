/-
  References from one source file to another, as they are written in the file.
-/
import SourceWeb.Path.Normal

namespace SourceWeb

/-- A reference: its text alone, or its text together with the kind of statement it stands in, where
    a language looks up different kinds in different ways. -/
inductive Reference
  | plain (value : String)
  | kinded (kind value : String)
  deriving DecidableEq, Repr, Inhabited

namespace Reference

def value : Reference → String
  | plain v => v
  | kinded _ v => v

def kind? : Reference → Option String
  | plain _ => none
  | kinded k _ => some k

def isKind (r : Reference) (kind : String) : Bool :=
  r.kind? = some kind

/-- Does the reference start in the directory of its file or the one above? -/
def isRelative (r : Reference) : Bool :=
  Path.isRelativeReference r.value

/-- How a reference is shown: its kind and a colon in front, if it has one. -/
def display : Reference → String
  | plain v => v
  | kinded k v => k ++ ":" ++ v

/-- The references without those that occur earlier in the list. -/
def distinct (rs : List Reference) : List Reference :=
  rs.foldl (fun found r => if found.contains r then found else found ++ [r]) []

end Reference

end SourceWeb
