/-
  Normal spellings: `.` and `..` worked off without looking at any file system.

  Each `..` removes the component before it, whatever that is; where there is none, it stays.  The
  way from one path to another goes up to what they share, then down.
-/
import SourceWeb.Path.Basic

namespace SourceWeb.Path

/-- One step of normalisation on the components kept so far, the last of them first. -/
def normalStep (kept : List String) : Component → List String
  | .root => kept
  | .here => kept
  | .up =>
    match kept with
    | _ :: kept => kept
    | [] => [".."]
  | .name s => s :: kept

def normalSegments (p : Path) : List String :=
  (p.components.foldl normalStep []).reverse

def normal (p : Path) : Path :=
  ⟨(if p.isAbsolute then "/" else "") ++ "/".intercalate p.normalSegments⟩

/-- Is the text a reference that starts in the current directory or the one above? -/
def isRelativeReference (t : String) : Bool :=
  Text.startsWith "./" t || Text.startsWith "../" t

/-- The path read from the directory `here`: an empty path has no such reading.  A trailing slash
    and a double slash at the start are kept. -/
def absoluteFrom (here p : Path) : Option Path :=
  if p.text = "" then none
  else
    let named := p.components.filter fun c => c != .here
    let base :=
      if p.isAbsolute then
        if Text.startsWith "//" p.text && !Text.startsWith "///" p.text then
          (named.drop 1).foldl (fun q c => q.child c.text) ⟨"//"⟩
        else ofComponents named
      else named.foldl (fun q c => q.child c.text) here
    some (if Text.endsWith "/" p.text then base.child "" else base)

/-! ### The way from one path to another -/

/-- One `..` for each component to be left, where a `..` itself cannot be left. -/
def climb (cs : List Component) : List Component :=
  cs.map fun _ => .up

/-- The components that lead from `base` to `p`, where they do not share their first component. -/
def wayApart : List Component → List Component → Option (List Component)
  | [], base => some (climb base)
  | p, [] => some p
  | c :: p, .here :: base => (wayApart p base).map (c :: ·)
  | _ :: _, .up :: _ => none
  | p, base => some (climb base ++ p)

def wayFrom : List Component → List Component → Option (List Component)
  | c :: p, d :: base => if c = d then wayFrom p base else wayApart (c :: p) (d :: base)
  | p, base => wayApart p base

/-- The relative path from `base` to `p`.  There is none from an absolute path to a relative one or
    out of a `..`; an absolute `p` is reached from a relative `base` by itself. -/
def relativeTo? (p base : Path) : Option Path :=
  if p.isAbsolute != base.isAbsolute then
    if p.isAbsolute then some p else none
  else (wayFrom p.components base.components).map ofComponents

end SourceWeb.Path
