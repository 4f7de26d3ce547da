/-
  What a discovery run reports: the files it found and, in order, what it did to find them.
-/
import SourceWeb.Json.Basic
import SourceWeb.Path.Basic

namespace SourceWeb.Discovery

/-- Something that happened in a run. -/
inductive Event
  /-- An input that leads nowhere. -/
  | missingInput (path : Path)
  /-- A file that the run starts from, and whether it belongs to a language. -/
  | seeded (path : Path) (recognized : Bool)
  /-- A file was scanned, and so many references were found in it. -/
  | scanned (path : Path) (language : String) (references : Nat)
  /-- A reference led to a file that was not known before. -/
  | resolved (source : Path) (reference : String) (target : Path) (via : String)
  /-- A reference led nowhere. -/
  | unresolved (source : Path) (reference : String)
  /-- A reference led to a path that is left out. -/
  | excluded (source path : Path)
  /-- A reference led to something that is no regular file. -/
  | notAFile (source path : Path)
  /-- A file could not be read. -/
  | readFailed (path : Path) (error : String)
  deriving DecidableEq, Repr

/-- The outcome of a run: the files, those it started from first and then those it found in the
    order in which it found them; the events; and how many files were scanned. -/
structure Report where
  files : List Path
  events : List Event
  scanCount : Nat
  deriving DecidableEq, Repr

namespace Report

def sortedFiles (r : Report) : List Path :=
  Path.sort r.files

def isUnresolved : Event → Bool
  | .unresolved .. => true
  | _ => false

def unresolvedCount (r : Report) : Nat :=
  r.events.countP isUnresolved

end Report

namespace Event

def toJson : Event → Json
  | missingInput path => .obj [("event", .str "missing_input"), ("path", .str path.text)]
  | seeded path recognized =>
    .obj [("event", .str "seeded"), ("path", .str path.text), ("recognized", .bool recognized)]
  | scanned path language references =>
    .obj [("event", .str "scanned"), ("path", .str path.text), ("plugin", .str language),
      ("specifiers", .nat references)]
  | resolved source reference target via =>
    .obj [("event", .str "resolved"), ("from", .str source.text), ("specifier", .str reference),
      ("to", .str target.text), ("via", .str via)]
  | unresolved source reference =>
    .obj [("event", .str "unresolved"), ("from", .str source.text), ("specifier", .str reference)]
  | excluded source path =>
    .obj [("event", .str "excluded"), ("from", .str source.text), ("path", .str path.text)]
  | notAFile source path =>
    .obj [("event", .str "not_a_file"), ("from", .str source.text), ("path", .str path.text)]
  | readFailed path error =>
    .obj [("event", .str "read_failed"), ("path", .str path.text), ("error", .str error)]

end Event

end SourceWeb.Discovery
