/-
  Following references from file to file, breadth first.

  A run keeps a queue of files.  It takes the first one, scans it if it belongs to a language, looks
  up every reference found, and puts the files that these lead to at the end of the queue, unless
  they are left out or were reached before.
-/
import SourceWeb.Alias.Nearest
import SourceWeb.Discovery.Event
import SourceWeb.Ignore.Walk
import SourceWeb.Language.Registry

namespace SourceWeb.Discovery

open SourceWeb.Ignore (RuleCache Matcher)

/-- What a run works with: the files, the languages, what is left out, and whether paths are
    freed from links. -/
structure Setting where
  disk : Disk
  registry : Registry
  matcher : Matcher
  canonicalize : Bool

namespace Setting

def root (s : Setting) : Path :=
  s.matcher.projectRoot

/-- The path under which a file is known: absolute and normal, and free of links where that is
    asked for and possible. -/
def identity (s : Setting) (p : Path) : Path :=
  let absolute :=
    if p.isAbsolute then p
    else match s.disk.absolute p with
      | .ok q => q
      | .error _ => s.root.join p
  if s.canonicalize then
    match s.disk.canonical absolute with
    | .ok q => q
    | .error _ => absolute.normal
  else absolute.normal

/-! ### Looking up -/

/-- The file that a relative reference names, as it is written or with one of the endings. -/
def probeRelative (s : Setting) (dir : Path) (value : String) : Option Path :=
  let base := (dir.child value).normal
  (base :: s.registry.probeEndings.map base.withSuffix).find? s.disk.isFile

/-- The file that a reference leads to and what found it: the reference as a relative path, else the
    first language that finds one. -/
def resolve (s : Setting) (site : Site) (r : Reference) : Option (Path × String) :=
  let relative := if r.isRelative then s.probeRelative site.dir r.value else none
  match relative with
  | some p => some (p, "relative")
  | none => s.registry.resolvers.findSome? fun l =>
    match l.resolver with
    | some look => (look s.disk site r).map fun p => (p, l.name)
    | none => none

end Setting

/-! ### The run -/

/-- Where a run stands: the files still to be looked at, those that were recognised or reached, all
    files so far, the events, the number of scans, and what was read of aliases and ignore files. -/
structure State where
  queue : List Path
  visited : List Path
  files : List Path
  events : List Event
  scanCount : Nat
  aliases : Alias.Cache
  rules : RuleCache

namespace State

def log (st : State) (e : Event) : State :=
  { st with events := st.events ++ [e] }

def addPath (ps : List Path) (p : Path) : List Path :=
  if p.isIn ps then ps else ps ++ [p]

def seed (s : Setting) (st : State) (p : Path) : State :=
  let recognized := s.registry.isRecognized p
  { st with
    queue := st.queue ++ [p]
    visited := if recognized then addPath st.visited p else st.visited
    files := addPath st.files p
    events := st.events ++ [.seeded p recognized] }

def start (s : Setting) (seeds : List Path) (events : List Event) (rules : RuleCache) : State :=
  seeds.foldl (seed s) ⟨[], [], [], events, 0, [], rules⟩

def follow (s : Setting) (site : Site) (st : State) (r : Reference) : State :=
  match s.resolve site r with
  | none => st.log (.unresolved site.file r.display)
  | some (found, via) =>
    let target := s.identity found
    let (ignored, rules) := (s.matcher.isIgnored s.disk target).run st.rules
    let st := { st with rules := rules }
    -- the rules count before all else: a file that was reached may be excluded again and again
    if ignored then st.log (.excluded site.file target)
    else if target.isIn st.visited then st
    else if !s.disk.isFile target then st.log (.notAFile site.file target)
    else
      { st with
        queue := st.queue ++ [target]
        visited := st.visited ++ [target]
        files := addPath st.files target
        events := st.events ++ [.resolved site.file r.display target via] }

def visit (s : Setting) (st : State) (file : Path) (l : Language) : State :=
  match s.disk.read file with
  | .error e => st.log (.readFailed file e.message)
  | .ok bytes =>
    let references := l.scan file (Text.decodeLossy bytes)
    let (aliases, cache) := (Alias.forFile s.disk s.root file).run st.aliases
    let st := { st with
      scanCount := st.scanCount + 1
      aliases := cache
      events := st.events ++ [.scanned file l.name references.length] }
    let site : Site := ⟨s.root, aliases, aliases.map AliasMap.targetBase, file⟩
    references.foldl (follow s site) st

/-- One step: looks at the first file of the queue. -/
def step (s : Setting) (st : State) : State :=
  match st.queue with
  | [] => st
  | file :: queue =>
    let st := { st with queue := queue }
    match s.registry.languageOf? file with
    | some l => visit s st file l
    | none => st

/-- Steps until the queue is empty, at most `fuel` of them. -/
def run (s : Setting) : Nat → State → State
  | 0, st => st
  | fuel + 1, st => if st.queue.isEmpty then st else run s fuel (step s st)

def report (st : State) : Report :=
  ⟨st.files, st.events, st.scanCount⟩

end State

/-! ### How long a run can take -/

def nameCount : Folder → Nat
  | .empty => 0
  | .file _ _ others => nameCount others + 1
  | .link _ _ others | .special _ others => nameCount others + 1
  | .folder _ inside others => nameCount inside + nameCount others + 1

/-- More than the number of normal paths that lead to a regular file: such a path is a chain of
    names, no longer than the tree is deep for every link on the way. -/
def pathBound (d : Disk) : Nat :=
  let names := nameCount d.root + 2
  Nat.pow names (names * (Disk.linkLimit + 1))

def discover (s : Setting) (seeds : List Path) (events : List Event) (rules : RuleCache) : Report :=
  let seeds := Path.distinct seeds
  ((State.start s seeds events rules).run s (seeds.length + pathBound s.disk)).report

end SourceWeb.Discovery
