/-
  What the languages known from the start try.

  However a language goes about a reference, it comes to a list of paths that it tries one after the
  other, and gives the first of them that leads to a regular file, in normal spelling.  The lists
  say what is tried; which of the paths leads to a file is asked under the spelling in the list.
-/
import SourceWeb.Language.Registry
import SourceWeb.Proofs.First

namespace SourceWeb

open SourceWeb.Path SourceWeb.Text

/-! ### The first file of a list -/

namespace Disk

variable {d : Disk} {α : Type}

/-- The first of the paths that leads to a regular file, in normal spelling. -/
def firstFile (d : Disk) (ps : List Path) : Option Path :=
  (ps.find? d.isFile).map Path.normal

theorem firstFile_nil (d : Disk) : d.firstFile [] = none :=
  rfl

theorem existingFile_eq (d : Disk) (p : Path) : d.existingFile p = d.firstFile [p] := by
  rw [existingFile, firstFile, List.find?_singleton]
  split <;> rfl

theorem findSome?_existingFile (d : Disk) (ps : List Path) :
    ps.findSome? d.existingFile = d.firstFile ps := by
  induction ps with
  | nil => rfl
  | cons p ps ih =>
    rw [List.findSome?_cons, ih, existingFile, firstFile, firstFile, List.find?_cons]
    cases d.isFile p <;> rfl

theorem firstFile_append (d : Disk) (ps qs : List Path) :
    d.firstFile (ps ++ qs) = (d.firstFile ps).or (d.firstFile qs) := by
  rw [firstFile, firstFile, firstFile, List.find?_append]
  cases ps.find? d.isFile <;> rfl

/-- Asking one list after the other is asking all of them in a row. -/
theorem findSome?_firstFile (d : Disk) (tried : α → List Path) (l : List α) :
    (l.findSome? fun a => d.firstFile (tried a)) = d.firstFile (l.flatMap tried) := by
  simp only [← findSome?_existingFile, findSome?_flatMap]

theorem bind_firstFile (d : Disk) (tried : α → List Path) (o : Option α) :
    (o.bind fun a => d.firstFile (tried a)) = d.firstFile (o.toList.flatMap tried) := by
  cases o with
  | none => rfl
  | some a => simp

theorem ite_firstFile (d : Disk) (c : Prop) [Decidable c] (ps qs : List Path) :
    (if c then d.firstFile ps else d.firstFile qs) = d.firstFile (if c then ps else qs) := by
  split <;> rfl

/-- What is tried on a path with endings. -/
def withEndings (endings : List String) (base : Path) : List Path :=
  base :: endings.map base.withSuffix ++ endings.map (base.child "index").withSuffix

theorem tryExtensions_eq (d : Disk) (base : Path) (endings : List String) :
    d.tryExtensions base endings = d.firstFile (withEndings endings base) :=
  d.findSome?_existingFile _

end Disk

/-! ### Languages -/

namespace Language

/-- What is tried for a reference, in this order. -/
abbrev Tried (α : Type) := Disk → Site → α → List Path

/-- Does a look-up give the first file of what is tried? -/
def Tries {α : Type} (look : Disk → Site → α → Option Path) (tried : Tried α) : Prop :=
  ∀ disk site r, look disk site r = disk.firstFile (tried disk site r)

/-- Only for files of the given endings anything is tried. -/
def triedFor (endings : List String) (tried : Tried Reference) : Tried Reference :=
  fun disk site r => if site.hasAnyEnding endings then tried disk site r else []

/-- Only for references of one kind anything is tried. -/
def triedOfKind (kind : String) (tried : Tried String) : Tried Reference :=
  fun disk site r => if r.isKind kind then tried disk site r.value else []

theorem Tries.resolverFor {endings : List String} {look : Resolver} {tried : Tried Reference}
    (h : Tries look tried) : Tries (resolverFor endings look) (triedFor endings tried) := by
  intro disk site r
  rw [Language.resolverFor, triedFor, h disk site r]
  exact disk.ite_firstFile _ _ []

theorem Tries.resolverOfKind {kind : String} {look : Disk → Site → String → Option Path}
    {tried : Tried String} (h : Tries look tried) :
    Tries (resolverOfKind kind look) (triedOfKind kind tried) := by
  intro disk site r
  rw [Language.resolverOfKind, triedOfKind, h disk site r.value]
  exact disk.ite_firstFile _ _ []

namespace JavaScript

/-- The module itself and, if it has the ending of a compiled file, the module without that. -/
def moduleTried (endings : List String) (base : Path) : List Path :=
  Disk.withEndings endings base ++
    (compiledEndings.findSome? fun e => beforeEnd e base.text).toList.flatMap fun stem =>
      Disk.withEndings endings ⟨stem⟩

theorem probeModule_eq (disk : Disk) (endings : List String) (base : Path) :
    probeModule disk endings base = disk.firstFile (moduleTried endings base) := by
  unfold probeModule
  rw [moduleTried, Disk.firstFile_append, ← Disk.bind_firstFile, Disk.tryExtensions_eq]
  cases disk.firstFile (Disk.withEndings endings base) with
  | some found => rfl
  | none =>
    cases compiledEndings.findSome? fun e => beforeEnd e base.text with
    | none => rfl
    | some stem => exact disk.tryExtensions_eq _ _

/-- The module under the aliases and under their base directory, or, without aliases, in `src`. -/
def bareTried (endings : List String) (site : Site) (target : String) : List Path :=
  match site.aliases with
  | some aliases =>
    let base := site.aliasBase.getD aliases.targetBase
    ((aliases.expand target).map base.child ++
      aliases.baseUrl.toList.map fun url => url.child target).flatMap (moduleTried endings)
  | none => (afterStart "@/" target).toList.flatMap fun rest =>
    moduleTried endings ((site.projectRoot.child "src").child rest)

theorem resolveBare_eq (disk : Disk) (endings : List String) (site : Site) (target : String) :
    resolveBare disk endings site target = disk.firstFile (bareTried endings site target) := by
  unfold resolveBare bareTried
  cases site.aliases with
  | some aliases =>
    dsimp only
    rw [← Disk.findSome?_firstFile, ← funext (probeModule_eq disk endings)]
    cases aliases.baseUrl <;> rfl
  | none =>
    rw [← Disk.bind_firstFile]
    cases afterStart "@/" target with
    | none => rfl
    | some rest => exact probeModule_eq disk endings _

def tried (endings : List String) : Tried Reference := fun _ site r =>
  match r with
  | .kinded _ _ => []
  | .plain target =>
    if Path.isRelativeReference target then moduleTried endings (site.dir.child target)
    else if startsWith "/" target then
      moduleTried endings (site.projectRoot.child (dropLeading '/' target))
    else bareTried endings site target

theorem tries_resolveModule (endings : List String) :
    Tries (resolveModule endings) (tried endings) := by
  intro disk site r
  cases r with
  | kinded kind value => rfl
  | plain target =>
    simp only [resolveModule, tried, probeModule_eq, resolveBare_eq, Disk.ite_firstFile]

end JavaScript

namespace Python

def moduleTried (dotted : String) (base : Path) : List Path :=
  if dotted = "" then [base.child "__init__.py"]
  else
    let parts := (splitChar '.' dotted).filter fun s => s != ""
    let module := base.join (parts.foldl Path.child ⟨""⟩)
    [module.withSuffix ".py", module.withSuffix ".pyi", module.child "__init__.py"]

theorem moduleFile_eq (disk : Disk) (base : Path) (dotted : String) :
    moduleFile disk base dotted = disk.firstFile (moduleTried dotted base) := by
  rw [moduleFile, moduleTried, ← Disk.ite_firstFile, Disk.existingFile_eq,
    Disk.findSome?_existingFile]

def tried : Tried String := fun _ site module =>
  let cs := module.toList
  let dots := (cs.takeWhile (· == '.')).length
  let dotted := String.ofList (cs.drop dots)
  if dots = 0 then (searchRoots site).flatMap (moduleTried dotted)
  else (climb (dots - 1) site.dir).toList.flatMap (moduleTried dotted)

theorem tries_resolve : Tries resolve tried := by
  intro disk site module
  simp only [resolve, tried, moduleFile_eq, Disk.findSome?_firstFile, Disk.bind_firstFile,
    Disk.ite_firstFile]

end Python

namespace Ruby

/-- The file at a path, with the ending of the language. -/
def fileTried (base : Path) : Path :=
  if base.extension? = some "rb" then base else base.withSuffix ".rb"

theorem rubyFile_eq (disk : Disk) (base : Path) :
    rubyFile disk base = disk.firstFile [fileTried base] := by
  rw [rubyFile, fileTried, Disk.existingFile_eq, Disk.existingFile_eq]
  split <;> rfl

def tried : Tried Reference := fun disk site r =>
  match r.kind? with
  | some "require" | some "load" =>
    [site.projectRoot.child "lib", site.projectRoot, site.dir].flatMap fun base =>
      [fileTried (base.child r.value)]
  | some "gem" => [fileTried (site.dir.child r.value)]
  | some "constant" =>
    (constantBases disk site.projectRoot).flatMap fun base =>
      [fileTried (base.child (underscore r.value))]
  | _ => []

theorem tries_resolve : Tries resolve tried := by
  intro disk site r
  simp only [resolve, tried, rubyFile_eq, Disk.findSome?_firstFile]
  split <;> simp [*, Disk.firstFile_nil]

end Ruby

namespace Rust

/-- The files of a module among the children in a directory. -/
def moduleTried (name : String) (dir : Path) : List Path :=
  [dir.child (name ++ ".rs"), (dir.child name).child "mod.rs"]

theorem moduleFile_eq (disk : Disk) (dir : Path) (name : String) :
    moduleFile disk dir name = disk.firstFile (moduleTried name dir) :=
  disk.findSome?_existingFile _

/-- A declared module among the children of the file, then beside the file. -/
def modTried (name : String) (file : Path) : List Path :=
  (moduleDir file).toList.flatMap fun dir =>
    moduleTried name dir ++ file.parent?.toList.flatMap fun parent =>
      if parent.same dir then [] else moduleTried name parent

theorem resolveMod_eq (disk : Disk) (name : String) (file : Path) :
    resolveMod disk name file = disk.firstFile (modTried name file) := by
  rw [modTried, ← Disk.bind_firstFile]
  refine congrArg (Option.bind _) (funext fun dir => ?_)
  rw [moduleFile_eq, Disk.firstFile_append, ← Disk.bind_firstFile]
  cases disk.firstFile (moduleTried name dir) with
  | some found => rfl
  | none =>
    refine congrArg (Option.bind _) (funext fun parent => ?_)
    rw [moduleFile_eq, ← Disk.ite_firstFile]
    rfl

/-- A module that segments lead to, the one with the most segments first. -/
def deepestTried (base : Path) (segments : List String) : List Path :=
  (List.range segments.length).reverse.flatMap fun n =>
    segments[n]?.toList.flatMap fun name =>
      moduleTried name ((segments.take n).foldl Path.child base)

theorem deepestModule_eq (disk : Disk) (base : Path) (segments : List String) :
    deepestModule disk base segments = disk.firstFile (deepestTried base segments) := by
  rw [deepestModule, deepestTried, ← Disk.findSome?_firstFile]
  refine findSome?_congr fun n _ => ?_
  rw [← Disk.bind_firstFile]
  cases segments[n]? with
  | none => rfl
  | some name => exact moduleFile_eq disk _ name

/-- Where the path of a `use` starts. -/
def useBase (disk : Disk) (site : Site) (first : String) : Option Path :=
  if first = "crate" then crateSource disk site
  else if first = "self" then moduleDir site.file
  else if first = "super" then (moduleDir site.file).bind Path.parent?
  else none

def useTried (disk : Disk) (site : Site) (path : String) : List Path :=
  match (splitAtText "::".toList path.toList).map String.ofList with
  | [] => []
  | first :: rest =>
    ((useBase disk site first).bind fun base => climbSupers base rest).toList.flatMap fun at_ =>
      deepestTried at_.1 at_.2

theorem resolveUse_eq (disk : Disk) (site : Site) (path : String) :
    resolveUse disk site path = disk.firstFile (useTried disk site path) := by
  unfold resolveUse useTried
  cases (splitAtText "::".toList path.toList).map String.ofList with
  | nil => rfl
  | cons first rest =>
    have hbase : ∀ base : Option Path,
        (base.bind fun base => (climbSupers base rest).bind fun at_ =>
          deepestModule disk at_.1 at_.2) =
        disk.firstFile ((base.bind fun base => climbSupers base rest).toList.flatMap fun at_ =>
          deepestTried at_.1 at_.2) := by
      intro base
      simp only [← Disk.bind_firstFile, Option.bind_assoc, deepestModule_eq]
    dsimp only
    rw [← hbase, useBase]
    split
    · rfl
    · split
      · rfl
      · split <;> rfl

def tried : Tried Reference := fun disk site r =>
  match r.kind? with
  | some "module" => modTried r.value site.file
  | some "use" => useTried disk site r.value
  | _ => []

theorem tries_resolve : Tries resolve tried := by
  intro disk site r
  simp only [resolve, tried, resolveMod_eq, resolveUse_eq]
  split <;> simp [*, Disk.firstFile_nil]

end Rust

namespace Go

/-- The source files of a package that are no tests, in the order of paths. -/
def packageTried (disk : Disk) (dir : Path) : List Path :=
  (disk.list dir).toOption.toList.flatMap fun entries =>
    sort (entries.filter fun p => disk.isFile p && isSource p)

theorem packageFile_eq (disk : Disk) (dir : Path) :
    packageFile disk dir = disk.firstFile (packageTried disk dir) := by
  rw [packageTried, ← Disk.bind_firstFile]
  refine congrArg (Option.bind _) (funext fun entries => ?_)
  rw [Disk.firstFile]
  -- all of them are files, so the first one is the first file
  have hall : ∀ p ∈ sort (entries.filter fun p => disk.isFile p && isSource p),
      disk.isFile p = true := by
    intro p hp
    rw [sort, List.mem_mergeSort, List.mem_filter, Bool.and_eq_true] at hp
    exact hp.2.1
  cases hsorted : sort (entries.filter fun p => disk.isFile p && isSource p) with
  | nil => rfl
  | cons p ps => rw [List.find?_cons_of_pos (hall p (by simp [hsorted]))]; rfl

def packageDir (disk : Disk) (site : Site) (target : String) : Option Path :=
  if Path.isRelativeReference target then some (site.dir.child target).normal
  else (enclosingModule disk site).bind fun at_ =>
    if target = at_.2 then some at_.1 else (afterStart (at_.2 ++ "/") target).map at_.1.child

def tried : Tried String := fun disk site target =>
  (packageDir disk site target).toList.flatMap (packageTried disk)

theorem tries_resolve : Tries resolve tried := by
  intro disk site target
  rw [tried, ← Disk.bind_firstFile, ← funext (packageFile_eq disk), packageDir]
  unfold resolve
  split
  · rfl
  · rw [Option.bind_assoc]
    refine congrArg (Option.bind _) (funext fun at_ => ?_)
    dsimp only
    split <;> rfl

end Go

namespace C

def tried : Tried String := fun _ site header =>
  let root := site.projectRoot
  [site.dir, root, root.child "include", root.child "src"].map fun dir => dir.child header

theorem tries_resolve : Tries resolve tried := by
  intro disk site header
  rw [tried, ← Disk.findSome?_existingFile, List.findSome?_map]
  rfl

end C

namespace Css

def tried : Tried String := fun _ site target =>
  candidates <| match afterStart "/" target with
    | some rooted => site.projectRoot.child rooted
    | none => site.dir.child (dropLeading '~' target)

theorem tries_resolve : Tries resolve tried := by
  intro disk site target
  exact disk.findSome?_existingFile _

end Css

namespace Java

/-- The files of a class, under each root of sources. -/
def classTried (site : Site) (parts : List String) : List Path :=
  sourceRoots.flatMap fun root =>
    let base := (site.projectRoot.child root).child ("/".intercalate parts)
    [base.withSuffix ".java", base.withSuffix ".kt"]

theorem classFile_eq (disk : Disk) (site : Site) (parts : List String) :
    classFile disk site parts = disk.firstFile (classTried site parts) := by
  simp only [classFile, classTried, Disk.findSome?_existingFile, Disk.findSome?_firstFile]

def tried : Tried String := fun _ site target =>
  let segments := splitChar '.' target
  ([segments, segments.dropLast].filter fun parts => !parts.isEmpty).flatMap (classTried site)

theorem tries_resolve : Tries resolve tried := by
  intro disk site target
  rw [tried, ← Disk.findSome?_firstFile, ← funext (classFile_eq disk site)]
  rfl

end Java

namespace Php

/-- The file of a class below the directories of a name space. -/
def spaceTried (class_ : String) (space : String × List Path) : List Path :=
  (afterStart space.1 class_).toList.flatMap fun rest =>
    space.2.map fun dir => dir.child (replaceAll "\\" "/" (dropLeading '\\' rest) ++ ".php")

theorem spaceFile_eq (disk : Disk) (class_ : String) (space : String × List Path) :
    spaceFile disk class_ space = disk.firstFile (spaceTried class_ space) := by
  rw [spaceTried, ← Disk.bind_firstFile, spaceFile]
  cases afterStart space.1 class_ with
  | none => rfl
  | some rest =>
    rw [Option.bind_some, ← Disk.findSome?_existingFile, List.findSome?_map, Function.comp_def]

def classTried (disk : Disk) (root : Path) (class_ : String) : List Path :=
  (nameSpaces disk root).flatMap (spaceTried class_) ++ classCandidates root class_

theorem resolveClass_eq (disk : Disk) (root : Path) (class_ : String) :
    resolveClass disk root class_ = disk.firstFile (classTried disk root class_) := by
  unfold resolveClass
  rw [classTried, Disk.firstFile_append, ← Disk.findSome?_firstFile,
    ← funext (spaceFile_eq disk class_), Disk.findSome?_existingFile]
  cases (nameSpaces disk root).findSome? (spaceFile disk class_) with
  | some found => rw [Option.some_or]
  | none => rw [Option.none_or]

def includeTried (site : Site) (target : String) : List Path :=
  site.dir.child target ::
    if Path.isRelativeReference target then []
    else [site.projectRoot.child (dropLeading '/' target)]

theorem resolveInclude_eq (disk : Disk) (site : Site) (target : String) :
    resolveInclude disk site target = disk.firstFile (includeTried site target) := by
  unfold resolveInclude includeTried
  rw [← List.singleton_append, Disk.firstFile_append, ← Disk.ite_firstFile,
    ← Disk.existingFile_eq, ← Disk.existingFile_eq]
  cases disk.existingFile (site.dir.child target) with
  | some found => rw [Option.some_or]
  | none => rw [Option.none_or, Disk.firstFile_nil]

def tried : Tried Reference := fun disk site r =>
  match r.kind? with
  | some "include" => includeTried site r.value
  | some "namespace" => classTried disk site.projectRoot r.value
  | _ => []

theorem tries_resolve : Tries resolve tried := by
  intro disk site r
  simp only [resolve, tried, resolveInclude_eq, resolveClass_eq]
  split <;> simp [*, Disk.firstFile_nil]

end Php

namespace Html

def tried : Tried String := fun _ site target =>
  let path := String.ofList (target.toList.takeWhile fun c => c != '?' && c != '#')
  if path = "" then []
  else match afterStart "/" path with
    | some rooted => [site.projectRoot.child rooted]
    | none => [site.dir.child path]

theorem tries_resolve : Tries resolve tried := by
  intro disk site target
  simp only [resolve, tried, Disk.existingFile_eq]
  generalize String.ofList (target.toList.takeWhile fun c => c != '?' && c != '#') = path
  split
  · rw [Disk.firstFile_nil]
  · cases afterStart "/" path <;> rfl

end Html

namespace Shell

def tried : Tried String := fun _ site target =>
  [site.dir.child target, site.projectRoot.child (String.ofList (dropHere target.toList))]

theorem tries_resolve : Tries resolve tried := by
  intro disk site target
  exact disk.findSome?_existingFile _

end Shell

namespace Docker

def tried : Tried String := fun _ site target =>
  [site.dir.child (dropLeading '/' target)]

theorem tries_resolve : Tries resolve tried := by
  intro disk site target
  exact disk.existingFile_eq _

end Docker

end Language

namespace Registry

open SourceWeb.Language

/-- The languages known from the start, with what they try. -/
def builtinTried : List (Language × Tried Reference) :=
  [(javaScript, triedFor javaScript.endings <|
      JavaScript.tried [".js", ".jsx", ".mjs", ".cjs", ".ts", ".tsx", ".json"]),
    (typeScript, triedFor typeScript.endings <| JavaScript.tried
      [".ts", ".tsx", ".d.ts", ".mts", ".cts", ".js", ".jsx", ".mjs", ".cjs", ".json"]),
    (python, triedFor python.endings <| triedOfKind "module" Python.tried),
    (ruby, triedFor ruby.endings Ruby.tried),
    (rust, triedFor rust.endings Rust.tried),
    (go, triedFor go.endings <| triedOfKind "package" Go.tried),
    (cFamily, triedFor cFamily.endings <| triedOfKind "include" C.tried),
    (css, triedFor css.endings <| triedOfKind "stylesheet_import" Css.tried),
    (java, triedFor java.endings <| triedOfKind "import" Java.tried),
    (php, triedFor php.endings Php.tried),
    (html, triedFor html.endings <| triedOfKind "asset" Html.tried),
    (shell, triedFor shell.endings <| triedOfKind "source" Shell.tried),
    (docker, triedFor docker.endings <| triedOfKind "copy" Docker.tried)]

theorem map_fst_builtinTried : builtinTried.map Prod.fst = builtinLanguages :=
  rfl

/-- The languages known from the start give the first file of what they try. -/
theorem tries_of_mem_builtinTried {l : Language} {tried : Tried Reference}
    (h : (l, tried) ∈ builtinTried) : ∃ look, l.resolver = some look ∧ Tries look tried := by
  simp only [builtinTried, List.mem_cons, List.not_mem_nil, or_false, Prod.mk.injEq] at h
  rcases h with ⟨rfl, rfl⟩ | ⟨rfl, rfl⟩ | ⟨rfl, rfl⟩ | ⟨rfl, rfl⟩ | ⟨rfl, rfl⟩ | ⟨rfl, rfl⟩ |
    ⟨rfl, rfl⟩ | ⟨rfl, rfl⟩ | ⟨rfl, rfl⟩ | ⟨rfl, rfl⟩ | ⟨rfl, rfl⟩ | ⟨rfl, rfl⟩ | ⟨rfl, rfl⟩ <;>
    refine ⟨_, rfl, Tries.resolverFor ?_⟩
  · exact JavaScript.tries_resolveModule _
  · exact JavaScript.tries_resolveModule _
  · exact Python.tries_resolve.resolverOfKind
  · exact Ruby.tries_resolve
  · exact Rust.tries_resolve
  · exact Go.tries_resolve.resolverOfKind
  · exact C.tries_resolve.resolverOfKind
  · exact Css.tries_resolve.resolverOfKind
  · exact Java.tries_resolve.resolverOfKind
  · exact Php.tries_resolve
  · exact Html.tries_resolve.resolverOfKind
  · exact Shell.tries_resolve.resolverOfKind
  · exact Docker.tries_resolve.resolverOfKind

end Registry

end SourceWeb
