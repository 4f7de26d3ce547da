/-
  What the alias cache answers.

  Aliases are remembered under the directory that a path stands in, and the first path asked about
  there answers for all of them.  Which aliases a path has depends on where the search for the
  configuration file begins, and that is the directory it stands in unless it is one itself.
-/
import SourceWeb.Alias.Nearest
import SourceWeb.Proofs.Disk.Spelling

namespace SourceWeb

open SourceWeb.Path

/-- Do the aliases say the same, up to the spellings of paths? -/
structure AliasMap.Same (a b : AliasMap) : Prop where
  configPath : a.configPath.same b.configPath = true
  baseUrl : Option.Rel (fun p q => p.same q = true) a.baseUrl b.baseUrl
  mappings : a.mappings = b.mappings

namespace Alias

variable {disk : Disk} {root : Path}

/-! ### The search for the configuration file -/

/-- The directory under which the aliases of a path are remembered. -/
def directoryOf (root f : Path) : Path :=
  f.parent?.getD root

/-- The directory where the search for the configuration file begins. -/
def startOf (disk : Disk) (root f : Path) : Path :=
  if disk.isDir f then f else directoryOf root f

/-- The directories that may be searched: those from the start up to the project root, if it lies in
    the project, and the project root. -/
def searched (root start : Path) : List Path :=
  root :: start.ancestors.filter fun dir => dir.startsWith root

/-- The configuration file for everything for which the search begins in this directory. -/
def configFrom (disk : Disk) (root start : Path) : Option Path :=
  (if start.startsWith root then configAlong disk root start.ancestors else none).orElse
    fun _ => configIn disk root

/-- Only where the search begins counts. -/
theorem configFor_eq (disk : Disk) (root f : Path) :
    configFor disk root f = configFrom disk root (startOf disk root f) := by
  unfold configFor startOf configFrom
  cases disk.isDir f with
  | true =>
    simp only [if_true]
    cases hbelow : f.startsWith root <;> simp [Option.filter, hbelow]
  | false =>
    simp only [Bool.false_eq_true, if_false, directoryOf]
    cases hparent : f.parent? with
    | some up =>
      cases hbelow : up.startsWith root <;> simp [Option.filter, hbelow]
    | none =>
      -- nothing stands above the path, and the search is that of the project root
      rw [Option.getD_none, if_pos (startsWith_refl root), ancestors_eq, configAlong,
        if_pos (same_refl root)]
      cases configIn disk root <;> rfl

/-- Do the paths spell the same file, with the same text? -/
def SameFile (disk : Disk) (p q : Path) : Prop :=
  p.same q = true ∧ disk.readText p = disk.readText q

theorem configIn_eq (disk : Disk) (dir : Path) :
    configIn disk dir =
      if disk.isFile (dir.child "tsconfig.json") then some (dir.child "tsconfig.json")
      else if disk.isFile (dir.child "jsconfig.json") then some (dir.child "jsconfig.json")
      else none := by
  unfold configIn
  cases hts : disk.isFile (dir.child "tsconfig.json") <;>
    cases hjs : disk.isFile (dir.child "jsconfig.json") <;> simp [List.find?, hts, hjs]

theorem configIn_same {p q : Path} (hp : disk.ReadsThrough p) (hq : disk.ReadsThrough q)
    (h : p.same q = true) :
    Option.Rel (SameFile disk) (configIn disk p) (configIn disk q) := by
  have hfile : ∀ {name : String}, IsName name → disk.isFile (p.child name) = true →
      SameFile disk (p.child name) (q.child name) := fun hname hisFile =>
    ⟨same_child h _, (hp.alike_child hq h hname).readText hisFile⟩
  have hts : IsName "tsconfig.json" := by simp [IsName, Text.Holds]
  have hjs : IsName "jsconfig.json" := by simp [IsName, Text.Holds]
  rw [configIn_eq, configIn_eq, ← (hp.alike_child hq h hts).isFile,
    ← (hp.alike_child hq h hjs).isFile]
  split
  · rename_i hisFile
    exact .some (hfile hts hisFile)
  · split
    · rename_i hisFile
      exact .some (hfile hjs hisFile)
    · exact .none

/-- The chains of directories above the same directory hold the same configuration file. -/
theorem configAlong_same {p q : Path} (h : p.same q = true) (hbelow : p.startsWith root = true)
    (hp : ∀ dir ∈ searched root p, disk.ReadsThrough dir)
    (hq : ∀ dir ∈ searched root q, disk.ReadsThrough dir) :
    Option.Rel (SameFile disk) (configAlong disk root p.ancestors)
      (configAlong disk root q.ancestors) := by
  induction p using parentInduction generalizing q with
  | child p ih =>
    have hbelow' : q.startsWith root = true := by
      rw [startsWith, below?, ← same_iff.mp h]
      exact hbelow
    have hsame : q.same root = p.same root := by rw [Path.same, Path.same, same_iff.mp h]
    have hsearched : ∀ {p up : Path}, p.parent? = some up → searched root up ⊆ searched root p := by
      intro p up hparent
      refine List.cons_subset_cons _ ?_
      rw [ancestors_eq p, hparent]
      exact List.filter_subset _ (List.subset_cons_self _ _)
    have hself : ∀ {p : Path}, p.startsWith root = true → p ∈ searched root p := fun hbelow =>
      List.mem_cons_of_mem _ (List.mem_filter.mpr ⟨self_mem_ancestors _, by simpa using hbelow⟩)
    have hhere := configIn_same (hp p (hself hbelow)) (hq q (hself hbelow')) h
    rw [ancestors_eq p, ancestors_eq q, configAlong, configAlong, hsame]
    generalize configIn disk p = here, configIn disk q = here' at hhere
    cases hhere with
    | some hfile => exact .some hfile
    | none =>
      cases hstop : p.same root with
      | true => exact .none
      | false =>
        simp only [Bool.false_eq_true, if_false]
        cases hparent : p.parent? with
        | none =>
          cases hparent' : q.parent? with
          | none => exact .none
          | some up' =>
            obtain ⟨up, hup, -⟩ := exists_parent?_of_same (same_symm h) hparent'
            rw [hparent] at hup
            exact absurd hup (by simp)
        | some up =>
          obtain ⟨up', hparent', hups⟩ := exists_parent?_of_same h hparent
          rw [hparent']
          exact ih up hparent hups (startsWith_parent? hbelow hstop hparent)
            (fun dir hdir => hp dir (hsearched hparent hdir))
            (fun dir hdir => hq dir (hsearched hparent' hdir))

theorem configFrom_same {p q : Path} (h : p.same q = true)
    (hp : ∀ dir ∈ searched root p, disk.ReadsThrough dir)
    (hq : ∀ dir ∈ searched root q, disk.ReadsThrough dir) :
    Option.Rel (SameFile disk) (configFrom disk root p) (configFrom disk root q) := by
  have hroot : disk.ReadsThrough root := hp root List.mem_cons_self
  have hfallback := configIn_same hroot hroot (same_refl root)
  have hstarts : q.startsWith root = p.startsWith root := by
    rw [startsWith, startsWith, below?, below?, same_iff.mp h]
  rw [configFrom, configFrom, hstarts]
  cases hbelow : p.startsWith root with
  | false => exact hfallback
  | true =>
    simp only [if_true]
    have halong := configAlong_same h hbelow hp hq
    generalize configAlong disk root p.ancestors = a, configAlong disk root q.ancestors = b
      at halong
    cases halong with
    | some hfile => exact .some hfile
    | none => exact hfallback

/-! ### What the file declares -/

theorem ofText?_same {p q : Path} (h : p.same q = true) (content : String) :
    Option.Rel AliasMap.Same (ofText? content p) (ofText? content q) := by
  unfold ofText?
  cases declared content with
  | none => exact .none
  | some d =>
    simp only [Option.bind_eq_bind, Option.bind_some]
    split
    · exact .none
    · refine .some ⟨h, ?_, rfl⟩
      cases d.baseUrl with
      | none => exact .none
      | some base => exact .some (same_child (same_getD_parent? h _) base)

/-- Paths for which the search begins in the same directory have the same aliases. -/
theorem load_same {f g : Path}
    (h : (startOf disk root f).same (startOf disk root g) = true)
    (hf : ∀ dir ∈ searched root (startOf disk root f), disk.ReadsThrough dir)
    (hg : ∀ dir ∈ searched root (startOf disk root g), disk.ReadsThrough dir) :
    Option.Rel AliasMap.Same (load disk root f) (load disk root g) := by
  have hconfig := configFrom_same h hf hg
  rw [load, load, configFor_eq, configFor_eq]
  generalize configFrom disk root (startOf disk root f) = a,
    configFrom disk root (startOf disk root g) = b at hconfig
  cases hconfig with
  | none => exact .none
  | some hfile =>
    simp only [Option.bind_eq_bind, Option.bind_some, hfile.2]
    cases (disk.readText _).toOption with
    | none => exact .none
    | some content => exact ofText?_same hfile.1 content

/-! ### Runs of the cache -/

/-- The first of the paths that stands in the same directory. -/
def firstOf (root : Path) (fs : List Path) (f : Path) : Path :=
  (fs.find? fun g => (directoryOf root g).same (directoryOf root f)).getD f

/-- Does the cache hold, for each directory that was asked for, the aliases of the first path that
    was asked about? -/
def Remembers (disk : Disk) (root : Path) (fs : List Path) (cache : Cache) : Prop :=
  ∀ dir, (cache.find? fun e => e.1.same dir).map (·.2) =
    (fs.find? fun g => (directoryOf root g).same dir).map (load disk root)

theorem forFile_of_known {f : Path} {cache : Cache} {e : Path × Option AliasMap}
    (h : (cache.find? fun e => e.1.same (directoryOf root f)) = some e) :
    (forFile disk root f).run cache = (e.2, cache) := by
  rw [directoryOf] at h
  simp only [forFile, StateT.run_bind, StateT.run_get, pure_bind, h]
  rfl

theorem forFile_of_unknown {f : Path} {cache : Cache}
    (h : (cache.find? fun e => e.1.same (directoryOf root f)) = none) :
    (forFile disk root f).run cache =
      (load disk root f, cache ++ [(directoryOf root f, load disk root f)]) := by
  rw [directoryOf] at h
  simp only [forFile, StateT.run_bind, StateT.run_get, pure_bind, h]
  rfl

/-- One more question is answered by the first path of the directory. -/
theorem forFile_remembers {fs : List Path} {cache : Cache}
    (hcache : Remembers disk root fs cache) (f : Path) :
    ∃ cache', (forFile disk root f).run cache = (load disk root (firstOf root fs f), cache') ∧
      Remembers disk root (fs ++ [f]) cache' := by
  have hknown := hcache (directoryOf root f)
  cases hfound : cache.find? fun e => e.1.same (directoryOf root f) with
  | some e =>
    rw [hfound, Option.map_some, eq_comm, Option.map_eq_some_iff] at hknown
    obtain ⟨g, hg, hload⟩ := hknown
    refine ⟨cache, ?_, fun dir => ?_⟩
    · rw [forFile_of_known hfound, firstOf, hg, Option.getD_some, hload]
    · rw [hcache dir, List.find?_append]
      cases hfirst : fs.find? fun g => (directoryOf root g).same dir with
      | some _ => rfl
      | none =>
        -- the path stands in no directory that was not asked for
        have hdir : (directoryOf root f).same dir = false := by
          rw [← Bool.not_eq_true]
          intro hsame
          have hgsame := List.find?_some hg
          have hgdir := List.find?_eq_none.mp hfirst g (List.mem_of_find?_eq_some hg)
          rw [same_iff] at hsame hgsame
          exact hgdir (same_iff.mpr (hgsame.trans hsame))
        simp [hdir]
  | none =>
    rw [hfound, Option.map_none, eq_comm, Option.map_eq_none_iff] at hknown
    refine ⟨cache ++ [(directoryOf root f, load disk root f)], ?_, fun dir => ?_⟩
    · rw [forFile_of_unknown hfound, firstOf, hknown, Option.getD_none]
    · rw [List.find?_append, List.find?_append, Option.map_or, Option.map_or, hcache dir]
      cases hdir : (directoryOf root f).same dir <;> simp [hdir]

theorem mapM_forFile_remembers (fs : List Path) {before : List Path} {cache : Cache}
    (hcache : Remembers disk root before cache) :
    Remembers disk root (before ++ fs) ((fs.mapM (forFile disk root)).run cache).2 := by
  induction fs generalizing before cache with
  | nil =>
    rw [List.append_nil]
    exact hcache
  | cons f fs ih =>
    obtain ⟨cache', hrun, hcache'⟩ := forFile_remembers hcache f
    have hrest := ih hcache'
    rw [List.append_assoc, List.singleton_append] at hrest
    rw [List.mapM_cons]
    simp only [StateT.run_bind, hrun]
    exact hrest

/-- After any questions, the aliases of the first path of the directory are given. -/
theorem forFile_after (disk : Disk) (root : Path) (before : List Path) (f : Path) :
    ((forFile disk root f).run ((before.mapM (forFile disk root)).run []).2).1 =
      load disk root (firstOf root before f) := by
  have hnil : Remembers disk root [] [] := fun _ => rfl
  obtain ⟨cache', hrun, -⟩ := forFile_remembers (mapM_forFile_remembers before hnil) f
  rw [List.nil_append] at hrun
  rw [hrun]

theorem same_directoryOf_firstOf (before : List Path) (f : Path) :
    (directoryOf root (firstOf root before f)).same (directoryOf root f) = true := by
  rw [firstOf]
  cases hfound : before.find? fun g => (directoryOf root g).same (directoryOf root f) with
  | none => exact same_refl _
  | some g => simpa using List.find?_some hfound

/-- **The alias cache does not show.**  Whatever was asked before, a path gets the aliases that it
    has itself, unless it is a directory, or the first path asked about next to it was one, and the
    search for the configuration file begins elsewhere for the one than for the other.  The
    directories that are searched may be spelled in any way that the file system does not mind. -/
theorem forFile_same_load (before : List Path) (f : Path)
    (hstart : disk.isDir (firstOf root before f) = true ∨ disk.isDir f = true →
      (startOf disk root (firstOf root before f)).same (startOf disk root f) = true)
    (hreads : ∀ g ∈ [firstOf root before f, f], ∀ dir ∈ searched root (startOf disk root g),
      disk.ReadsThrough dir) :
    Option.Rel AliasMap.Same
      ((forFile disk root f).run ((before.mapM (forFile disk root)).run []).2).1
      (load disk root f) := by
  rw [forFile_after]
  refine load_same ?_ (hreads _ (by simp)) (hreads _ (by simp))
  by_cases hdir : disk.isDir (firstOf root before f) = true ∨ disk.isDir f = true
  · exact hstart hdir
  · rw [not_or, Bool.not_eq_true, Bool.not_eq_true] at hdir
    rw [startOf, startOf, hdir.1, hdir.2]
    exact same_directoryOf_firstOf before f

/-- A project with a package inside. -/
def packageDisk : Disk :=
  ⟨.folder "p" (.file "a.ts" "".toUTF8 (.folder "s"
    (.file "b.ts" "".toUTF8 (.file "tsconfig.json"
      "\x7b\"compilerOptions\":\x7b\"baseUrl\":\"x\"\x7d\x7d".toUTF8 .empty)) .empty)) .empty, [], []⟩

theorem forFile_same_load_packageDisk :
    let before : List Path := [⟨"/p/a.ts"⟩, ⟨"/p/s/missing"⟩]
    let first := firstOf ⟨"/p"⟩ before ⟨"/p/s/b.ts"⟩
    (packageDisk.isDir first = true ∨ packageDisk.isDir ⟨"/p/s/b.ts"⟩ = true →
        (startOf packageDisk ⟨"/p"⟩ first).same (startOf packageDisk ⟨"/p"⟩ ⟨"/p/s/b.ts"⟩) =
          true) ∧
      (∀ g ∈ [first, ⟨"/p/s/b.ts"⟩], ∀ dir ∈ searched ⟨"/p"⟩ (startOf packageDisk ⟨"/p"⟩ g),
        packageDisk.ReadsThrough dir) ∧
      Option.Rel AliasMap.Same
        ((forFile packageDisk ⟨"/p"⟩ ⟨"/p/s/b.ts"⟩).run
          ((before.mapM (forFile packageDisk ⟨"/p"⟩)).run []).2).1
        (load packageDisk ⟨"/p"⟩ ⟨"/p/s/b.ts"⟩) := by
  intro before first
  have hstart : packageDisk.isDir first = true ∨ packageDisk.isDir ⟨"/p/s/b.ts"⟩ = true →
      (startOf packageDisk ⟨"/p"⟩ first).same (startOf packageDisk ⟨"/p"⟩ ⟨"/p/s/b.ts"⟩) =
        true := by
    decide +kernel
  have htidy : ∀ g ∈ [first, ⟨"/p/s/b.ts"⟩],
      ∀ dir ∈ searched ⟨"/p"⟩ (startOf packageDisk ⟨"/p"⟩ g), ofComponents dir.components = dir := by
    decide +kernel
  have hreads : ∀ g ∈ [first, ⟨"/p/s/b.ts"⟩],
      ∀ dir ∈ searched ⟨"/p"⟩ (startOf packageDisk ⟨"/p"⟩ g), packageDisk.ReadsThrough dir := by
    intro g hg dir hdir
    exact Path.Tidy.readsThrough (htidy g hg dir hdir) _
  exact ⟨hstart, hreads, forFile_same_load before _ hstart hreads⟩

theorem configIn_of_long {p : Path} (h : Disk.pathLimit < p.text.utf8ByteSize) :
    configIn disk p = none := by
  have hfile : ∀ {name : String}, IsName name → disk.isFile (p.child name) = false :=
    fun hname => disk.isFile_of_long (Nat.lt_of_lt_of_le h (size_le_size_child _ hname))
  have hts : disk.isFile (p.child "tsconfig.json") = false := hfile (by simp [IsName, Text.Holds])
  have hjs : disk.isFile (p.child "jsconfig.json") = false := hfile (by simp [IsName, Text.Holds])
  simp [configIn_eq, hts, hjs]

/-- Nothing is found in the package through a way to it that is too long. -/
theorem load_of_long {long : Path} (hlong : Disk.pathLimit < long.text.utf8ByteSize)
    (htrimmed : long.trimmed = ⟨"/p"⟩) :
    load packageDisk ⟨"/p"⟩ ((long.child "s").child "b.ts") = none := by
  have hs : IsName "s" := by simp [IsName, Text.Holds]
  have hts : IsName "b.ts" := by simp [IsName, Text.Holds]
  have hdir : Disk.pathLimit < (long.child "s").text.utf8ByteSize :=
    Nat.lt_of_lt_of_le hlong (size_le_size_child _ hs)
  have hisDir : packageDisk.isDir ((long.child "s").child "b.ts") = false :=
    Disk.isDir_of_long _ (Nat.lt_of_lt_of_le hdir (size_le_size_child _ hts))
  have hparent : ((long.child "s").child "b.ts").parent? = some (long.child "s") := by
    have hup := Path.parent?_child (long.child "s") (c := .name "b.ts") hts
    rw [show (long.child "s").trimmed = long.child "s" from
      Path.trimmed_child long (c := .name "s") hs] at hup
    exact hup
  have habove : (long.child "s").parent? = some ⟨"/p"⟩ := by
    rw [← htrimmed]
    exact Path.parent?_child long (c := .name "s") hs
  have hproject : configAlong packageDisk ⟨"/p"⟩ (Path.ancestors ⟨"/p"⟩) = none := by
    decide +kernel
  have halong : configAlong packageDisk ⟨"/p"⟩ (long.child "s").ancestors = none := by
    rw [ancestors_eq, habove, configAlong, configIn_of_long hdir]
    simp only [hproject, ite_self]
  have hroot : configIn packageDisk ⟨"/p"⟩ = none := by decide +kernel
  have hconfig : configFor packageDisk ⟨"/p"⟩ ((long.child "s").child "b.ts") = none := by
    rw [configFor_eq, startOf, hisDir, directoryOf, hparent, configFrom]
    simp [halong, hroot]
  rw [load, hconfig]
  rfl

/-- A directory is remembered under the one that it stands in, and then answers for the files beside
    it.  A directory that is spelled with so many slashes that nothing can be read there answers for
    its files in all spellings. -/
theorem forFile_after_others :
    let long := ((Path.padded ⟨"/p"⟩ (Disk.pathLimit + 1)).child "s").child "b.ts"
    let after := fun f => (([f].mapM (forFile packageDisk ⟨"/p"⟩)).run []).2
    (((forFile packageDisk ⟨"/p"⟩ ⟨"/p/a.ts"⟩).run (after ⟨"/p/s"⟩)).1.isSome = true ∧
        load packageDisk ⟨"/p"⟩ ⟨"/p/a.ts"⟩ = none) ∧
      ((forFile packageDisk ⟨"/p"⟩ ⟨"/p/s/b.ts"⟩).run (after long)).1 = none ∧
        (load packageDisk ⟨"/p"⟩ ⟨"/p/s/b.ts"⟩).isSome = true := by
  intro long after
  refine ⟨by decide +kernel, ?_, by decide +kernel⟩
  have hs : IsName "s" := by simp [IsName, Text.Holds]
  have hts : IsName "b.ts" := by simp [IsName, Text.Holds]
  have hnone : load packageDisk ⟨"/p"⟩ long = none :=
    load_of_long (le_size_padded ⟨"/p"⟩ (Disk.pathLimit + 1)) (trimmed_padded (by decide) _)
  have hsame : (directoryOf ⟨"/p"⟩ long).same (directoryOf ⟨"/p"⟩ ⟨"/p/s/b.ts"⟩) = true := by
    refine same_getD_parent? (same_iff.mpr ?_) _
    rw [components_child_name _ hts, components_child_name _ hs, components_padded (by decide)]
    decide
  clear_value long
  rw [forFile_after, firstOf, List.find?_cons_of_pos (by simpa using hsame), Option.getD_some]
  exact hnone

end Alias

end SourceWeb
