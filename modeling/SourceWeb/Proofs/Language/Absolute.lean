/-
  Where the languages known from the start look.

  They try absolute paths only, as long as the project and the file that refers have absolute paths.
  So what they find is the normal spelling of an absolute path that leads to a file.
-/
import SourceWeb.Alias.Nearest
import SourceWeb.Proofs.Disk.Lookup
import SourceWeb.Proofs.Language.Table
import SourceWeb.Proofs.Language.Tried
import SourceWeb.Proofs.Path.Named

namespace SourceWeb

open SourceWeb.Path SourceWeb.Text

/-! ### Paths with endings and paths in directories -/

namespace Disk

variable {d : Disk} {p : Path}

theorem isAbsolute_of_mem_withEndings {endings : List String} {base : Path}
    (habs : base.isAbsolute = true) (h : p ∈ withEndings endings base) : p.isAbsolute = true := by
  rcases List.mem_append.mp h with h | h
  · rcases List.mem_cons.mp h with rfl | h
    · exact habs
    · obtain ⟨e, -, rfl⟩ := List.mem_map.mp h
      exact isAbsolute_withSuffix habs e
  · obtain ⟨e, -, rfl⟩ := List.mem_map.mp h
    exact isAbsolute_withSuffix (isAbsolute_child habs "index") e

theorem isAbsolute_of_mem_list {dir : Path} (habs : dir.isAbsolute = true) {ps : List Path}
    (h : d.list dir = .ok ps) (hp : p ∈ ps) : p.isAbsolute = true := by
  obtain ⟨f, -, -, rfl⟩ := list_eq_ok_iff.mp h
  obtain ⟨e, -, rfl⟩ := List.mem_map.mp hp
  exact isAbsolute_child habs e.1

end Disk

/-! ### Sites -/

/-- A site with absolute paths only. -/
structure Site.Absolute (site : Site) : Prop where
  projectRoot : site.projectRoot.isAbsolute = true
  file : site.file.isAbsolute = true
  aliasBase : ∀ base ∈ site.aliasBase, base.isAbsolute = true
  aliases : ∀ aliases ∈ site.aliases, aliases.targetBase.isAbsolute = true ∧
    ∀ base ∈ aliases.baseUrl, base.isAbsolute = true

namespace Site.Absolute

variable {site : Site} (h : site.Absolute)

include h

theorem dir : site.dir.isAbsolute = true := by
  rw [Site.dir]
  cases hparent : site.file.parent? with
  | none => exact h.projectRoot
  | some up => exact isAbsolute_of_parent? hparent h.file

theorem dir_child (t : String) : (site.dir.child t).isAbsolute = true :=
  isAbsolute_child h.dir t

theorem root_child (t : String) : (site.projectRoot.child t).isAbsolute = true :=
  isAbsolute_child h.projectRoot t

end Site.Absolute

namespace Alias

variable {disk : Disk} {root hint : Path}

theorem exists_configIn_of_configAlong {dirs : List Path} {config : Path}
    (h : configAlong disk root dirs = some config) :
    ∃ dir ∈ dirs, configIn disk dir = some config := by
  induction dirs with
  | nil =>
    unfold configAlong at h
    simp at h
  | cons dir above ih =>
    unfold configAlong at h
    cases hin : configIn disk dir with
    | some found =>
      rw [hin] at h
      exact ⟨dir, by simp, h ▸ hin⟩
    | none =>
      simp only [hin] at h
      split at h
      · simp at h
      · obtain ⟨dir', hdir', hfound⟩ := ih h
        exact ⟨dir', by simp [hdir'], hfound⟩

/-- The configuration file stands in a directory with an absolute path. -/
theorem exists_configIn_of_configFor (hroot : root.isAbsolute = true)
    (hhint : hint.isAbsolute = true) {config : Path} (h : configFor disk root hint = some config) :
    ∃ dir, dir.isAbsolute = true ∧ configIn disk dir = some config := by
  rw [configFor, Option.orElse_eq_or] at h
  rcases Option.or_eq_some_iff.mp h with hnear | ⟨-, hroot'⟩
  · obtain ⟨start, hstart, halong⟩ := Option.bind_eq_some_iff.mp hnear
    have hstart : (if disk.isDir hint then some hint else hint.parent?) = some start :=
      (Option.filter_eq_some_iff.mp hstart).1
    have habs : start.isAbsolute = true := by
      split at hstart
      · exact Option.some.inj hstart ▸ hhint
      · exact isAbsolute_of_parent? hstart hhint
    obtain ⟨dir, hdir, hfound⟩ := exists_configIn_of_configAlong halong
    exact ⟨dir, isAbsolute_of_mem_ancestors habs hdir, hfound⟩
  · exact ⟨root, hroot, hroot'⟩

/-- A configuration file has a directory with an absolute path above it. -/
theorem isAbsolute_of_configIn {dir config : Path} (habs : dir.isAbsolute = true)
    (h : configIn disk dir = some config) :
    ∃ up, config.parent? = some up ∧ up.isAbsolute = true := by
  have hmem := List.mem_of_find?_eq_some h
  obtain ⟨name, hname, rfl⟩ : ∃ name, IsName name ∧ config = dir.child name := by
    rcases List.mem_pair.mp hmem with rfl | rfl
    · exact ⟨_, by simp [IsName, Holds], rfl⟩
    · exact ⟨_, by simp [IsName, Holds], rfl⟩
  have hparent := parent?_child dir (c := .name name) hname
  exact ⟨_, hparent, isAbsolute_of_parent? hparent (isAbsolute_child habs name)⟩

theorem isAbsolute_of_load (hroot : root.isAbsolute = true) (hhint : hint.isAbsolute = true)
    {aliases : AliasMap} (h : load disk root hint = some aliases) :
    aliases.targetBase.isAbsolute = true ∧
      ∀ base ∈ aliases.baseUrl, base.isAbsolute = true := by
  obtain ⟨config, hconfig, h⟩ := Option.bind_eq_some_iff.mp h
  obtain ⟨content, -, h⟩ := Option.bind_eq_some_iff.mp h
  obtain ⟨declared, -, h⟩ := Option.bind_eq_some_iff.mp h
  obtain ⟨dir, hdir, hin⟩ := exists_configIn_of_configFor hroot hhint hconfig
  obtain ⟨up, hparent, hup⟩ := isAbsolute_of_configIn hdir hin
  dsimp only at h
  split at h
  · simp at h
  · rw [← Option.some.inj h]
    simp only [AliasMap.targetBase, AliasMap.configDir, hparent, Option.getD_some]
    cases declared.baseUrl with
    | none => exact ⟨hup, by simp⟩
    | some url => exact ⟨isAbsolute_child hup url, by simpa using isAbsolute_child hup url⟩

end Alias

/-! ### Languages -/

namespace Language

/-- Are the paths absolute that are tried from a site with absolute paths? -/
def AbsoluteTried {α : Type} (tried : Tried α) : Prop :=
  ∀ disk site r, site.Absolute → ∀ p ∈ tried disk site r, p.isAbsolute = true

theorem AbsoluteTried.for {endings : List String} {tried : Tried Reference}
    (h : AbsoluteTried tried) : AbsoluteTried (triedFor endings tried) := by
  intro disk site r hsite p hp
  rw [triedFor] at hp
  split at hp
  · exact h disk site r hsite p hp
  · simp at hp

theorem AbsoluteTried.ofKind {kind : String} {tried : Tried String} (h : AbsoluteTried tried) :
    AbsoluteTried (triedOfKind kind tried) := by
  intro disk site r hsite p hp
  rw [triedOfKind] at hp
  split at hp
  · exact h disk site r.value hsite p hp
  · simp at hp

theorem JavaScript.isAbsolute_of_mem_moduleTried {endings : List String} {base p : Path}
    (habs : base.isAbsolute = true) (hp : p ∈ moduleTried endings base) :
    p.isAbsolute = true := by
  rcases List.mem_append.mp hp with hp | hp
  · exact Disk.isAbsolute_of_mem_withEndings habs hp
  · obtain ⟨stem, hstem, hp⟩ := List.mem_flatMap.mp hp
    obtain ⟨e, he, hend⟩ := List.exists_of_findSome?_eq_some (Option.mem_toList.mp hstem)
    have hslash : ¬ Holds '/' e := by
      simp only [compiledEndings, List.mem_cons, List.not_mem_nil, or_false] at he
      rcases he with rfl | rfl | rfl | rfl <;> simp [Holds]
    exact Disk.isAbsolute_of_mem_withEndings (isAbsolute_of_beforeEnd habs hslash hend) hp

theorem JavaScript.isAbsolute_of_mem_bareTried {endings : List String} {site : Site}
    (hsite : site.Absolute) {target : String} {p : Path} (hp : p ∈ bareTried endings site target) :
    p.isAbsolute = true := by
  unfold bareTried at hp
  split at hp
  · rename_i aliases haliases
    obtain ⟨hbase, hurl⟩ := hsite.aliases aliases haliases
    obtain ⟨q, hq, hp⟩ := List.mem_flatMap.mp hp
    refine isAbsolute_of_mem_moduleTried ?_ hp
    rcases List.mem_append.mp hq with hq | hq
    · obtain ⟨t, -, rfl⟩ := List.mem_map.mp hq
      refine isAbsolute_child ?_ t
      cases haliasBase : site.aliasBase with
      | none => exact hbase
      | some base => exact hsite.aliasBase base haliasBase
    · obtain ⟨url, hmem, rfl⟩ := List.mem_map.mp hq
      exact isAbsolute_child (hurl url (Option.mem_toList.mp hmem)) target
  · obtain ⟨rest, -, hp⟩ := List.mem_flatMap.mp hp
    exact isAbsolute_of_mem_moduleTried (isAbsolute_child (hsite.root_child "src") rest) hp

theorem JavaScript.absolute_tried (endings : List String) : AbsoluteTried (tried endings) := by
  intro disk site r hsite p hp
  cases r with
  | kinded kind value => simp [tried] at hp
  | plain target =>
    simp only [tried] at hp
    split at hp
    · exact isAbsolute_of_mem_moduleTried (hsite.dir_child target) hp
    · split at hp
      · exact isAbsolute_of_mem_moduleTried (hsite.root_child _) hp
      · exact isAbsolute_of_mem_bareTried hsite hp

theorem Python.isAbsolute_of_mem_moduleTried {dotted : String} {base p : Path}
    (habs : base.isAbsolute = true) (hp : p ∈ moduleTried dotted base) : p.isAbsolute = true := by
  rw [moduleTried] at hp
  split at hp
  · exact List.mem_singleton.mp hp ▸ isAbsolute_child habs _
  · have hmodule : ∀ q, (base.join q).isAbsolute = true := fun q => isAbsolute_join habs
    simp only [List.mem_cons, List.not_mem_nil, or_false] at hp
    rcases hp with hp | hp | hp
    · exact hp ▸ isAbsolute_withSuffix (hmodule _) _
    · exact hp ▸ isAbsolute_withSuffix (hmodule _) _
    · exact hp ▸ isAbsolute_child (hmodule _) _

theorem Python.mem_of_mem_upToRoot {root p : Path} {dirs : List Path} (h : p ∈ upToRoot root dirs) :
    p ∈ dirs := by
  induction dirs with
  | nil => exact h
  | cons dir dirs ih =>
    rw [upToRoot] at h
    split at h
    · simp [List.mem_singleton.mp h]
    · rcases List.mem_cons.mp h with rfl | h
      · simp
      · simp [ih h]

theorem Python.isAbsolute_of_climb {n : Nat} {p q : Path} (habs : p.isAbsolute = true)
    (h : climb n p = some q) : q.isAbsolute = true := by
  induction n generalizing p with
  | zero => exact Option.some.inj h ▸ habs
  | succ n ih =>
    obtain ⟨up, hparent, h⟩ := Option.bind_eq_some_iff.mp h
    exact ih (isAbsolute_of_parent? hparent habs) h

theorem Python.absolute_tried : AbsoluteTried tried := by
  intro disk site module hsite p hp
  simp only [tried] at hp
  split at hp
  · obtain ⟨root, hroot, hp⟩ := List.mem_flatMap.mp hp
    refine isAbsolute_of_mem_moduleTried ?_ hp
    have hsearch : root ∈ upToRoot site.projectRoot site.dir.ancestors ++
        [site.projectRoot.child "src"] := by
      rw [searchRoots] at hroot
      split at hroot
      · exact List.mem_append_left _ hroot
      · exact hroot
    rcases List.mem_append.mp hsearch with hmem | hmem
    · exact isAbsolute_of_mem_ancestors hsite.dir (mem_of_mem_upToRoot hmem)
    · exact List.mem_singleton.mp hmem ▸ hsite.root_child "src"
  · obtain ⟨base, hbase, hp⟩ := List.mem_flatMap.mp hp
    exact isAbsolute_of_mem_moduleTried
      (isAbsolute_of_climb hsite.dir (Option.mem_toList.mp hbase)) hp

theorem Ruby.isAbsolute_fileTried {base : Path} (habs : base.isAbsolute = true) :
    (fileTried base).isAbsolute = true := by
  rw [fileTried]
  split
  · exact habs
  · exact isAbsolute_withSuffix habs _

theorem Ruby.isAbsolute_of_mem_constantBases {disk : Disk} {root base : Path}
    (habs : root.isAbsolute = true) (h : base ∈ constantBases disk root) :
    base.isAbsolute = true := by
  rw [constantBases] at h
  rcases List.mem_append.mp h with h | h
  · rcases List.mem_cons.mp h with rfl | h
    · exact isAbsolute_child habs "lib"
    · split at h
      · rename_i ps hlist
        rw [Path.sort, List.mem_mergeSort] at h
        exact Disk.isAbsolute_of_mem_list (isAbsolute_child habs "app") hlist
          (List.mem_filter.mp h).1
      · simp at h
  · exact List.mem_singleton.mp h ▸ habs

theorem Ruby.absolute_tried : AbsoluteTried tried := by
  intro disk site r hsite p hp
  have hbases : ∀ t, p ∈ [site.projectRoot.child "lib", site.projectRoot, site.dir].flatMap
      (fun base => [fileTried (base.child t)]) → p.isAbsolute = true := by
    intro t hp
    obtain ⟨base, hbase, hp⟩ := List.mem_flatMap.mp hp
    rw [List.mem_singleton.mp hp]
    refine isAbsolute_fileTried (isAbsolute_child ?_ t)
    simp only [List.mem_cons, List.not_mem_nil, or_false] at hbase
    rcases hbase with rfl | rfl | rfl
    · exact hsite.root_child "lib"
    · exact hsite.projectRoot
    · exact hsite.dir
  simp only [tried] at hp
  split at hp
  · exact hbases _ hp
  · exact hbases _ hp
  · exact List.mem_singleton.mp hp ▸ isAbsolute_fileTried (hsite.dir_child _)
  · obtain ⟨base, hbase, hp⟩ := List.mem_flatMap.mp hp
    rw [List.mem_singleton.mp hp]
    exact isAbsolute_fileTried
      (isAbsolute_child (isAbsolute_of_mem_constantBases hsite.projectRoot hbase) _)
  · simp at hp

theorem Rust.isAbsolute_of_mem_moduleTried {name : String} {dir p : Path}
    (habs : dir.isAbsolute = true) (hp : p ∈ moduleTried name dir) : p.isAbsolute = true := by
  rcases List.mem_pair.mp hp with rfl | rfl
  · exact isAbsolute_child habs _
  · exact isAbsolute_child (isAbsolute_child habs name) _

theorem Rust.isAbsolute_of_moduleDir {file dir : Path} (habs : file.isAbsolute = true)
    (h : moduleDir file = some dir) : dir.isAbsolute = true := by
  obtain ⟨parent, hparent, h⟩ := Option.bind_eq_some_iff.mp h
  obtain ⟨stem, -, h⟩ := Option.bind_eq_some_iff.mp h
  have hup := isAbsolute_of_parent? hparent habs
  split at h
  · exact Option.some.inj h ▸ hup
  · exact Option.some.inj h ▸ isAbsolute_child hup stem

theorem Rust.isAbsolute_of_mem_modTried {name : String} {file p : Path}
    (habs : file.isAbsolute = true) (hp : p ∈ modTried name file) : p.isAbsolute = true := by
  obtain ⟨dir, hdir, hp⟩ := List.mem_flatMap.mp hp
  rcases List.mem_append.mp hp with hp | hp
  · exact isAbsolute_of_mem_moduleTried
      (isAbsolute_of_moduleDir habs (Option.mem_toList.mp hdir)) hp
  · obtain ⟨parent, hparent, hp⟩ := List.mem_flatMap.mp hp
    split at hp
    · simp at hp
    · exact isAbsolute_of_mem_moduleTried
        (isAbsolute_of_parent? (Option.mem_toList.mp hparent) habs) hp

theorem Rust.isAbsolute_of_crateSource {disk : Disk} {site : Site} (hsite : site.Absolute)
    {dir : Path} (h : crateSource disk site = some dir) : dir.isAbsolute = true := by
  unfold crateSource at h
  obtain ⟨crate, hcrate, rfl⟩ := Option.map_eq_some_iff.mp h
  have hmem := List.mem_of_find?_eq_some hcrate
  exact isAbsolute_child
    (isAbsolute_of_mem_ancestors hsite.dir ((List.takeWhile_sublist _).subset hmem)) "src"

theorem Rust.isAbsolute_of_climbSupers {base base' : Path} {names rest : List String}
    (habs : base.isAbsolute = true) (h : climbSupers base names = some (base', rest)) :
    base'.isAbsolute = true := by
  induction names generalizing base with
  | nil =>
    cases h
    exact habs
  | cons s names ih =>
    rw [climbSupers] at h
    split at h
    · obtain ⟨up, hparent, h⟩ := Option.bind_eq_some_iff.mp h
      exact ih (isAbsolute_of_parent? hparent habs) h
    · cases h
      exact habs

theorem Rust.isAbsolute_of_mem_deepestTried {base p : Path} {names : List String}
    (habs : base.isAbsolute = true) (hp : p ∈ deepestTried base names) : p.isAbsolute = true := by
  obtain ⟨n, -, hp⟩ := List.mem_flatMap.mp hp
  obtain ⟨name, -, hp⟩ := List.mem_flatMap.mp hp
  exact isAbsolute_of_mem_moduleTried (isAbsolute_foldl_child habs _) hp

theorem Rust.isAbsolute_of_useBase {disk : Disk} {site : Site} (hsite : site.Absolute)
    {first : String} {base : Path} (h : useBase disk site first = some base) :
    base.isAbsolute = true := by
  rw [useBase] at h
  split at h
  · exact isAbsolute_of_crateSource hsite h
  · split at h
    · exact isAbsolute_of_moduleDir hsite.file h
    · split at h
      · obtain ⟨dir, hmodule, hparent⟩ := Option.bind_eq_some_iff.mp h
        exact isAbsolute_of_parent? hparent (isAbsolute_of_moduleDir hsite.file hmodule)
      · simp at h

theorem Rust.isAbsolute_of_mem_useTried {disk : Disk} {site : Site} (hsite : site.Absolute)
    {path : String} {p : Path} (hp : p ∈ useTried disk site path) : p.isAbsolute = true := by
  rw [useTried] at hp
  split at hp
  · simp at hp
  · obtain ⟨⟨at_, rest⟩, hat, hp⟩ := List.mem_flatMap.mp hp
    obtain ⟨base, hbase, hclimb⟩ := Option.bind_eq_some_iff.mp (Option.mem_toList.mp hat)
    exact isAbsolute_of_mem_deepestTried
      (isAbsolute_of_climbSupers (isAbsolute_of_useBase hsite hbase) hclimb) hp

theorem Rust.absolute_tried : AbsoluteTried tried := by
  intro disk site r hsite p hp
  simp only [tried] at hp
  split at hp
  · exact isAbsolute_of_mem_modTried hsite.file hp
  · exact isAbsolute_of_mem_useTried hsite hp
  · simp at hp

theorem Go.isAbsolute_of_enclosingModule {disk : Disk} {site : Site} (hsite : site.Absolute)
    {dir : Path} {name : String} (h : enclosingModule disk site = some (dir, name)) :
    dir.isAbsolute = true := by
  unfold enclosingModule at h
  obtain ⟨dir', hdir, h⟩ := Option.bind_eq_some_iff.mp h
  obtain ⟨manifest, -, h⟩ := Option.bind_eq_some_iff.mp h
  obtain ⟨line, -, h⟩ := Option.bind_eq_some_iff.mp h
  cases h
  have hmem := List.mem_of_find?_eq_some hdir
  exact isAbsolute_of_mem_ancestors hsite.dir ((List.takeWhile_sublist _).subset hmem)

theorem Go.isAbsolute_of_mem_packageTried {disk : Disk} {dir p : Path}
    (habs : dir.isAbsolute = true) (hp : p ∈ packageTried disk dir) : p.isAbsolute = true := by
  obtain ⟨entries, hentries, hp⟩ := List.mem_flatMap.mp hp
  have hlist : disk.list dir = .ok entries := by
    cases hlist : disk.list dir with
    | error e => simp [hlist, Except.toOption] at hentries
    | ok ps =>
      rw [hlist, Option.mem_toList] at hentries
      exact congrArg Except.ok (Option.some.inj hentries)
  rw [Path.sort, List.mem_mergeSort] at hp
  exact Disk.isAbsolute_of_mem_list habs hlist (List.mem_filter.mp hp).1

theorem Go.absolute_tried : AbsoluteTried tried := by
  intro disk site target hsite p hp
  obtain ⟨dir, hdir, hp⟩ := List.mem_flatMap.mp hp
  refine isAbsolute_of_mem_packageTried ?_ hp
  rw [Option.mem_toList, packageDir] at hdir
  split at hdir
  · rw [← Option.some.inj hdir, isAbsolute_normal]
    exact hsite.dir_child target
  · obtain ⟨⟨root, name⟩, hmodule, hdir⟩ := Option.bind_eq_some_iff.mp hdir
    have hroot := isAbsolute_of_enclosingModule hsite hmodule
    dsimp only at hdir
    split at hdir
    · exact Option.some.inj hdir ▸ hroot
    · obtain ⟨rest, -, rfl⟩ := Option.map_eq_some_iff.mp hdir
      exact isAbsolute_child hroot rest

theorem C.absolute_tried : AbsoluteTried tried := by
  intro disk site header hsite p hp
  obtain ⟨dir, hdir, rfl⟩ := List.mem_map.mp hp
  refine isAbsolute_child ?_ header
  simp only [List.mem_cons, List.not_mem_nil, or_false] at hdir
  rcases hdir with rfl | rfl | rfl | rfl
  · exact hsite.dir
  · exact hsite.projectRoot
  · exact hsite.root_child "include"
  · exact hsite.root_child "src"

theorem Css.isAbsolute_of_mem_candidates {base p : Path} (habs : base.isAbsolute = true)
    (h : p ∈ candidates base) : p.isAbsolute = true := by
  rw [candidates] at h
  split at h
  · rename_i dir name hparent hname
    have hpart : (dir.child ("_" ++ name)).isAbsolute = true :=
      isAbsolute_child (isAbsolute_of_parent? hparent habs) _
    simp only [List.mem_append, List.mem_flatMap] at h
    rcases h with (h | ⟨e, -, h⟩) | ⟨e, -, h⟩ <;> rcases List.mem_pair.mp h with rfl | rfl
    · exact habs
    · exact hpart
    · exact isAbsolute_withSuffix habs e
    · exact isAbsolute_withSuffix hpart e
    · exact isAbsolute_child habs _
    · exact isAbsolute_child habs _
  · exact List.mem_singleton.mp h ▸ habs

theorem Css.absolute_tried : AbsoluteTried tried := by
  intro disk site target hsite p hp
  refine isAbsolute_of_mem_candidates ?_ hp
  split
  · exact hsite.root_child _
  · exact hsite.dir_child _

theorem Java.absolute_tried : AbsoluteTried tried := by
  intro disk site target hsite p hp
  obtain ⟨parts, -, hp⟩ := List.mem_flatMap.mp hp
  obtain ⟨root, -, hp⟩ := List.mem_flatMap.mp hp
  have hbase := isAbsolute_child (hsite.root_child root) ("/".intercalate parts)
  rcases List.mem_pair.mp hp with rfl | rfl <;> exact isAbsolute_withSuffix hbase _

theorem Php.isAbsolute_of_declaredDirs {root p : Path} (habs : root.isAbsolute = true) {v : Json}
    {dirs : List Path} (h : declaredDirs root v = some dirs) (hp : p ∈ dirs) :
    p.isAbsolute = true := by
  unfold declaredDirs at h
  split at h
  · rw [← Option.some.inj h] at hp
    exact List.mem_singleton.mp hp ▸ isAbsolute_child habs _
  · rw [← Option.some.inj h] at hp
    obtain ⟨v, -, hv⟩ := List.mem_filterMap.mp hp
    obtain ⟨dir, -, rfl⟩ := Option.map_eq_some_iff.mp hv
    exact isAbsolute_child habs dir
  · simp at h

theorem Php.isAbsolute_of_mem_nameSpaces {disk : Disk} {root p : Path}
    (habs : root.isAbsolute = true) {space : String × List Path} (h : space ∈ nameSpaces disk root)
    (hp : p ∈ space.2) : p.isAbsolute = true := by
  have hsection : ∀ manifest section_, space ∈ sectionSpaces root manifest section_ →
      p.isAbsolute = true := by
    intro manifest section_ hspace
    rw [sectionSpaces] at hspace
    split at hspace
    · obtain ⟨⟨name, v⟩, -, hspace⟩ := List.mem_filterMap.mp hspace
      obtain ⟨dirs, hdirs, rfl⟩ := Option.map_eq_some_iff.mp hspace
      exact isAbsolute_of_declaredDirs habs hdirs hp
    · simp at hspace
  unfold nameSpaces at h
  split at h
  · rw [List.mem_mergeSort, List.mem_append] at h
    exact h.elim (hsection _ _) (hsection _ _)
  · simp at h

theorem Php.isAbsolute_of_mem_classCandidates {root p : Path} (habs : root.isAbsolute = true)
    {class_ : String} (h : p ∈ classCandidates root class_) : p.isAbsolute = true := by
  have hsrc := isAbsolute_child habs "src"
  have happ := isAbsolute_child habs "app"
  unfold classCandidates at h
  dsimp only at h
  split at h
  · rcases List.mem_append.mp h with h | h
    · rcases List.mem_pair.mp h with h | h
      · exact h ▸ isAbsolute_child hsrc _
      · exact h ▸ isAbsolute_child habs _
    · rcases List.mem_pair.mp h with h | h
      · exact h ▸ isAbsolute_child hsrc _
      · exact h ▸ isAbsolute_child happ _
  · rcases List.mem_pair.mp h with h | h
    · exact h ▸ isAbsolute_child hsrc _
    · exact h ▸ isAbsolute_child habs _

theorem Php.absolute_tried : AbsoluteTried tried := by
  intro disk site r hsite p hp
  simp only [tried] at hp
  split at hp
  · rcases List.mem_cons.mp hp with rfl | hp
    · exact hsite.dir_child _
    · split at hp
      · simp at hp
      · exact List.mem_singleton.mp hp ▸ hsite.root_child _
  · rcases List.mem_append.mp hp with hp | hp
    · obtain ⟨space, hspace, hp⟩ := List.mem_flatMap.mp hp
      obtain ⟨rest, -, hp⟩ := List.mem_flatMap.mp hp
      obtain ⟨dir, hdir, rfl⟩ := List.mem_map.mp hp
      exact isAbsolute_child (isAbsolute_of_mem_nameSpaces hsite.projectRoot hspace hdir) _
    · exact isAbsolute_of_mem_classCandidates hsite.projectRoot hp
  · simp at hp

theorem Html.absolute_tried : AbsoluteTried tried := by
  intro disk site target hsite p hp
  simp only [tried] at hp
  split at hp
  · simp at hp
  · split at hp
    · exact List.mem_singleton.mp hp ▸ hsite.root_child _
    · exact List.mem_singleton.mp hp ▸ hsite.dir_child _

theorem Shell.absolute_tried : AbsoluteTried tried := by
  intro disk site target hsite p hp
  rcases List.mem_pair.mp hp with rfl | rfl
  · exact hsite.dir_child target
  · exact hsite.root_child _

theorem Docker.absolute_tried : AbsoluteTried tried := by
  intro disk site target hsite p hp
  exact List.mem_singleton.mp hp ▸ hsite.dir_child _

end Language

namespace Registry

open SourceWeb.Language

/-- The languages known from the start try absolute paths only. -/
theorem absolute_of_mem_builtinTried {l : Language} {tried : Tried Reference}
    (h : (l, tried) ∈ builtinTried) : AbsoluteTried tried := by
  simp only [builtinTried, List.mem_cons, List.not_mem_nil, or_false, Prod.mk.injEq] at h
  rcases h with ⟨-, rfl⟩ | ⟨-, rfl⟩ | ⟨-, rfl⟩ | ⟨-, rfl⟩ | ⟨-, rfl⟩ | ⟨-, rfl⟩ | ⟨-, rfl⟩ |
    ⟨-, rfl⟩ | ⟨-, rfl⟩ | ⟨-, rfl⟩ | ⟨-, rfl⟩ | ⟨-, rfl⟩ | ⟨-, rfl⟩ <;>
    refine AbsoluteTried.for ?_
  · exact JavaScript.absolute_tried _
  · exact JavaScript.absolute_tried _
  · exact Python.absolute_tried.ofKind
  · exact Ruby.absolute_tried
  · exact Rust.absolute_tried
  · exact Go.absolute_tried.ofKind
  · exact C.absolute_tried.ofKind
  · exact Css.absolute_tried.ofKind
  · exact Java.absolute_tried.ofKind
  · exact Php.absolute_tried
  · exact Html.absolute_tried.ofKind
  · exact Shell.absolute_tried.ofKind
  · exact Docker.absolute_tried.ofKind

/-- What is tried behind a relative path are endings of file names. -/
theorem isEnding_of_mem_probeEndings {r : Registry}
    (hlanguages : ∀ l ∈ r.languages, l ∈ builtinLanguages) {e : String} (h : e ∈ r.probeEndings) :
    IsEnding e := by
  have hall : ∀ l ∈ builtinLanguages, ∀ e ∈ l.endings, IsEnding e := by decide +kernel
  have hclaimed : e ∈ r.claims :=
    (r.inFirstOrder_endings.mem_iff e).mp (List.mem_filter.mp h).1
  obtain ⟨l, hl, he⟩ := List.mem_flatMap.mp hclaimed
  exact hall l (hlanguages l hl) e he

/-- **What a language known from the start finds** is the normal spelling of the first path it tries
    that leads to a file, and this path is absolute if the project and the file that refers have
    absolute paths. -/
theorem exists_tested {l : Language} {tried : Tried Reference} (h : (l, tried) ∈ builtinTried)
    {look : Resolver} (hlook : l.resolver = some look) {disk : Disk} {site : Site}
    (hsite : site.Absolute) {r : Reference} {found : Path}
    (hfound : look disk site r = some found) :
    ∃ tested, (tried disk site r).find? disk.isFile = some tested ∧
      tested.isAbsolute = true ∧ found = tested.normal := by
  obtain ⟨look', hlook', htries⟩ := tries_of_mem_builtinTried h
  rw [hlook, Option.some.injEq] at hlook'
  rw [hlook', htries, Disk.firstFile, Option.map_eq_some_iff] at hfound
  obtain ⟨tested, htested, rfl⟩ := hfound
  refine ⟨tested, htested, ?_, rfl⟩
  exact absolute_of_mem_builtinTried h disk site r hsite tested (List.mem_of_find?_eq_some htested)

theorem exists_builtinTried {l : Language} (h : l ∈ builtinLanguages) :
    ∃ tried, (l, tried) ∈ builtinTried := by
  rw [← map_fst_builtinTried] at h
  obtain ⟨⟨l, tried⟩, hmem, rfl⟩ := List.mem_map.mp h
  exact ⟨tried, hmem⟩

end Registry

end SourceWeb
