/-
  Paths to Rust modules.

  A path that starts at a module, or so many modules above it, and the path to the same place that
  starts at the crate are looked up from directories that are the same.  The files that the one may
  stand for are those that the other may stand for, and the latter is given up only behind them.  So
  what the one leads to, the other leads to, unless some file is too long to be looked up in one of
  the two spellings and not in the other.
-/
import SourceWeb.Proofs.Disk.Respelled
import SourceWeb.Proofs.Language.Tried
import SourceWeb.Proofs.Path.Named

namespace SourceWeb.Language.Rust

open SourceWeb.Path SourceWeb.Text

/-! ### Segments -/

/-- Are these the segments of the path that they spell? -/
def IsSegments (segments : List String) : Prop :=
  (splitAtText "::".toList ("::".intercalate segments).toList).map String.ofList = segments

instance (segments : List String) : Decidable (IsSegments segments) :=
  inferInstanceAs (Decidable (_ = _))

/-- Names are segments, since no colons stand in them. -/
theorem isSegments_of_not_holds {segments : List String} (hne : segments ≠ [])
    (h : ∀ s ∈ segments, ¬ Holds ':' s) : IsSegments segments := by
  have hsep : "::".toList = [':', ':'] := rfl
  have hsplit := splitAtText_intercalate (c := ':') [':'] (l := segments.map String.toList)
    (by simpa using hne) (by simpa [Holds] using h)
  rw [IsSegments, String.toList_intercalate, hsep, hsplit]
  simp

/-- The files that a path of these segments may stand for. -/
def triedAt (disk : Disk) (site : Site) (segments : List String) : List Path :=
  useTried disk site ("::".intercalate segments)

theorem triedAt_cons (disk : Disk) (site : Site) {first : String} {rest : List String}
    (h : IsSegments (first :: rest)) :
    triedAt disk site (first :: rest) =
      ((useBase disk site first).bind fun base => climbSupers base rest).toList.flatMap fun at_ =>
        deepestTried at_.1 at_.2 := by
  rw [triedAt, useTried, h]

/-- The segments from a module on, or from so many modules above it. -/
def fromModule (ups : Nat) (rest : List String) : List String :=
  if ups = 0 then "self" :: rest else List.replicate ups "super" ++ rest

theorem isSegments_fromModule {ups : Nat} {rest : List String} (h : ∀ s ∈ rest, ¬ Holds ':' s)
    (hrest : rest ≠ []) : IsSegments (fromModule ups rest) := by
  unfold fromModule
  split
  · exact isSegments_of_not_holds (List.cons_ne_nil _ _)
      (List.forall_mem_cons.mpr ⟨by decide, h⟩)
  · refine isSegments_of_not_holds (by simp [hrest]) fun s hs => ?_
    rcases List.mem_append.mp hs with hs | hs
    · rw [List.eq_of_mem_replicate hs]
      decide
    · exact h s hs

/-! ### Climbing -/

theorem climbSupers_of_notMem (base : Path) {rest : List String} (h : "super" ∉ rest) :
    climbSupers base rest = some (base, rest) := by
  cases rest with
  | nil => rfl
  | cons s rest =>
    have hs : s ≠ "super" := fun heq => h (heq ▸ List.mem_cons_self)
    rw [climbSupers, if_neg hs]

/-- So many `super` lead up as many names. -/
theorem climbSupers_replicate {base : Path} {cs : List Component} {names : List String}
    (hbase : base.components = cs ++ names.map .name) {rest : List String}
    (hrest : "super" ∉ rest) :
    ∃ up, climbSupers base (List.replicate names.length "super" ++ rest) = some (up, rest) ∧
      up.components = cs ∧ (base.Tidy → up.Tidy) := by
  induction names using List.reverseRecOn generalizing base with
  | nil =>
    exact ⟨base, climbSupers_of_notMem base hrest, by simpa using hbase, id⟩
  | append_singleton names name ih =>
    rw [List.map_append, List.map_singleton, ← List.append_assoc] at hbase
    obtain ⟨parent, hparent, hcomponents⟩ := exists_parent? hbase (by simp)
    obtain ⟨up, hclimb, hup, htidy⟩ := ih hcomponents
    refine ⟨up, ?_, hup, fun hbase => htidy (hbase.parent hparent)⟩
    rw [List.length_append, List.length_singleton, List.replicate_succ, List.cons_append,
      climbSupers, if_pos rfl, hparent]
    exact hclimb

/-- A path from a module on is looked up from the children of that module. -/
theorem triedAt_fromModule {disk : Disk} {site : Site} {dir : Path}
    (hdir : moduleDir site.file = some dir) {ups : Nat} {rest : List String}
    (h : IsSegments (fromModule ups rest)) :
    triedAt disk site (fromModule ups rest) =
      (climbSupers dir (List.replicate ups "super" ++ rest)).toList.flatMap fun at_ =>
        deepestTried at_.1 at_.2 := by
  cases ups with
  | zero =>
    have hself : useBase disk site "self" = some dir := hdir
    rw [fromModule, if_pos rfl] at h ⊢
    rw [triedAt_cons disk site h, hself]
    rfl
  | succ ups =>
    have hsuper : useBase disk site "super" = dir.parent? := by
      rw [useBase, if_neg (by decide), if_neg (by decide), if_pos rfl, hdir]
      rfl
    rw [fromModule, if_neg (Nat.succ_ne_zero ups), List.replicate_succ, List.cons_append] at h ⊢
    rw [triedAt_cons disk site h, hsuper, climbSupers, if_pos rfl]

/-! ### The candidates -/

/-- The files among the children of a module come before those of the modules on the way to it. -/
theorem deepestTried_append (base : Path) (dirs rest : List String) :
    deepestTried base (dirs ++ rest) =
      deepestTried (dirs.foldl Path.child base) rest ++ deepestTried base dirs := by
  rw [deepestTried, List.length_append, List.range_add, List.reverse_append, List.flatMap_append,
    ← List.map_reverse, List.flatMap_map]
  congr 1
  · refine List.flatMap_congr fun n _ => ?_
    rw [List.getElem?_append_right (Nat.le_add_right _ _), Nat.add_sub_cancel_left,
      List.take_length_add_append, List.foldl_append]
  · refine List.flatMap_congr fun n hn => ?_
    have hlt : n < dirs.length := by simpa using hn
    rw [List.getElem?_append_left hlt, List.take_append_of_le_length (Nat.le_of_lt hlt)]

/-- Do the paths differ in spelling only, and end in steps? -/
structure Respelled (p q : Path) : Prop where
  same : p.same q = true
  left : p.EndsInStep
  right : q.EndsInStep

theorem endsInStep_child {p : Path} {t : String} (ht : t.toList.getLast? = some 's') :
    (p.child t).EndsInStep := by
  have hne : t ≠ "" := by
    rintro rfl
    simp at ht
  apply endsInStep_of_getLast? (c := 's')
  · rw [getLast?_text_child p hne, ht]
  · decide
  · decide

theorem forall₂_moduleTried {p q : Path} (h : p.same q = true) (name : String) :
    List.Forall₂ Respelled (moduleTried name p) (moduleTried name q) := by
  have hsource : (name ++ ".rs").toList.getLast? = some 's' := by simp
  have hmod : "mod.rs".toList.getLast? = some 's' := by decide
  refine .cons ?_ (.cons ?_ .nil)
  · exact ⟨same_child h _, endsInStep_child hsource, endsInStep_child hsource⟩
  · exact ⟨same_child (same_child h name) _, endsInStep_child hmod, endsInStep_child hmod⟩

theorem same_foldl_child {p q : Path} (h : p.same q = true) (ts : List String) :
    (ts.foldl Path.child p).same (ts.foldl Path.child q) = true := by
  induction ts generalizing p q with
  | nil => exact h
  | cons t ts ih => exact ih (same_child h t)

/-- From directories that are the same the same files are looked for, in the same order. -/
theorem forall₂_deepestTried {p q : Path} (h : p.same q = true) (rest : List String) :
    List.Forall₂ Respelled (deepestTried p rest) (deepestTried q rest) := by
  refine List.rel_flatMap (R := Eq) (List.forall₂_refl _) ?_
  rintro n _ rfl
  refine List.rel_flatMap (R := Eq) (List.forall₂_refl _) ?_
  rintro name _ rfl
  exact forall₂_moduleTried (same_foldl_child h _) name

/-- Where each of two spellings is too long if the other is, both lists lead to the same file. -/
theorem firstFile_of_respelled (disk : Disk) {ps qs : List Path} (h : List.Forall₂ Respelled ps qs)
    (hlength : ∀ tried ∈ ps.zip qs, tried.1.Overlong ↔ tried.2.Overlong) :
    disk.firstFile ps = disk.firstFile qs := by
  induction h with
  | nil => rfl
  | @cons p q ps qs hpq _ ih =>
    rw [List.zip_cons_cons] at hlength
    have hfirst : disk.existingFile p = disk.existingFile q :=
      Disk.existingFile_of_same hpq.same hpq.left hpq.right (hlength (p, q) List.mem_cons_self)
    have hrest : disk.firstFile ps = disk.firstFile qs :=
      ih fun tried hmem => hlength tried (List.mem_cons_of_mem _ hmem)
    rw [← List.singleton_append, ← List.singleton_append (l := qs), Disk.firstFile_append,
      Disk.firstFile_append, ← Disk.existingFile_eq, ← Disk.existingFile_eq, hfirst, hrest]

theorem firstFile_of_overlong (disk : Disk) {ps : List Path} (h : ∀ p ∈ ps, p.Overlong) :
    disk.firstFile ps = none := by
  have hnone : ps.find? disk.isFile = none := by
    rw [List.find?_eq_none]
    intro p hp
    simp [disk.isFile_of_long (h p hp)]
  rw [Disk.firstFile, hnone, Option.map_none]

/-! ### Files of modules -/

/-- Is the file of the site the one of the module that the names lead to in a crate?  The directory
    of the crate is meant as the path of the file spells it. -/
structure ModuleFile (disk : Disk) (site : Site) (crate : Path) (mods : List String) : Prop where
  above : crate ∈ site.dir.ancestors
  inProject : crate.startsWith site.projectRoot = true
  manifest : disk.isFile (crate.child "Cargo.toml") = true
  nearest : ∀ dir ∈ site.dir.ancestors, dir.startsWith crate = true → dir.same crate = false →
    disk.isFile (dir.child "Cargo.toml") = false
  nonempty : mods ≠ []
  names : ∀ m ∈ mods, IsName m ∧ m ∉ ["main", "lib", "mod", "super"]
  file : site.file.same ((crate.downNames ("src" :: mods)).withSuffix ".rs") = true ∨
    site.file.same ((crate.downNames ("src" :: mods)).child "mod.rs") = true

theorem isName_source {s : String} (h : IsName s) : IsName (s ++ ".rs") := by
  have hlast : (s ++ ".rs").toList.getLast? = some 's' := by simp
  refine ⟨?_, ?_, ?_, ?_⟩
  · rintro heq
    simp [heq] at hlast
  · rintro heq
    simp [heq] at hlast
  · rintro heq
    simp [heq] at hlast
  · rw [not_holds_append]
    exact ⟨h.2.2.2, by simp [Holds]⟩

theorem cutName_source {s : String} (h : s ≠ "") : (cutName (s ++ ".rs")).1 = s := by
  have hlength : 1 ≤ s.toList.length := by
    rw [Nat.one_le_iff_ne_zero, Ne, List.length_eq_zero_iff]
    simpa using h
  have htail : ((s ++ ".rs").toList.reverse.takeWhile (· != '.')).reverse = ['r', 's'] := by
    simp
  have hbody : (s ++ ".rs").toList.length - 2 = s.toList.length + 1 := by
    simp
  rw [cutName]
  simp only [htail, List.length_cons, List.length_nil, hbody]
  rw [if_neg (by omega)]
  simp

/-- The children of a module in a file of its name are looked for in the directory of that name. -/
theorem moduleDir_of_source {file base : Path} {name : String} (hname : IsName name)
    (hother : name ∉ ["main", "lib", "mod"])
    (h : file.components = base.components ++ [.name (name ++ ".rs")]) :
    ∃ dir, moduleDir file = some dir ∧ dir.same (base.child name) = true ∧
      (file.Tidy → dir.Tidy) := by
  obtain ⟨parent, hparent, hbase⟩ := exists_parent? h (by simp)
  have hstem : file.fileStem? = some name := by
    rw [fileStem?, fileName?, h, List.getLast?_concat, Option.map_some, cutName_source hname.1]
  have hdifferent : ¬ (name = "main" ∨ name = "lib" ∨ name = "mod") := by simpa using hother
  refine ⟨parent.child name, ?_, same_child (same_iff.mpr hbase) name, ?_⟩
  · simp [moduleDir, hparent, hstem, hdifferent]
  · intro htidy
    exact (htidy.parent hparent).child_name hname

/-- The children of a module in a `mod.rs` are looked for beside that. -/
theorem moduleDir_of_mod {file base : Path}
    (h : file.components = base.components ++ [.name "mod.rs"]) :
    ∃ dir, moduleDir file = some dir ∧ dir.same base = true ∧ (file.Tidy → dir.Tidy) := by
  obtain ⟨parent, hparent, hbase⟩ := exists_parent? h (by simp)
  have hstem : file.fileStem? = some "mod" := by
    rw [fileStem?, fileName?, h, List.getLast?_concat, Option.map_some]
    decide +kernel
  refine ⟨parent, ?_, same_iff.mpr hbase, fun htidy => htidy.parent hparent⟩
  simp [moduleDir, hparent, hstem]

section

variable {disk : Disk} {site : Site} {crate : Path} {mods : List String}
  (h : ModuleFile disk site crate mods)

include h

theorem ModuleFile.isName_src : ∀ s ∈ "src" :: mods, IsName s := by
  refine List.forall_mem_cons.mpr ⟨by decide, fun m hm => (h.names m hm).1⟩

theorem ModuleFile.isName_src_take (n : Nat) : ∀ s ∈ "src" :: mods.take n, IsName s := by
  obtain ⟨hsrc, hmods⟩ := List.forall_mem_cons.mp h.isName_src
  exact List.forall_mem_cons.mpr ⟨hsrc, fun s hs => hmods s (List.mem_of_mem_take hs)⟩

theorem ModuleFile.components_dir :
    (crate.downNames ("src" :: mods)).components = crate.components ++ ("src" :: mods).map .name :=
  components_downNames crate h.isName_src

/-- The children of the module are looked for in the directory of its name. -/
theorem ModuleFile.moduleDir : ∃ dir, moduleDir site.file = some dir ∧
    dir.same (crate.downNames ("src" :: mods)) = true ∧ (site.file.Tidy → dir.Tidy) := by
  rcases h.file with hfile | hfile
  · rcases List.eq_nil_or_concat mods with hnil | ⟨init, last, hmods⟩
    · exact absurd hnil h.nonempty
    rw [List.concat_eq_append] at hmods
    obtain ⟨hname, hplain⟩ := h.names last (by simp [hmods])
    have hsource := isName_source hname
    have hdown : crate.downNames ("src" :: mods) =
        (crate.downNames ("src" :: init)).child last := by
      rw [hmods, ← List.cons_append, downNames_concat]
    have hother : last ∉ ["main", "lib", "mod"] := fun hmem =>
      hplain (List.mem_append_left ["super"] hmem)
    rw [hdown] at hfile ⊢
    apply moduleDir_of_source hname hother
    rw [same_iff.mp hfile, withSuffix_child _ (isAbsolute_eq_false_of_segment hname.2.2.2)
      (isAbsolute_eq_false_of_segment hsource.2.2.2), components_child_name _ hsource]
  · apply moduleDir_of_mod
    rw [same_iff.mp hfile, components_child_name _ (by decide)]

end

/-! ### The crate -/

theorem pairwise_length_ancestors (p : Path) :
    p.ancestors.Pairwise fun q r => r.components.length < q.components.length := by
  refine pairwise_ancestors_of (fun p up hparent q hq => ?_) p
  obtain ⟨c, hc⟩ := components_of_parent? hparent
  have hle := (components_prefix_of_mem_ancestors hq).length_le
  rw [hc, List.length_append, List.length_singleton]
  omega

theorem ModuleFile.crateSource {disk : Disk} {site : Site} {crate : Path} {mods : List String}
    (h : ModuleFile disk site crate mods) : crateSource disk site = some (crate.child "src") := by
  obtain ⟨nearer, further, hsplit⟩ := List.append_of_mem h.above
  have hbelow := pairwise_ancestors site.dir
  have hlonger := pairwise_length_ancestors site.dir
  rw [hsplit] at hbelow hlonger
  have hnearer : ∀ dir ∈ nearer, dir.startsWith crate = true ∧ dir.same crate = false := by
    intro dir hdir
    refine ⟨(List.pairwise_append.mp hbelow).2.2 dir hdir crate List.mem_cons_self, ?_⟩
    rw [← Bool.not_eq_true, same_iff]
    intro hsame
    have hlt := (List.pairwise_append.mp hlonger).2.2 dir hdir crate List.mem_cons_self
    rw [hsame] at hlt
    exact Nat.lt_irrefl _ hlt
  have hinside : ∀ dir ∈ nearer, dir.startsWith site.projectRoot = true := fun dir hdir =>
    startsWith_trans (hnearer dir hdir).1 h.inProject
  have hnone : nearer.find? (fun dir => disk.isFile (dir.child "Cargo.toml")) = none := by
    rw [List.find?_eq_none]
    intro dir hdir
    have hmem : dir ∈ site.dir.ancestors := by
      rw [hsplit]
      exact List.mem_append_left _ hdir
    simp [h.nearest dir hmem (hnearer dir hdir).1 (hnearer dir hdir).2]
  rw [Rust.crateSource, hsplit, List.takeWhile_append_of_pos hinside,
    List.takeWhile_cons, if_pos h.inProject, List.find?_append, hnone, Option.none_or,
    List.find?_cons, h.manifest]
  rfl

theorem ModuleFile.tidy_crate {disk : Disk} {site : Site} {crate : Path} {mods : List String}
    (h : ModuleFile disk site crate mods) (htidy : site.file.Tidy) : crate.Tidy := by
  obtain ⟨dir, hdir, -⟩ := h.moduleDir
  cases hparent : site.file.parent? with
  | none => simp [Rust.moduleDir, hparent] at hdir
  | some parent =>
    have habove := h.above
    rw [Site.dir, hparent, Option.getD_some] at habove
    exact tidy_of_mem_ancestors (htidy.parent hparent) habove

/-! ### The two ways to a module -/

section

variable {disk : Disk} {site : Site} {crate : Path} {mods : List String}
  (h : ModuleFile disk site crate mods) {rest : List String} (hrest : "super" ∉ rest)

include h hrest

theorem ModuleFile.triedAt_fromModule {ups : Nat} (hups : ups ≤ mods.length)
    (hsegments : IsSegments (fromModule ups rest)) :
    ∃ dir, triedAt disk site (fromModule ups rest) = deepestTried dir rest ∧
      dir.same (crate.downNames ("src" :: mods.take (mods.length - ups))) = true ∧
      (site.file.Tidy → dir.Tidy) := by
  obtain ⟨base, hbase, hsame, htidy⟩ := h.moduleDir
  have hcut : ("src" :: mods) =
      ("src" :: mods.take (mods.length - ups)) ++ mods.drop (mods.length - ups) := by
    rw [List.cons_append, List.take_append_drop]
  have hcomponents : base.components =
      (crate.downNames ("src" :: mods.take (mods.length - ups))).components ++
        (mods.drop (mods.length - ups)).map .name := by
    rw [same_iff.mp hsame, h.components_dir, components_downNames crate (h.isName_src_take _),
      List.append_assoc, ← List.map_append, ← hcut]
  obtain ⟨dir, hclimb, hdir, hup⟩ := climbSupers_replicate hcomponents hrest
  have hlength : (mods.drop (mods.length - ups)).length = ups := by
    rw [List.length_drop]
    omega
  rw [hlength] at hclimb
  refine ⟨dir, ?_, same_iff.mpr hdir, fun hfile => hup (htidy hfile)⟩
  rw [Rust.triedAt_fromModule hbase hsegments, hclimb]
  simp

theorem ModuleFile.triedAt_fromCrate {n : Nat}
    (hsegments : IsSegments ("crate" :: (mods.take n ++ rest))) :
    triedAt disk site ("crate" :: (mods.take n ++ rest)) =
      deepestTried (crate.downNames ("src" :: mods.take n)) rest ++
        deepestTried (crate.child "src") (mods.take n) := by
  have hsuper : "super" ∉ mods.take n ++ rest := by
    intro hmem
    rcases List.mem_append.mp hmem with hmem | hmem
    · exact (h.names _ (List.mem_of_mem_take hmem)).2 (by simp)
    · exact hrest hmem
  have hcrate : useBase disk site "crate" = some (crate.child "src") := h.crateSource
  have hdown : (mods.take n).foldl Path.child (crate.child "src") =
      crate.downNames ("src" :: mods.take n) := by
    rw [downNames_cons, downNames, down, List.foldl_map]
    rfl
  rw [triedAt_cons disk site hsegments, hcrate, Option.bind_some,
    climbSupers_of_notMem _ hsuper]
  simp [deepestTried_append, hdown]

end

/-- What a path from a module on leads to, the path from the crate on to the same place leads to,
    provided that of two files that are looked for in turn both or neither are too long. -/
theorem resolveUse_fromCrate {disk : Disk} {site : Site} {crate : Path} {mods : List String}
    (h : ModuleFile disk site crate mods) {ups : Nat} (hups : ups ≤ mods.length)
    {rest : List String} (hrest : "super" ∉ rest) (hmodule : IsSegments (fromModule ups rest))
    (hcrate : IsSegments ("crate" :: (mods.take (mods.length - ups) ++ rest)))
    (hlength : ∀ tried ∈ (triedAt disk site (fromModule ups rest)).zip
      (triedAt disk site ("crate" :: (mods.take (mods.length - ups) ++ rest))),
      tried.1.Overlong ↔ tried.2.Overlong)
    {p : Path} (hp : resolveUse disk site ("::".intercalate (fromModule ups rest)) = some p) :
    resolveUse disk site
      ("::".intercalate ("crate" :: (mods.take (mods.length - ups) ++ rest))) = some p := by
  obtain ⟨dir, htried, hsame, -⟩ := h.triedAt_fromModule hrest hups hmodule
  rw [resolveUse_eq, ← triedAt] at hp ⊢
  rw [htried] at hp
  have hrespelled := forall₂_deepestTried hsame rest
  have hshared : disk.firstFile (deepestTried dir rest) = disk.firstFile (deepestTried
      (crate.downNames ("src" :: mods.take (mods.length - ups))) rest) := by
    refine firstFile_of_respelled disk hrespelled fun tried hmem => hlength tried ?_
    rw [htried, h.triedAt_fromCrate hrest hcrate, ← List.append_nil (deepestTried dir rest),
      List.zip_append hrespelled.length_eq]
    exact List.mem_append_left _ hmem
  rw [h.triedAt_fromCrate hrest hcrate, Disk.firstFile_append, ← hshared, hp, Option.some_or]

/-- A crate with the modules `a`, `a::b` and `a::b::inner`. -/
def nestedDisk : Disk :=
  ⟨.folder "p" (.file "Cargo.toml" "".toUTF8 (.folder "src" (.file "a.rs" "".toUTF8 (.folder "a"
    (.file "b.rs" "".toUTF8 (.folder "b" (.file "inner.rs" "".toUTF8 .empty) .empty)) .empty))
    .empty)) .empty, [], []⟩

theorem resolveUse_fromCrate_nestedDisk :
    let site : Site := ⟨⟨"/p"⟩, none, none, ⟨"/p/src/a/b.rs"⟩⟩
    let written := fromModule 1 ["b", "inner", "Item"]
    let full := "crate" :: (["a", "b"].take 1 ++ ["b", "inner", "Item"])
    ModuleFile nestedDisk site ⟨"/p"⟩ ["a", "b"] ∧ IsSegments written ∧ IsSegments full ∧
      (∀ tried ∈ (triedAt nestedDisk site written).zip (triedAt nestedDisk site full),
        tried.1.Overlong ↔ tried.2.Overlong) ∧
      resolveUse nestedDisk site "super::b::inner::Item" = some ⟨"/p/src/a/b/inner.rs"⟩ ∧
      resolveUse nestedDisk site "crate::a::b::inner::Item" = some ⟨"/p/src/a/b/inner.rs"⟩ := by
  intro site written full
  have hmodule : ModuleFile nestedDisk site ⟨"/p"⟩ ["a", "b"] := by
    refine ⟨?_, ?_, ?_, ?_, ?_, ?_, ?_⟩
    · decide +kernel
    · decide +kernel
    · decide +kernel
    · decide +kernel
    · decide
    · decide
    · decide +kernel
  have hwritten : IsSegments written := by decide +kernel
  have hfull : IsSegments full := by decide +kernel
  have hlength : ∀ tried ∈ (triedAt nestedDisk site written).zip (triedAt nestedDisk site full),
      tried.1.Overlong ↔ tried.2.Overlong := by
    decide +kernel
  have hp : resolveUse nestedDisk site "super::b::inner::Item" = some ⟨"/p/src/a/b/inner.rs"⟩ := by
    decide +kernel
  exact ⟨hmodule, hwritten, hfull, hlength, hp,
    resolveUse_fromCrate hmodule (by decide) (by decide) hwritten hfull hlength hp⟩

/-- From a directory that is spelled so long, what is below `b` cannot be looked up, and `b` can. -/
theorem firstFile_deepestTried_a {dir : Path} (hdir : dir.components = components ⟨"/p/src/a"⟩)
    (hlow : 4088 ≤ dir.text.utf8ByteSize) (hhigh : dir.text.utf8ByteSize ≤ 4090) :
    nestedDisk.firstFile (deepestTried dir ["b", "inner"]) = some ⟨"/p/src/a/b.rs"⟩ := by
  have hlist : deepestTried dir ["b", "inner"] = moduleTried "inner" (dir.child "b") ++
      ([dir.child "b.rs"] ++ [(dir.child "b").child "mod.rs"]) :=
    rfl
  have hbelow : nestedDisk.firstFile (moduleTried "inner" (dir.child "b")) = none := by
    have hbytes : String.utf8ByteSize "b" = 1 ∧ String.utf8ByteSize "inner" = 5 ∧
        String.utf8ByteSize "inner.rs" = 8 ∧ String.utf8ByteSize "mod.rs" = 6 := by decide
    have hb := size_child dir (by decide : IsName "b")
    have hsource := size_child (dir.child "b") (by decide : IsName "inner.rs")
    have hinner := size_child (dir.child "b") (by decide : IsName "inner")
    have hmod := size_child ((dir.child "b").child "inner") (by decide : IsName "mod.rs")
    refine firstFile_of_overlong _ fun p hp => ?_
    rw [Overlong, Disk.pathLimit]
    rcases List.mem_pair.mp hp with rfl | rfl
    · exact Nat.lt_of_lt_of_le (by omega) hsource.1
    · omega
  have hbeside : nestedDisk.firstFile [dir.child "b.rs"] = some ⟨"/p/src/a/b.rs"⟩ := by
    have hsource : IsName "b.rs" := by decide
    have hsame : (dir.child "b.rs").same ⟨"/p/src/a/b.rs"⟩ = true := by
      rw [same_iff, components_child_name _ hsource, hdir]
      decide +kernel
    have hshort : ¬ (dir.child "b.rs").Overlong := by
      have hbytes : String.utf8ByteSize "b.rs" = 4 := by decide
      have hb := size_child dir hsource
      rw [Overlong, Disk.pathLimit]
      omega
    have hend : EndsInStep ⟨"/p/src/a/b.rs"⟩ :=
      endsInStep_of_getLast? (c := 's') (by decide) (by decide) (by decide)
    rw [← Disk.existingFile_eq, Disk.existingFile_of_same hsame (endsInStep_child (by decide)) hend
      (iff_of_false hshort (by decide))]
    decide +kernel
  rw [hlist, Disk.firstFile_append, Disk.firstFile_append, hbelow, hbeside]
  rfl

/-- The file of the module `a` in that crate, read from a directory. -/
def siteFrom (base : Path) : Site :=
  ⟨⟨"/p"⟩, none, none, (base.child "src").child "a.rs"⟩

section

variable {base : Path} (hbase : base.components = components ⟨"/p"⟩)
  (htrimmed : base.trimmed = ⟨"/p"⟩) (hsize : base.text.utf8ByteSize = 4084)

include htrimmed in
theorem parent?_siteFrom : (siteFrom base).file.parent? = some (base.child "src") ∧
    (base.child "src").parent? = some ⟨"/p"⟩ := by
  have hsrc : IsName "src" := by decide
  have hfile : IsName "a.rs" := by decide
  rw [siteFrom, parent?_child_name _ hfile, trimmed_child_name _ hsrc, parent?_child_name _ hsrc,
    htrimmed]
  exact ⟨rfl, rfl⟩

include hsize in
theorem size_src : 4087 ≤ (base.child "src").text.utf8ByteSize ∧
    (base.child "src").text.utf8ByteSize ≤ 4088 := by
  have hsrc : IsName "src" := by decide
  have hbytes : String.utf8ByteSize "src" = 3 := by decide
  have hsrc := size_child base hsrc
  omega

include hsize in
theorem size_a : 4088 ≤ ((base.child "src").child "a").text.utf8ByteSize ∧
    ((base.child "src").child "a").text.utf8ByteSize ≤ 4090 := by
  have ha : IsName "a" := by decide
  have hbytes : String.utf8ByteSize "a" = 1 := by decide
  have hsrc := size_src hsize
  have ha := size_child (base.child "src") ha
  omega

include hbase htrimmed hsize

theorem moduleFile_siteFrom : ModuleFile nestedDisk (siteFrom base) ⟨"/p"⟩ ["a"] := by
  obtain ⟨hparent, hup⟩ := parent?_siteFrom htrimmed
  have hsrc : IsName "src" := by decide
  have hfile : IsName "a.rs" := by decide
  have hmanifest : IsName "Cargo.toml" := by decide
  have hdirs : (siteFrom base).dir.ancestors = base.child "src" :: ancestors ⟨"/p"⟩ := by
    rw [Site.dir, hparent, Option.getD_some, ancestors_eq, hup]
  have hlong : Disk.pathLimit < ((base.child "src").child "Cargo.toml").text.utf8ByteSize := by
    have hbytes : String.utf8ByteSize "Cargo.toml" = 10 := by decide
    have hsrc := size_src hsize
    have hmanifest := size_child (base.child "src") hmanifest
    rw [Disk.pathLimit]
    omega
  refine ⟨?_, ?_, ?_, ?_, ?_, ?_, ?_⟩
  · rw [hdirs]
    exact List.mem_cons_of_mem _ (by decide)
  · exact (by decide : startsWith ⟨"/p"⟩ ⟨"/p"⟩ = true)
  · decide +kernel
  · rw [hdirs]
    exact List.forall_mem_cons.mpr
      ⟨fun _ _ => Disk.isFile_of_long _ hlong, by decide +kernel⟩
  · decide
  · decide
  · left
    rw [same_iff, siteFrom, components_child_name _ hfile, components_child_name _ hsrc, hbase]
    decide +kernel

theorem resolveUse_siteFrom :
    resolveUse nestedDisk (siteFrom base) "self::b::inner" = some ⟨"/p/src/a/b.rs"⟩ := by
  obtain ⟨hparent, -⟩ := parent?_siteFrom htrimmed
  have hsrc : IsName "src" := by decide
  have ha : IsName "a" := by decide
  have hfile : IsName "a.rs" := by decide
  have hstem : (siteFrom base).file.fileStem? = some "a" := by
    rw [siteFrom, fileStem?, fileName?, components_child_name _ hfile, List.getLast?_concat]
    decide +kernel
  have hdir : moduleDir (siteFrom base).file = some ((base.child "src").child "a") := by
    simp [moduleDir, hparent, hstem]
  have hsegments : IsSegments (fromModule 0 ["b", "inner"]) := by decide
  have htried : useTried nestedDisk (siteFrom base) "self::b::inner" =
      deepestTried ((base.child "src").child "a") ["b", "inner"] :=
    (triedAt_fromModule hdir hsegments).trans (List.append_nil _)
  have hcomponents : ((base.child "src").child "a").components = components ⟨"/p/src/a"⟩ := by
    rw [components_child_name _ ha, components_child_name _ hsrc, hbase]
    decide +kernel
  obtain ⟨hlow, hhigh⟩ := size_a hsize
  rw [resolveUse_eq, htried]
  exact firstFile_deepestTried_a hcomponents hlow hhigh

theorem resolveUse_siteFrom_crate : resolveUse nestedDisk (siteFrom base) "crate::a::b::inner" =
    some ⟨"/p/src/a/b/inner.rs"⟩ := by
  have hsegments : IsSegments ("crate" :: (["a"].take 1 ++ ["b", "inner"])) := by decide
  have hspelled : "crate::a::b::inner" =
      "::".intercalate ("crate" :: (["a"].take 1 ++ ["b", "inner"])) := by
    decide
  rw [resolveUse_eq, hspelled, ← triedAt,
    (moduleFile_siteFrom hbase htrimmed hsize).triedAt_fromCrate (by decide) hsegments]
  decide +kernel

end

/-- In a directory that is spelled with so many slashes that a file can be looked up in it and one
    further down cannot, the path from the module on ends at the former. -/
theorem resolveUse_padded :
    let site := siteFrom (Path.padded ⟨"/p"⟩ 4082)
    ModuleFile nestedDisk site ⟨"/p"⟩ ["a"] ∧
      resolveUse nestedDisk site "self::b::inner" = some ⟨"/p/src/a/b.rs"⟩ ∧
      resolveUse nestedDisk site "crate::a::b::inner" = some ⟨"/p/src/a/b/inner.rs"⟩ := by
  have hroot : String.utf8ByteSize "/p" = 2 := by decide
  have hsize : (Path.padded ⟨"/p"⟩ 4082).text.utf8ByteSize = 4084 := by rw [size_padded, hroot]
  have hbase := components_padded (p := ⟨"/p"⟩) (by decide) 4082
  have htrimmed := trimmed_padded (p := ⟨"/p"⟩) (by decide) 4082
  exact ⟨moduleFile_siteFrom hbase htrimmed hsize, resolveUse_siteFrom hbase htrimmed hsize,
    resolveUse_siteFrom_crate hbase htrimmed hsize⟩

/-- From a tidy file both paths lead to the same, however long the files that are looked for are. -/
theorem resolveUse_of_tidy {disk : Disk} {site : Site} {crate : Path} {mods : List String}
    (h : ModuleFile disk site crate mods) (htidy : site.file.Tidy) {ups : Nat}
    (hups : ups ≤ mods.length) {rest : List String} (hne : rest ≠ []) (hrest : "super" ∉ rest)
    (hcolon : ∀ s ∈ mods ++ rest, ¬ Holds ':' s)
    {p : Path} (hp : resolveUse disk site ("::".intercalate (fromModule ups rest)) = some p) :
    resolveUse disk site
      ("::".intercalate ("crate" :: (mods.take (mods.length - ups) ++ rest))) = some p := by
  have hmodule : IsSegments (fromModule ups rest) :=
    isSegments_fromModule (fun s hs => hcolon s (List.mem_append_right _ hs)) hne
  have hcrate : IsSegments ("crate" :: (mods.take (mods.length - ups) ++ rest)) := by
    refine isSegments_of_not_holds (List.cons_ne_nil _ _) ?_
    refine List.forall_mem_cons.mpr ⟨by decide, fun s hs => hcolon s ?_⟩
    rcases List.mem_append.mp hs with hs | hs
    · exact List.mem_append_left _ (List.mem_of_mem_take hs)
    · exact List.mem_append_right _ hs
  obtain ⟨dir, htried, hsame, hdir⟩ := h.triedAt_fromModule hrest hups hmodule
  have heq : dir = crate.downNames ("src" :: mods.take (mods.length - ups)) :=
    (hdir htidy).eq_of_same ((h.tidy_crate htidy).downNames (h.isName_src_take _)) hsame
  rw [resolveUse_eq, ← triedAt] at hp ⊢
  rw [h.triedAt_fromCrate hrest hcrate, Disk.firstFile_append, ← heq, ← htried, hp, Option.some_or]

end SourceWeb.Language.Rust
