/-
  The spelling of directories in a walk.

  What is asked about a path depends on its components and on the ignore files, which are read
  through the directories as they are spelled.  So the rules for a directory of the project are the
  same however it was reached, as long as the file system takes the spellings for what they are.
-/
import SourceWeb.Proofs.Disk.Spelling
import SourceWeb.Proofs.Ignore.Walk

namespace SourceWeb.Ignore.Matcher

open SourceWeb.Path
open RuleCache (Grown)

variable {m m' : Matcher} {disk : Disk} {start cache : RuleCache}

/-! ### Questions about paths -/

theorem isAbsolute_eq_of_same {p q : Path} (h : p.same q = true) :
    p.isAbsolute = q.isAbsolute := by
  rw [Bool.eq_iff_iff, isAbsolute_iff_components, isAbsolute_iff_components, same_iff.mp h]

/-- The way from the project root does not depend on spellings. -/
theorem relative_eq_of_same (hroot : m.projectRoot.same m'.projectRoot = true) {p q : Path}
    (h : p.same q = true) : m.relative p = m'.relative q := by
  have hway : ((p.relativeTo? m.projectRoot).getD p).components =
      ((q.relativeTo? m'.projectRoot).getD q).components := by
    simp only [relativeTo?, isAbsolute_eq_of_same hroot, isAbsolute_eq_of_same h, same_iff.mp hroot,
      same_iff.mp h]
    split
    · split
      · exact same_iff.mp h
      · exact same_iff.mp h
    · cases wayFrom q.components m'.projectRoot.components with
      | none => exact same_iff.mp h
      | some cs => rfl
  rw [relative, relative, hway]

theorem covers_eq_of_same (m : Matcher) {p q : Path} (h : p.same q = true) :
    m.covers p = m.covers q := by
  funext isDir rules
  rw [covers, covers, relative_eq_of_same (same_refl _) h]

theorem inherits_eq_of_same (m : Matcher) {p q : Path} (h : p.same q = true) :
    m.inherits p = m.inherits q := by
  rw [inherits, inherits, same, same, startsWith, startsWith, below?, below?, same_iff.mp h]

/-- The ignore file of a directory is read through any spelling that does not show. -/
theorem localRules_eq_of_same (m : Matcher) {p q : Path} (h : p.same q = true)
    (hp : disk.ReadsThrough p) (hq : disk.ReadsThrough q) :
    m.localRules disk p = m.localRules disk q := by
  have hname : IsName ".gitignore" := by simp [IsName, Text.Holds]
  have halike : disk.Alike (p.child ".gitignore") (q.child ".gitignore") :=
    hp.alike_child hq h hname
  simp only [localRules, halike.isFile, relative_eq_of_same (m := m) (same_refl _) h]
  split
  · rename_i hfile
    rw [halike.readText (halike.isFile.trans hfile)]
  · rfl

/-! ### Rules of directories -/

/-- The directories whose ignore files count for the entries of a directory: in the project, those
    from the directory up to the project root; elsewhere the directory alone. -/
def lineage (m : Matcher) (dir : Path) : List Path :=
  if dir.startsWith m.projectRoot then dir.ancestors.filter fun p => p.startsWith m.projectRoot
  else [dir]

theorem startsWith_of_inherits {dir up : Path} (h : m.inherits dir = true)
    (hparent : dir.parent? = some up) : up.startsWith m.projectRoot = true := by
  rw [inherits, Bool.and_eq_true, Bool.not_eq_true'] at h
  exact startsWith_parent? h.2 h.1 hparent

/-- No directory above the project root is in the project. -/
theorem startsWith_eq_false_of_above {dir up p : Path} (h : dir.same m.projectRoot = true)
    (hparent : dir.parent? = some up) (hp : p ∈ up.ancestors) :
    p.startsWith m.projectRoot = false := by
  rw [← Bool.not_eq_true, startsWith_iff, ← same_iff.mp h]
  rintro ⟨cs, hcs⟩
  obtain ⟨c, hc⟩ := components_of_parent? hparent
  have hle := (components_prefix_of_mem_ancestors hp).length_le
  rw [hcs, hc, List.length_append, List.length_append, List.length_singleton] at hle
  omega

theorem lineage_eq (m : Matcher) (dir : Path) :
    m.lineage dir = dir :: (match dir.parent? with
      | some up => if m.inherits dir then m.lineage up else []
      | none => []) := by
  by_cases hbelow : dir.startsWith m.projectRoot = true
  · rw [lineage, if_pos hbelow, ancestors_eq, List.filter_cons_of_pos (by simpa using hbelow)]
    refine congrArg (dir :: ·) ?_
    cases hparent : dir.parent? with
    | none => rfl
    | some up =>
      cases hinherits : m.inherits dir with
      | true =>
        simp only [lineage, startsWith_of_inherits hinherits hparent, if_true]
      | false =>
        have hsame : dir.same m.projectRoot = true := by simpa [inherits, hbelow] using hinherits
        have habove : ∀ p ∈ up.ancestors, ¬ p.startsWith m.projectRoot = true := by
          intro p hp
          rw [startsWith_eq_false_of_above hsame hparent hp]
          simp
        simp only [Bool.false_eq_true, if_false]
        exact List.filter_eq_nil_iff.mpr habove
  · have hinherits : m.inherits dir = false := by simp [inherits, hbelow]
    rw [lineage, if_neg hbelow, hinherits]
    cases dir.parent? <;> rfl

/-- Asking for the rules of a directory.  If `rules` says what each directory whose ignore file
    counts takes over and adds, unless it was known at the start, then this is the answer. -/
theorem rulesAlong_grown {rules : Path → List Rule}
    (hsame : ∀ p q : Path, p.same q = true → rules p = rules q) {dir : Path}
    (hdir : ∀ p ∈ m.lineage dir, start.get? p = none →
      rules p = m.takenOver rules p ++ m.localRules disk p)
    (hcache : Grown start rules cache) :
    ∃ cache', (m.rulesAlong disk dir.ancestors).run cache = (rules dir, cache') ∧
      Grown start rules cache' := by
  induction dir using parentInduction with
  | child dir ih =>
    rw [lineage_eq, List.forall_mem_cons] at hdir
    cases hknown : cache.get? dir with
    | some found =>
      refine ⟨cache, ?_, hcache⟩
      rw [rulesAlong_of_known hknown, hcache.right dir found hknown]
    | none =>
      have hask : ∃ cache', m.askAbove disk dir cache = (m.takenOver rules dir, cache') ∧
          Grown start rules cache' := by
        rw [askAbove, takenOver]
        cases hparent : dir.parent? with
        | none => exact ⟨cache, rfl, hcache⟩
        | some up =>
          cases hinherits : m.inherits dir with
          | false => exact ⟨cache, rfl, hcache⟩
          | true =>
            rw [hparent, hinherits] at hdir
            exact ih up hparent hdir.2
      obtain ⟨cache', hask, hgrown⟩ := hask
      refine ⟨cache' ++ [(dir, rules dir)], ?_, hgrown.learn hsame dir⟩
      rw [rulesAlong_of_unknown hknown, hask, hdir.1 (hcache.kept dir hknown)]

/-- A directory of the project inherits what is in force in the one above it, however it is
    spelled. -/
theorem rulesIn_eq (hroot : disk.ReadsThrough m.projectRoot) {dir : Path}
    (hdir : disk.ReadsThrough dir) (hbelow : dir.startsWith m.projectRoot = true)
    (hstart : start.get? dir = none) :
    m.rulesIn disk start dir =
      m.takenOver (m.rulesIn disk start) dir ++ m.localRules disk dir := by
  obtain ⟨cs, hcs⟩ := startsWith_iff.mp hbelow
  have hspelled : Spelled (m.projectRoot.components ++ cs) := hcs ▸ spelled_components dir
  have hsame : dir.same (m.projectRoot.down cs) = true := by
    rw [same_iff, hcs, components_down hspelled]
  rw [start.get?_eq_of_same hsame] at hstart
  rw [rulesIn_eq_of_same m disk start hsame, takenOver, m.inherits_eq_of_same hsame,
    m.localRules_eq_of_same hsame hdir (hroot.down hspelled)]
  rcases List.eq_nil_or_concat cs with rfl | ⟨init, c, rfl⟩
  · have hroot' : m.projectRoot.down [] = m.projectRoot := rfl
    rw [hroot', rulesIn_root hstart, inherits_root]
    cases dir.parent? <;> rfl
  · rw [List.concat_eq_append] at hcs hspelled hstart ⊢
    rw [rulesIn_down_concat hspelled hstart, inherits_down (by simp) hspelled]
    rw [← List.append_assoc] at hcs
    by_cases hc : c = .root
    · subst hc
      rw [parent?_of_components_root hcs, if_pos rfl]
    · obtain ⟨up, hparent, hup⟩ := exists_parent? hcs hc
      have hupsame : up.same (m.projectRoot.down init) = true := by
        rw [same_iff, hup, components_down (hup ▸ spelled_components up)]
      rw [hparent, if_neg hc, ← rulesIn_eq_of_same m disk start hupsame]
      rfl

/-- A matcher gives the same rules for the directories of the project in a walk as for the paths
    that it is asked about. -/
theorem asking_grown (hroot : disk.ReadsThrough m.projectRoot) (start : RuleCache) :
    m.Asking disk (m.rulesUsed disk start)
      (fun dir => dir.startsWith m.projectRoot = true ∧ disk.ReadsAlong dir)
      fun _ cache => Grown start (m.rulesIn disk start) cache where
  prunes := by
    intro _ cache dir name isDir hcache hdir hname
    have hsame : dir.trimmed.same dir = true := by simp [same]
    have hbelow : dir.trimmed.startsWith m.projectRoot = true := by
      rw [startsWith, below?, components_trimmed]
      exact hdir.1
    have hrules : ∃ cache', (m.rulesFor disk dir.trimmed).run cache =
        (m.rulesUsed disk start dir, cache') ∧ Grown start (m.rulesIn disk start) cache' := by
      unfold rulesFor rulesUsed
      split
      · rw [← rulesIn_eq_of_same m disk start hsame]
        refine rulesAlong_grown (fun _ _ => rulesIn_eq_of_same m disk start) ?_ hcache
        intro p hp hstart
        rw [lineage, if_pos hbelow, List.mem_filter] at hp
        exact rulesIn_eq hroot (hdir.2.above p hp.1) hp.2 hstart
      · exact ⟨cache, rfl, hcache⟩
    obtain ⟨cache', hrun, hgrown⟩ := hrules
    exact ⟨cache', prunes_child hname hrun isDir, hgrown⟩
  child := by
    intro dir name hdir hname
    obtain ⟨cs, hcs⟩ := startsWith_iff.mp hdir.1
    refine ⟨startsWith_iff.mpr ⟨cs ++ [.name name], ?_⟩, hdir.2.child hname⟩
    rw [components_child_name _ hname, hcs, List.append_assoc]
  order hcache _ := hcache

/-! ### What was learned from walks -/

/-- Rules that are read from the ignore files are read through tidy spellings; other spellings of
    the directory do not show. -/
theorem freshRules_eq {dir : Path} (hdir : disk.ReadsThrough dir) :
    m.freshRules disk dir =
      m.takenOver (m.freshRules disk) dir ++ m.localRules disk dir := by
  have htidy : (ofComponents dir.components).Tidy := tidy_ofComponents (spelled_components dir)
  have hsame : dir.same (ofComponents dir.components) = true := by
    rw [same_iff, components_ofComponents (spelled_components dir)]
  rw [freshRules_eq_of_same m disk hsame, freshRules_of_tidy htidy, takenOver, takenOver,
    m.inherits_eq_of_same hsame, m.localRules_eq_of_same hsame hdir (htidy.readsThrough disk)]
  cases hparent : dir.parent? with
  | some up =>
    obtain ⟨up', hparent', hup⟩ := exists_parent?_of_same hsame hparent
    simp only [hparent', freshRules_eq_of_same m disk hup]
  | none =>
    cases hparent' : (ofComponents dir.components).parent? with
    | none => rfl
    | some up' =>
      obtain ⟨up, hup, -⟩ := exists_parent?_of_same (same_symm hsame) hparent'
      simp [hparent] at hup

section

variable (hroot : disk.ReadsThrough m.projectRoot)

include hroot

theorem freshRules_root :
    m.freshRules disk m.projectRoot = m.localRules disk m.projectRoot := by
  rw [freshRules_eq hroot, takenOver, inherits_root]
  cases m.projectRoot.parent? <;> rfl

theorem freshRules_down_concat {init : List Component} {c : Component}
    (h : Spelled (m.projectRoot.components ++ (init ++ [c]))) :
    m.freshRules disk (m.projectRoot.down (init ++ [c])) =
      (if c = .root then [] else m.freshRules disk (m.projectRoot.down init)) ++
        m.localRules disk (m.projectRoot.down (init ++ [c])) := by
  have hcomponents : (m.projectRoot.down (init ++ [c])).components =
      (m.projectRoot.components ++ init) ++ [c] := by
    rw [components_down h, List.append_assoc]
  rw [freshRules_eq (hroot.down h), takenOver, inherits_down (by simp) h]
  by_cases hc : c = .root
  · subst hc
    rw [parent?_of_components_root hcomponents, if_pos rfl]
  · obtain ⟨up, hparent, hup⟩ := exists_parent? hcomponents hc
    have hsame : up.same (m.projectRoot.down init) = true := by
      rw [same_iff, hup, components_down (hup ▸ spelled_components up)]
    rw [hparent, if_neg hc, ← freshRules_eq_of_same m disk hsame]
    rfl

/-- What a matcher knows that was asked about directories alone does not differ from what it finds
    on the way to a path. -/
theorem rulesIn_eq_freshRules {start : RuleCache}
    (hstart : RuleCache.Right (m.freshRules disk) start) {cs : List Component}
    (h : Spelled (m.projectRoot.components ++ cs)) :
    m.rulesIn disk start (m.projectRoot.down cs) = m.freshRules disk (m.projectRoot.down cs) := by
  induction cs using List.reverseRecOn with
  | nil =>
    cases hknown : start.get? m.projectRoot with
    | some found => exact (rulesIn_of_known hknown).trans (hstart _ _ hknown)
    | none => exact (rulesIn_root hknown).trans (freshRules_root hroot).symm
  | append_singleton init c ih =>
    cases hknown : start.get? (m.projectRoot.down (init ++ [c])) with
    | some found => exact (rulesIn_of_known hknown).trans (hstart _ _ hknown)
    | none =>
      have hinit : Spelled (m.projectRoot.components ++ init) := h.of_append_append
      rw [rulesIn_down_concat h hknown, freshRules_down_concat hroot h, ih hinit]

end

section

variable {start' : RuleCache} (h : ∀ cs, Spelled (m.projectRoot.components ++ cs) →
  m.rulesUsed disk start (m.projectRoot.down cs) = m.rulesUsed disk start' (m.projectRoot.down cs))

include h

theorem leavesOutBelow_congr (before : List Component) {cs : List Component}
    (hcs : Spelled (m.projectRoot.components ++ (before ++ cs))) :
    m.leavesOutBelow disk start (m.projectRoot.down before) cs =
      m.leavesOutBelow disk start' (m.projectRoot.down before) cs := by
  induction cs generalizing before with
  | nil => rfl
  | cons c cs ih =>
    have hnext : before ++ c :: cs = (before ++ [c]) ++ cs := by simp
    rw [leavesOutBelow, leavesOutBelow, h before hcs.of_append_append, ← down_append_singleton,
      ih _ (hnext ▸ hcs)]

/-- What is left out depends on the rules of the directories below the project root alone. -/
theorem leavesOut_congr (p : Path) : m.leavesOut disk start p = m.leavesOut disk start' p := by
  unfold leavesOut
  cases hbelow : below? m.projectRoot p with
  | none => rfl
  | some cs =>
    have hspelled : Spelled (m.projectRoot.components ++ ([] ++ cs)) := by
      rw [List.nil_append, ← below?_eq_some.mp hbelow]
      exact spelled_components p
    exact leavesOutBelow_congr h [] hspelled

end

/-- A matcher that was asked about directories alone gives the same answers as a new one. -/
theorem leavesOut_of_right (hroot : disk.ReadsThrough m.projectRoot)
    (hstart : RuleCache.Right (m.freshRules disk) start) (p : Path) :
    m.leavesOut disk start p = m.leavesOut disk [] p := by
  refine leavesOut_congr (fun cs hcs => ?_) p
  rw [rulesUsed, rulesUsed, rulesIn_eq_freshRules hroot hstart hcs,
    rulesIn_eq_freshRules hroot (asked_nil m disk).right hcs]

/-- A matcher with a tidy project root gives the same answers as a new one, once it was asked about
    directories. -/
theorem leavesOut_eq (hroot : m.projectRoot.Tidy)
    (hstart : RuleCache.Right (m.freshRules disk) start) (p : Path) :
    m.leavesOut disk start p = m.leavesOut disk [] p :=
  leavesOut_of_right (hroot.readsThrough disk) hstart p

/-! ### Spellings of the project root -/

/-- The matcher with the project root spelled like this. -/
def rootedAt (m : Matcher) (root : Path) : Matcher :=
  { m with projectRoot := root }

section

variable {root : Path} (h : root.same m.projectRoot = true)

include h

theorem relative_rootedAt : (m.rootedAt root).relative = m.relative := by
  have hroot : (m.rootedAt root).projectRoot.same m.projectRoot = true := h
  exact funext fun p => relative_eq_of_same hroot (same_refl p)

theorem covers_rootedAt : (m.rootedAt root).covers = m.covers := by
  funext p isDir rules
  rw [covers, covers, relative_rootedAt h]
  rfl

theorem rulesAlong_rootedAt (dirs : List Path) :
    (m.rootedAt root).rulesAlong disk dirs = m.rulesAlong disk dirs := by
  have hinherits : (m.rootedAt root).inherits = m.inherits := by
    funext p
    have hroot : (m.rootedAt root).projectRoot.components = m.projectRoot.components :=
      same_iff.mp h
    rw [inherits, inherits, same, same, startsWith, startsWith, below?, below?, hroot]
  have hlocal : (m.rootedAt root).localRules disk = m.localRules disk := by
    funext p
    rw [localRules, localRules, relative_rootedAt h]
  induction dirs with
  | nil => rfl
  | cons dir above ih => rw [rulesAlong, rulesAlong, hinherits, hlocal, ih]

/-- A walk does not look at the spelling of the project root. -/
theorem walk_rootedAt (p : Path) : (m.rootedAt root).walk disk p = m.walk disk p := by
  have hprunes : (m.rootedAt root).prunes disk = m.prunes disk := by
    funext p isDir
    simp only [Matcher.prunes, rulesFor, rulesAlong_rootedAt h, covers_rootedAt h]
    rfl
  have hfolder : ∀ f dir, (m.rootedAt root).walkFolder disk dir f = m.walkFolder disk dir f := by
    intro f
    induction f with
    | empty => exact fun _ => rfl
    | file name content others ih => simp only [walkFolder, hprunes, ih, implies_true]
    | link name target others ih => simp only [walkFolder, hprunes, ih, implies_true]
    | special name others ih => simp only [walkFolder, hprunes, ih, implies_true]
    | folder name inside others ihInside ih =>
      simp only [walkFolder, hprunes, ihInside, ih, implies_true]
  simp only [walk, hfolder]

end

end SourceWeb.Ignore.Matcher
