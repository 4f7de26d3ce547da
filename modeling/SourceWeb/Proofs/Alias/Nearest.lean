/-
  Which configuration file is the nearest.

  The search goes up from the directory of a source file and stops at the project root, so it passes
  the directories from there down to the source file, and the first one with a configuration file is
  the deepest.  A source file outside of the project leaves the project root alone to be searched.
-/
import SourceWeb.Proofs.Alias.Remembered

namespace SourceWeb.Alias

open SourceWeb.Path

variable {disk : Disk} {root start dir found : Path}

/-! ### One directory -/

/-- Is this the configuration file of the directory?  A `tsconfig.json` goes first. -/
inductive IsConfigOf (disk : Disk) (dir : Path) : Path → Prop
  | tsconfig (h : disk.isFile (dir.child "tsconfig.json") = true) :
      IsConfigOf disk dir (dir.child "tsconfig.json")
  | jsconfig (h : disk.isFile (dir.child "tsconfig.json") = false)
      (h' : disk.isFile (dir.child "jsconfig.json") = true) :
      IsConfigOf disk dir (dir.child "jsconfig.json")

theorem configIn_eq_some : configIn disk dir = some found ↔ IsConfigOf disk dir found := by
  rw [configIn_eq]
  constructor
  · intro h
    split at h
    · rename_i hts
      cases h
      exact .tsconfig hts
    · rename_i hts
      split at h
      · rename_i hjs
        cases h
        exact .jsconfig (by simpa using hts) hjs
      · simp at h
  · rintro (hts | ⟨hts, hjs⟩)
    · rw [if_pos hts]
    · rw [if_neg (by simp [hts]), if_pos hjs]

def HasConfig (disk : Disk) (dir : Path) : Prop :=
  disk.isFile (dir.child "tsconfig.json") = true ∨ disk.isFile (dir.child "jsconfig.json") = true

theorem configIn_eq_none : configIn disk dir = none ↔ ¬ HasConfig disk dir := by
  rw [configIn_eq, HasConfig]
  split
  · simp [*]
  · split <;> simp [*]

theorem IsConfigOf.startsWith (h : IsConfigOf disk dir found) : found.startsWith dir = true := by
  cases h with
  | tsconfig => exact startsWith_child (startsWith_refl _) (by simp [IsName, Text.Holds])
  | jsconfig => exact startsWith_child (startsWith_refl _) (by simp [IsName, Text.Holds])

/-! ### The search -/

theorem filter_ancestors_of_outside (h : start.startsWith root = false) :
    (start.ancestors.filter fun dir => dir.startsWith root) = [] := by
  refine List.filter_eq_nil_iff.mpr fun dir hdir hbelow => ?_
  rw [startsWith_trans (startsWith_of_mem_ancestors hdir) hbelow] at h
  simp at h

theorem configAlong_eq (h : start.startsWith root = true) :
    configAlong disk root start.ancestors =
      (start.ancestors.filter fun dir => dir.startsWith root).findSome? (configIn disk) := by
  -- the search and the list both go up from the start; the one stops at the project root, and
  -- nothing above that is left in the other
  induction start using parentInduction with
  | child p ih =>
    rw [ancestors_eq, List.filter_cons, if_pos h, configAlong, List.findSome?_cons]
    cases configIn disk p with
    | some found => rfl
    | none =>
      cases hparent : p.parent? with
      | none => cases p.same root <;> rfl
      | some up =>
        cases hstop : p.same root with
        | false => exact ih up hparent (startsWith_parent? h hstop hparent)
        | true =>
          have hup : up.startsWith root = false := by
            rw [← Bool.not_eq_true]
            intro hbelow
            obtain ⟨c, hc⟩ := components_of_parent? hparent
            obtain ⟨cs, hcs⟩ := startsWith_iff.mp hbelow
            rw [same_iff.mp hstop, hcs] at hc
            simpa using congrArg List.length hc
          simp only [if_true, filter_ancestors_of_outside hup]
          rfl

/-- The directories that are searched, in this order: those from the start up to the project root,
    if the start lies in the project, and then the project root. -/
def chain (root start : Path) : List Path :=
  (start.ancestors.filter fun dir => dir.startsWith root) ++ [root]

theorem configFrom_eq (disk : Disk) (root start : Path) :
    configFrom disk root start = (chain root start).findSome? (configIn disk) := by
  rw [chain, List.findSome?_append, List.findSome?_singleton, configFrom]
  cases h : start.startsWith root with
  | true => rw [if_pos rfl, configAlong_eq h, Option.orElse_eq_or]
  | false =>
    rw [filter_ancestors_of_outside h, if_neg (by simp)]
    rfl

theorem mem_searched : dir ∈ searched root start ↔ dir ∈ chain root start := by
  rw [searched, chain, List.mem_cons, List.mem_append, List.mem_singleton, or_comm]

theorem pairwise_chain (root start : Path) :
    (chain root start).Pairwise fun dir above => dir.startsWith above = true := by
  apply List.pairwise_append.mpr
  refine ⟨(pairwise_ancestors start).filter _, List.pairwise_singleton _ _, ?_⟩
  intro dir hdir above habove
  rw [List.mem_singleton.mp habove]
  exact (List.mem_filter.mp hdir).2

/-- Which directories are searched: those below the project root that are above the start or are the
    start itself, and the project root. -/
theorem exists_mem_searched {cs : List Component} :
    (∃ dir ∈ searched root start, dir.components = cs) ↔
      root.components <+: cs ∧ (cs <+: start.components ∨ cs = root.components) := by
  constructor
  · rintro ⟨dir, hdir, rfl⟩
    rcases List.mem_cons.mp hdir with rfl | hdir
    · exact ⟨List.prefix_refl _, .inr rfl⟩
    · obtain ⟨hdir, hbelow⟩ := List.mem_filter.mp hdir
      obtain ⟨cs, hcs⟩ := startsWith_iff.mp hbelow
      exact ⟨⟨cs, hcs.symm⟩, .inl (components_prefix_of_mem_ancestors hdir)⟩
  · rintro ⟨hroot, habove⟩
    by_cases heq : cs = root.components
    · exact ⟨root, List.mem_cons_self, heq.symm⟩
    have hne : cs ≠ [] := by
      rintro rfl
      exact heq (List.prefix_nil.mp hroot).symm
    obtain ⟨dir, hdir, hcs⟩ := exists_mem_ancestors (habove.resolve_right heq) hne
    have hbelow : dir.startsWith root = true := by
      obtain ⟨rest, hrest⟩ := hroot
      exact startsWith_iff.mpr ⟨rest, by rw [hcs, hrest]⟩
    exact ⟨dir, List.mem_cons_of_mem _ (List.mem_filter.mpr ⟨hdir, hbelow⟩), hcs⟩

theorem startsWith_of_mem_searched (h : dir ∈ searched root start) :
    dir.startsWith root = true := by
  rcases List.mem_cons.mp h with rfl | h
  · exact startsWith_refl _
  · exact (List.mem_filter.mp h).2

/-- The file that the search ends with is that of the deepest directory with such a file. -/
theorem configFrom_eq_some (h : configFrom disk root start = some found) :
    ∃ dir ∈ searched root start, IsConfigOf disk dir found ∧
      ∀ other ∈ searched root start, HasConfig disk other → dir.startsWith other = true := by
  rw [configFrom_eq, List.findSome?_eq_some_iff] at h
  obtain ⟨before, dir, after, hlist, hfound, hbefore⟩ := h
  have hpairwise := pairwise_chain root start
  rw [hlist] at hpairwise
  have hdir : dir ∈ searched root start := mem_searched.mpr (by simp [hlist])
  refine ⟨dir, hdir, configIn_eq_some.mp hfound, ?_⟩
  -- a directory with a file was not passed before, so it is this one or one above it
  intro other hother hhas
  rw [mem_searched, hlist] at hother
  rcases List.mem_append.mp hother with hother | hother
  · exact absurd hhas (configIn_eq_none.mp (hbefore other hother))
  · rcases List.mem_cons.mp hother with rfl | hother
    · exact startsWith_refl _
    · have htail := (List.pairwise_append.mp hpairwise).2.1
      exact (List.pairwise_cons.mp htail).1 other hother

theorem configFrom_eq_none :
    configFrom disk root start = none ↔ ∀ dir ∈ searched root start, ¬ HasConfig disk dir := by
  rw [configFrom_eq, List.findSome?_eq_none_iff]
  simp only [mem_searched, configIn_eq_none]

/-- **The nearest configuration file is found.**  The directories from that of the source file up to
    the project root are searched, and for a source file outside of the project the project root
    alone.  The file found is that of the deepest one with such a file, so it is never above the
    project root or outside of it; none is found exactly if none of the directories has one. -/
theorem configFor_nearest (disk : Disk) (root hint : Path) :
    let start := startOf disk root hint
    (∀ cs, (∃ dir ∈ searched root start, dir.components = cs) ↔
        root.components <+: cs ∧ (cs <+: start.components ∨ cs = root.components)) ∧
      (start.startsWith root = false → searched root start = [root]) ∧
      match configFor disk root hint with
      | some found => found.startsWith root = true ∧
          ∃ dir ∈ searched root start, IsConfigOf disk dir found ∧
            ∀ other ∈ searched root start, HasConfig disk other → dir.startsWith other = true
      | none => ∀ dir ∈ searched root start, ¬ HasConfig disk dir := by
  intro start
  refine ⟨?_, ?_, ?_⟩
  · intro cs
    exact exists_mem_searched
  · intro houtside
    rw [searched, filter_ancestors_of_outside houtside]
  · rw [configFor_eq]
    cases hfound : configFrom disk root start with
    | none => exact configFrom_eq_none.mp hfound
    | some found =>
      obtain ⟨dir, hdir, hconfig, hdeepest⟩ := configFrom_eq_some hfound
      have hbelow : found.startsWith root = true :=
        startsWith_trans hconfig.startsWith (startsWith_of_mem_searched hdir)
      exact ⟨hbelow, dir, hdir, hconfig, hdeepest⟩

end SourceWeb.Alias
