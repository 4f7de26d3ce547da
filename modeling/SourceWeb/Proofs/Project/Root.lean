/-
  The root of a project, and the root found from there.

  The search goes up from a directory, so from what it finds it finds the same again.  But it
  starts from the canonical path where there is one, and a path that leads nowhere may be below a
  link: then the root is spelled with the link, and the root found from there without it.
-/
import SourceWeb.Project
import SourceWeb.Proofs.Disk.Steps

namespace SourceWeb.Project

open SourceWeb.Path SourceWeb.Text

variable {d : Disk} {p q t : Path} {loc : Location}

/-! ### Searching upwards -/

/-- The directory that the search finds from a directory. -/
def nearest (d : Disk) (start : Path) : Path :=
  match start.ancestors.find? (hasVcs d) with
  | some dir => dir
  | none => (start.ancestors.find? (hasManifest d)).getD start

theorem rootOf_eq (d : Disk) (p : Path) : rootOf d p = nearest d (startDir d p) := by
  unfold rootOf nearest
  cases hvcs : (startDir d p).ancestors.find? (hasVcs d) with
  | some dir => simp only [hvcs]
  | none => simp only [hvcs]

/-- What is found is the start, or it has a marker. -/
theorem nearest_eq_or (d : Disk) (t : Path) :
    nearest d t = t ∨ hasVcs d (nearest d t) = true ∨ hasManifest d (nearest d t) = true := by
  unfold nearest
  cases hvcs : t.ancestors.find? (hasVcs d) with
  | some dir => exact .inr (.inl (List.find?_some hvcs))
  | none =>
    cases hmanifest : t.ancestors.find? (hasManifest d) with
    | some dir => exact .inr (.inr (List.find?_some hmanifest))
    | none => exact .inl rfl

theorem nearest_mem_ancestors (d : Disk) (t : Path) : nearest d t ∈ t.ancestors := by
  unfold nearest
  cases hvcs : t.ancestors.find? (hasVcs d) with
  | some dir => exact List.mem_of_find?_eq_some hvcs
  | none =>
    cases hmanifest : t.ancestors.find? (hasManifest d) with
    | some dir => exact List.mem_of_find?_eq_some hmanifest
    | none => exact self_mem_ancestors t

/-- From what is found the same is found again. -/
theorem nearest_nearest (d : Disk) (t : Path) : nearest d (nearest d t) = nearest d t := by
  have hfirst : ∀ {keep : Path → Bool} {dir : Path}, t.ancestors.find? keep = some dir →
      dir.ancestors.find? keep = some dir := by
    intro keep dir hdir
    rw [ancestors_eq, List.find?_cons_of_pos (List.find?_some hdir)]
  unfold nearest
  cases hvcs : t.ancestors.find? (hasVcs d) with
  | some dir => simp only [hfirst hvcs]
  | none =>
    cases hmanifest : t.ancestors.find? (hasManifest d) with
    | none => simp only [Option.getD_none, hvcs, hmanifest]
    | some dir =>
      -- no directory above the start is under version control, so none above this one is
      have hsuffix := ancestors_suffix (List.mem_of_find?_eq_some hmanifest)
      have hnone : dir.ancestors.find? (hasVcs d) = none := by
        rw [List.find?_eq_none] at hvcs ⊢
        exact fun q hq => hvcs q (hsuffix.subset hq)
      simp only [Option.getD_some, hnone, hfirst hmanifest]

/-! ### Markers -/

/-- What has a marker is a directory, or the empty path, behind which the marker is looked for in
    the current directory. -/
theorem leadsToFolder_of_marker (h : hasVcs d p = true ∨ hasManifest d p = true)
    (hp : p.text ≠ "") :
    d.LeadsToFolder p := by
  have hchild : ∀ name e, IsName name → d.entry? (p.child name) = .ok e → d.LeadsToFolder p := by
    intro name e hname hentry
    obtain ⟨loc, hleads, -⟩ := Disk.leadsTo_of_entry? hentry
    exact hleads.above (components_child_name p hname) hp
  rcases h with h | h
  · obtain ⟨name, hname, hdir⟩ := List.any_eq_true.mp h
    obtain ⟨f, hentry⟩ := Disk.isDir_iff.mp hdir
    refine hchild name _ ?_ hentry
    have hall : ∀ n ∈ vcsDirs, IsName n := by simp [vcsDirs, IsName, Holds]
    exact hall name hname
  · obtain ⟨name, hname, hfile⟩ := List.any_eq_true.mp h
    obtain ⟨content, hentry⟩ := Disk.isFile_iff.mp hfile
    refine hchild name _ ?_ hentry
    have hall : ∀ n ∈ manifests, IsName n := by simp [manifests, IsName, Holds]
    exact hall name hname

theorem leadsToFolder_of_parent? {up : Path} (hfile : d.isFile p = true)
    (hup : p.parent? = some up) (hne : up.text ≠ "") : d.LeadsToFolder up := by
  obtain ⟨content, hentry⟩ := Disk.isFile_iff.mp hfile
  obtain ⟨loc, hleads, -⟩ := Disk.leadsTo_of_entry? hentry
  obtain ⟨c, hc⟩ := components_of_parent? hup
  exact hleads.above hc hne

/-! ### Where the search starts -/

/-- The path that the search is about: canonical if possible, and else absolute if possible. -/
def located (d : Disk) (p : Path) : Path :=
  match d.canonical p with
  | .ok q => q
  | .error _ =>
    match d.absolute p with
    | .ok q => q
    | .error _ => p

theorem startDir_eq (d : Disk) (p : Path) : startDir d p =
    if d.isFile (located d p) then (located d p).parent?.getD (located d p) else located d p := by
  cases hcanon : d.canonical p with
  | ok q => simp only [startDir, located, hcanon]
  | error e => cases habs : d.absolute p <;> simp only [startDir, located, hcanon, habs]

theorem rootOf_mem_ancestors (d : Disk) (p : Path) : rootOf d p ∈ (located d p).ancestors := by
  have hstart : startDir d p ∈ (located d p).ancestors := by
    rw [startDir_eq]
    split
    · cases hup : (located d p).parent? with
      | none => exact self_mem_ancestors _
      | some up =>
        rw [ancestors_eq, hup]
        exact List.mem_cons_of_mem _ (self_mem_ancestors up)
    · exact self_mem_ancestors _
  rw [rootOf_eq]
  exact (ancestors_suffix hstart).subset (nearest_mem_ancestors d _)

/-- The search starts at no file, unless nothing is above it. -/
theorem parent?_startDir (h : d.isFile (startDir d p) = true) : (startDir d p).parent? = none := by
  rw [startDir_eq] at h ⊢
  by_cases hfile : d.isFile (located d p) = true
  · rw [if_pos hfile] at h ⊢
    cases hup : (located d p).parent? with
    | none => exact hup
    | some up =>
      rw [hup, Option.getD_some] at h
      have hfolder := leadsToFolder_of_parent? hfile hup (Disk.text_ne_empty_of_isFile h)
      rw [hfolder.isFile_eq_false] at h
      simp at h
  · rw [if_neg hfile] at h
    exact absurd h hfile

/-- Neither is a file found. -/
theorem parent?_rootOf (h : d.isFile (rootOf d p) = true) : (rootOf d p).parent? = none := by
  rw [rootOf_eq] at h ⊢
  rcases nearest_eq_or d (startDir d p) with heq | hmarker
  · rw [heq] at h ⊢
    exact parent?_startDir h
  · have hfolder := leadsToFolder_of_marker hmarker (Disk.text_ne_empty_of_isFile h)
    rw [hfolder.isFile_eq_false] at h
    simp at h

/-- A root that the search from it is about is found again. -/
theorem rootOf_rootOf_of_located (h : located d (rootOf d p) = rootOf d p) :
    rootOf d (rootOf d p) = rootOf d p := by
  have hstart : startDir d (rootOf d p) = rootOf d p := by
    rw [startDir_eq, h]
    by_cases hfile : d.isFile (rootOf d p) = true
    · rw [if_pos hfile, parent?_rootOf hfile, Option.getD_none]
    · rw [if_neg hfile]
  rw [rootOf_eq d (rootOf d p), hstart, rootOf_eq, nearest_nearest]

/-- The root that is found from a canonical path spells a place above the one that this leads to. -/
theorem exists_pathOf_rootOf (hd : d.Proper) (h : d.canonical p = .ok q) :
    ∃ above rest e, rootOf d p = Disk.pathOf above ∧ q = Disk.pathOf (above ++ rest) ∧
      d.root.at? above = some e ∧ ∀ target, e ≠ .link target := by
  obtain ⟨loc, hleads, rfl⟩ := Disk.exists_leadsTo_of_canonical h
  obtain ⟨e, hat, hlink⟩ := hleads.exists_entry
  have hlocated : located d p = Disk.pathOf loc := by rw [located, h]
  have hmem := rootOf_mem_ancestors d p
  rw [hlocated] at hmem
  obtain ⟨above, hprefix, heq⟩ :=
    Disk.exists_prefix_of_mem_ancestors (hd.root.of_at? hat).1 hmem
  obtain ⟨e', hat', hlink'⟩ := Folder.exists_at?_of_prefix hprefix hat hlink
  obtain ⟨rest, rfl⟩ := hprefix
  exact ⟨above, rest, e', heq, rfl, hat', hlink'⟩

/-- It has no other canonical path. -/
theorem eq_rootOf_of_canonical (hd : d.Proper) (hfits : d.root.Fits) (h : d.canonical p = .ok q)
    {q' : Path} (hroot : d.canonical (rootOf d p) = .ok q') : q' = rootOf d p := by
  obtain ⟨above, -, e, heq, -, hat, hlink⟩ := exists_pathOf_rootOf hd h
  rw [heq] at hroot ⊢
  exact (Disk.leadsTo_pathOf hd hfits hat hlink).eq_pathOf hroot

/-- It is canonical, if the canonical path below it is not too long to be looked up. -/
theorem canonical_rootOf (hd : d.Proper) (hfits : d.root.Fits) (h : d.canonical p = .ok q)
    (hsize : q.text.utf8ByteSize ≤ Disk.pathLimit) :
    d.canonical (rootOf d p) = .ok (rootOf d p) := by
  obtain ⟨above, rest, e, heq, rfl, hat, hlink⟩ := exists_pathOf_rootOf hd h
  rw [heq]
  exact Disk.canonical_pathOf hd hfits hat hlink
    ((Disk.size_pathOf_le_append above rest).trans hsize)

/-- What the search is about is spelled from a root, unless it is the empty path. -/
theorem rooted_located (hd : d.Proper) (p : Path) :
    (located d p).Rooted ∨ (located d p).text = "" := by
  rw [located]
  cases hcanonical : d.canonical p with
  | ok q =>
    obtain ⟨loc, hleads, rfl⟩ := Disk.exists_leadsTo_of_canonical hcanonical
    obtain ⟨e, hat, -⟩ := hleads.exists_entry
    have htidy := Disk.tidy_pathOf (hd.root.of_at? hat).1
    exact .inl (htidy.rooted (Disk.isAbsolute_pathOf loc))
  | error e =>
    cases hread : absoluteFrom d.herePath p with
    | some q =>
      have htidy : d.herePath.Tidy := Disk.tidy_pathOf hd.here
      simp only [Disk.absolute, hread]
      exact .inl (rooted_absoluteFrom htidy (Disk.isAbsolute_pathOf d.here) hread)
    | none =>
      simp only [Disk.absolute, hread]
      refine .inr (by_contra fun hp => ?_)
      rw [absoluteFrom_eq hp] at hread
      simp at hread

/-- A root without a canonical path is read as it is spelled. -/
theorem located_rootOf_of_lost (hd : d.Proper) (h : ∀ q, d.canonical (rootOf d p) ≠ .ok q) :
    located d (rootOf d p) = rootOf d p := by
  have hread : d.absolute (rootOf d p) = .ok (rootOf d p) ∨
      d.absolute (rootOf d p) = .error .emptyPath := by
    have hmem := rootOf_mem_ancestors d p
    unfold Disk.absolute
    rcases rooted_located hd p with hrooted | hempty
    · rw [(hrooted.of_mem_ancestors hmem).absoluteFrom]
      exact .inl rfl
    · have hancestors : (located d p).ancestors = [⟨""⟩] := by
        rw [ext_text (q := ⟨""⟩) hempty]
        decide
      rw [hancestors, List.mem_singleton] at hmem
      rw [hmem]
      exact .inr rfl
  rw [located]
  cases hcanonical : d.canonical (rootOf d p) with
  | ok q => exact absurd hcanonical (h q)
  | error e => rcases hread with hread | hread <;> rw [hread]

theorem rootOf_rootOf_of_canonical (hd : d.Proper)
    (h : ∀ q, d.canonical (rootOf d p) = .ok q → q = rootOf d p) :
    rootOf d (rootOf d p) = rootOf d p := by
  apply rootOf_rootOf_of_located
  by_cases hlost : ∃ q, d.canonical (rootOf d p) = .ok q
  · obtain ⟨q, hq⟩ := hlost
    rw [located, hq]
    exact h q hq
  · exact located_rootOf_of_lost hd fun q hq => hlost ⟨q, hq⟩

theorem rootOf_rootOf_iff (hd : d.Proper) (hfits : d.root.Fits) (p : Path) :
    rootOf d (rootOf d p) = rootOf d p ↔ ∀ q, d.canonical (rootOf d p) = .ok q → q = rootOf d p := by
  constructor
  · intro hfixed q hq
    have hagain : d.canonical (rootOf d (rootOf d p)) = .ok q := by rw [hfixed, hq]
    exact (eq_rootOf_of_canonical hd hfits hq hagain).trans hfixed
  · exact rootOf_rootOf_of_canonical hd

/-- **When the root is a fixed point.**  From the root that is found from a path, the same root is
    found unless it has another canonical path.  This is so for all paths that lead somewhere, and
    then the root is canonical, unless the path is relative and the current directory so deep that
    its own canonical path is too long to be looked up; and where it is not, the root found from the
    root is canonical, and found again. -/
theorem rootOf_rootOf (hd : d.Proper) (hfits : d.root.Fits) (p : Path) :
    (rootOf d (rootOf d p) = rootOf d p ↔
      ∀ q, d.canonical (rootOf d p) = .ok q → q = rootOf d p) ∧
    (∀ q, d.canonical p = .ok q →
      (q.text.utf8ByteSize ≤ Disk.pathLimit → d.canonical (rootOf d p) = .ok (rootOf d p)) ∧
      rootOf d (rootOf d p) = rootOf d p) ∧
    rootOf d (rootOf d (rootOf d p)) = rootOf d (rootOf d p) := by
  have hfixed : ∀ p, (∃ q, d.canonical p = .ok q) → rootOf d (rootOf d p) = rootOf d p := by
    rintro p ⟨q, hq⟩
    exact rootOf_rootOf_of_canonical hd fun q' => eq_rootOf_of_canonical hd hfits hq
  refine ⟨rootOf_rootOf_iff hd hfits p, ?_, ?_⟩
  · intro q hq
    exact ⟨canonical_rootOf hd hfits hq, hfixed p ⟨q, hq⟩⟩
  · by_cases hroot : ∃ q, d.canonical (rootOf d p) = .ok q
    · exact hfixed _ hroot
    · rw [(rootOf_rootOf_iff hd hfits p).mpr fun q hq => absurd ⟨q, hq⟩ hroot,
        (rootOf_rootOf_iff hd hfits p).mpr fun q hq => absurd ⟨q, hq⟩ hroot]

/-- A directory under version control, and a link to it. -/
def linkedDisk : Disk :=
  ⟨.folder "real" (.folder ".git" .empty .empty) (.link "link" "real" .empty), [], []⟩

/-- The root found from a missing path below the link is the link, and the root found from there is
    the directory. -/
theorem rootOf_link_ne :
    rootOf linkedDisk (rootOf linkedDisk ⟨"/link/missing"⟩) ≠
      rootOf linkedDisk ⟨"/link/missing"⟩ := by
  decide +kernel

theorem rootOf_link : linkedDisk.Proper ∧ linkedDisk.root.Fits ∧
    rootOf linkedDisk (rootOf linkedDisk ⟨"/link"⟩) = rootOf linkedDisk ⟨"/link"⟩ ∧
    rootOf linkedDisk (rootOf linkedDisk (rootOf linkedDisk ⟨"/link/missing"⟩)) =
      rootOf linkedDisk (rootOf linkedDisk ⟨"/link/missing"⟩) := by
  have hd : linkedDisk.Proper := by
    constructor
    · simp [linkedDisk, Folder.Proper, IsName, Holds, Folder.get?, Folder.entries]
    · simp [linkedDisk, Disk.HereNamed]
  have hfits : linkedDisk.root.Fits := by
    intro name hname
    have hmem : name = "real" ∨ name = ".git" ∨ name = "link" := by
      simpa [linkedDisk, Folder.allNames] using hname
    rcases hmem with rfl | rfl | rfl <;> exact ⟨by simp [Holds], by decide⟩
  have hlink : linkedDisk.canonical ⟨"/link"⟩ = .ok ⟨"/real"⟩ := by decide +kernel
  exact ⟨hd, hfits, ((rootOf_rootOf hd hfits _).2.1 _ hlink).2, (rootOf_rootOf hd hfits _).2.2⟩

end SourceWeb.Project
