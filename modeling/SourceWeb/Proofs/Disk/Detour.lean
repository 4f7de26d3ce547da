/-
  Detours: paths that go up again behind a link.

  Working off `..` takes the name before it back, whatever that is.  If it is the name of a link,
  the look-up goes up from the link's target instead, so the normal spelling of a path may lead to
  something else, or nowhere.  An absolute path without such a detour leads to the same place under
  its normal spelling, which is no longer.
-/
import SourceWeb.Proofs.Disk.Canonical
import SourceWeb.Proofs.Disk.Spelling

namespace SourceWeb

open SourceWeb.Path SourceWeb.Text

namespace Disk

variable {d : Disk} {p : Path} {loc : Location} {n : Nat}

/-- Does the path end at a symbolic link? -/
def EndsAtLink (d : Disk) (p : Path) : Prop :=
  ∃ dir name at_ target, IsName name ∧ p = dir.child name ∧ d.follow .find dir = .ok at_ ∧
    d.root.at? (at_ ++ [name]) = some (.link target)

/-- Does a `..` of the path stand behind a symbolic link?  The link is looked for under the normal
    spelling of what stands before the `..`. -/
def Detours (d : Disk) (p : Path) : Prop :=
  ∃ before after, p.components = before ++ .up :: after ∧
    d.EndsAtLink (ofComponents before).normal

/-- Do the paths lead to the same regular file? -/
def SameFile (d : Disk) (p q : Path) : Prop :=
  ∃ loc content, d.LeadsTo p loc ∧ d.LeadsTo q loc ∧ d.root.at? loc = some (.file content)

/-- The same file has one canonical path, if it has any. -/
theorem SameFile.canonical_eq {q r r' : Path} (h : d.SameFile p q) (hp : d.canonical p = .ok r)
    (hq : d.canonical q = .ok r') : r = r' := by
  obtain ⟨loc, content, hleads, hleads', -⟩ := h
  rw [hleads.eq_pathOf hp, hleads'.eq_pathOf hq]

/-! ### Ways from the root -/

theorem isAbsolute_ofComponents_root {cs : List Component} (h : ∀ c ∈ cs, c.IsStep) :
    (ofComponents (.root :: cs)).isAbsolute = true := by
  rw [isAbsolute_iff_components, components_ofComponents (spelled_root h)]
  rfl

theorem follow_ofComponents_root {cs : List Component} (h : ∀ c ∈ cs, c.IsStep) :
    d.follow .find (ofComponents (.root :: cs)) = .ok loc ↔
      ∃ n ≤ linkLimit, Way d.root [] (cs.map Component.text) n loc := by
  have hroot : d.root.at? [] = some (.folder d.root) := rfl
  rw [follow, if_pos (isAbsolute_ofComponents_root h), resolve_eq_ok_iff]
  exact exists_congr fun n => and_congr_right fun _ => Way.ofComponents_iff hroot h true

/-- At the root `..` leads nowhere. -/
theorem Way.ups_of_root (root : Folder) (k : Nat) : Way root [] (List.replicate k "..") 0 [] := by
  induction k with
  | zero => exact .done []
  | succ k ih =>
    have hroot : root.at? [] = some (.folder root) := rfl
    exact .step (stride_up hroot) ih

/-- From the root the names that a path is left with lead where its normal spelling does. -/
theorem Way.of_names {root : Folder} (h : Way root [] p.reduced.names.reverse n loc) :
    Way root [] p.normalSegments n loc := by
  rw [normalSegments_eq, Reduced.kept, List.reverse_append, List.reverse_replicate]
  have happ := (Way.ups_of_root root (p.reduced.ups % 2)).append h
  rwa [Nat.zero_add] at happ

/-- A path whose last step is a name, in normal spelling. -/
theorem normal_ofComponents_root {cs : List Component} (h : ∀ c ∈ cs, c.IsStep) {s : String}
    {names : List String} (hnames : (Reduced.of cs).names = s :: names) :
    ∃ ups, (ofComponents (.root :: cs)).normal =
      (ofComponents (.root :: (List.replicate ups .up ++ names.reverse.map .name))).child s := by
  have hcomponents := components_ofComponents (spelled_root h)
  have hreduced : (ofComponents (.root :: cs)).reduced = Reduced.of cs := by
    rw [reduced, hcomponents]
    rfl
  have htidy := tidy_normal (ofComponents (.root :: cs))
  rw [Tidy, components_normal, if_pos (isAbsolute_ofComponents_root h), steps_normalSegments,
    hreduced, hnames, List.reverse_cons, List.map_append, List.map_singleton,
    ← List.append_assoc, ← List.append_assoc, ofComponents_append_singleton] at htidy
  exact ⟨_, htidy.symm⟩

/-! ### Without detours -/

/-- A path without detours goes up behind no link. -/
theorem direct_of_not_detours (habs : p.isAbsolute = true) (h : ¬ d.Detours p)
    (hn : n ≤ linkLimit) : Way.Direct d.root [] n (steps p.segments) := by
  intro before after hsplit s names hnames m dir hm hdir target hat
  have hsteps : ∀ c ∈ before, c.IsStep := fun c hc =>
    isStep_of_mem_steps (p := p) (by simp [hsplit, hc])
  refine h ⟨.root :: before, after, ?_, ?_⟩
  · rw [components_eq, lead, if_pos habs, hsplit]
    rfl
  · obtain ⟨ups, hnormal⟩ := normal_ofComponents_root hsteps hnames
    have hall : ∀ t ∈ s :: names, IsName t := fun t ht =>
      Reduced.isName_of_mem (fun u hu => hsteps (.name u) hu) (hnames ▸ ht)
    have hups : ∀ c ∈ List.replicate ups Component.up ++ names.reverse.map .name, c.IsStep := by
      intro c hc
      rcases List.mem_append.mp hc with hc | hc
      · rw [List.eq_of_mem_replicate hc]
        trivial
      · exact isStep_of_mem_map_name
          (fun t ht => hall t (List.mem_cons_of_mem s (List.mem_reverse.mp ht))) c hc
    refine ⟨_, s, dir, target, hall s List.mem_cons_self, hnormal, ?_, hat⟩
    refine (follow_ofComponents_root hups).mpr ⟨m, hm.trans hn, ?_⟩
    have hbase : (Reduced.of before).base [] = [] := List.take_nil
    rw [hbase] at hdir
    rw [List.map_append, List.map_replicate, map_text_map_name]
    have happ := (Way.ups_of_root d.root ups).append hdir
    rwa [Nat.zero_add] at happ

/-- **Without detours the normal spelling leads to the same place.** -/
theorem LeadsTo.normal (h : d.LeadsTo p loc) (habs : p.isAbsolute = true)
    (hdirect : ¬ d.Detours p) : d.LeadsTo p.normal loc := by
  have hnormal : p.normal.isAbsolute = true := by rw [isAbsolute_normal, habs]
  refine ⟨?_, ?_, ?_⟩
  · intro hnull
    exact h.null ((toList_normal_sublist habs).subset hnull)
  · intro hempty
    rw [isAbsolute, hempty] at hnormal
    exact absurd hnormal (by decide)
  · have hfollow := h.follow
    rw [Disk.follow, if_pos habs, resolve_eq_ok_iff] at hfollow
    obtain ⟨n, hn, hway⟩ := hfollow
    obtain ⟨m, hm, hreduced⟩ := hway.reduce_segments (direct_of_not_detours habs hdirect hn)
    have hbase : p.reduced.base [] = [] := List.take_nil
    rw [hbase] at hreduced
    have hroot : d.root.at? [] = some (.folder d.root) := rfl
    rw [Disk.follow, if_pos hnormal, resolve_eq_ok_iff]
    exact ⟨m, hm.trans hn, (Way.normal_iff hroot p).mpr hreduced.of_names⟩

/-- A file that no detour leads to is the same file under the normal spelling. -/
theorem isFile_normal (habs : p.isAbsolute = true) (hfile : d.isFile p = true)
    (hdirect : ¬ d.Detours p) :
    d.isFile p.normal = true ∧ d.SameFile p.normal p := by
  obtain ⟨content, hentry⟩ := isFile_iff.mp hfile
  obtain ⟨loc, hleads, hat⟩ := leadsTo_of_entry? hentry
  have hnormal := hleads.normal habs hdirect
  -- what is no longer than a path that was looked up can be looked up
  have hsize : p.normal.text.utf8ByteSize ≤ pathLimit := by
    by_contra hlong
    have hlonger : pathLimit < p.text.utf8ByteSize :=
      (Nat.lt_of_not_le hlong).trans_le (size_normal_le habs)
    rw [isFile_of_long d hlonger] at hfile
    simp at hfile
  exact ⟨isFile_iff.mpr ⟨content, hnormal.entry?_eq_ok hat hsize⟩, loc, content, hnormal, hleads,
    hat⟩

end Disk

end SourceWeb
