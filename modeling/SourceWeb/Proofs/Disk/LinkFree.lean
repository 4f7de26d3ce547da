/-
  Trees without links.

  There a path that leads anywhere leads to the place that its components spell out, so whether the
  normal spelling leads to the same place can be read off the spelling: it does, unless two of the
  `..` that lead out of the current directory take each other back.
-/
import SourceWeb.Proofs.Disk.Proper
import SourceWeb.Proofs.Disk.Way

namespace SourceWeb

open SourceWeb.Path SourceWeb.Text

/-! ### Trees without links -/

namespace Folder

/-- Is no entry of the folder, or of a folder below it, a link? -/
def LinkFree : Folder → Prop
  | .empty => True
  | .file _ _ others | .special _ others => others.LinkFree
  | .link _ _ _ => False
  | .folder _ inside others => inside.LinkFree ∧ others.LinkFree

theorem LinkFree.of_mem {f : Folder} (hf : f.LinkFree) {name : String} {e : Entry}
    (h : (name, e) ∈ f.entries) :
    (∀ target, e ≠ .link target) ∧ ∀ inside, e = .folder inside → inside.LinkFree := by
  induction f with
  | empty => simp [entries] at h
  | link n target others ih => exact hf.elim
  | file n content others ih | special n others ih =>
    rcases List.mem_cons.mp h with heq | h
    · cases heq
      exact ⟨by simp, by simp⟩
    · exact ih hf h
  | folder n inside others _ ih =>
    rcases List.mem_cons.mp h with heq | h
    · cases heq
      refine ⟨by simp, ?_⟩
      rintro g ⟨⟩
      exact hf.1
    · exact ih hf.2 h

/-- Nothing in a tree without links is a link. -/
theorem LinkFree.of_at? {f : Folder} (hf : f.LinkFree) {names : List String} {e : Entry}
    (h : f.at? names = some e) :
    (∀ target, e ≠ .link target) ∧ ∀ inside, e = .folder inside → inside.LinkFree := by
  refine at?_keeps (P := fun _ e =>
    (∀ target, e ≠ .link target) ∧ ∀ inside, e = .folder inside → inside.LinkFree) ?_ ?_ h
  · refine ⟨by simp, ?_⟩
    rintro g ⟨⟩
    exact hf
  · rintro names inside name e ⟨-, hfree⟩ hget
    exact (hfree inside rfl).of_mem (mem_entries_of_get? hget)

end Folder

/-! ### Look-ups without links -/

namespace Disk

variable {d : Disk} {root : Folder} {at_ loc : Location} {n : Nat} {p : Path}

/-- Without links, segments lead where their components say. -/
theorem Way.eq_place (hroot : root.LinkFree) {todo : List String}
    (htodo : ∀ s ∈ todo, ¬ Holds '/' s) (h : Way root at_ todo n loc) :
    loc = (steps todo).foldl Component.place at_ := by
  induction h with
  | done at_ => rfl
  | @step at_ mid loc s todo n hstride _ ih =>
    rw [ih fun t ht => htodo t (by simp [ht]), steps, steps, List.filterMap_cons]
    rcases stride_to (htodo s (by simp)) hstride with ⟨hidle, rfl⟩ | ⟨rfl, rfl⟩ | hs
    · have hnone : ofSegment s = none := if_pos (by simpa [isIdle] using hidle)
      rw [hnone]
    · rfl
    · have hname : ofSegment s = some (.name s) := ofSegment_text (c := .name s) hs
      rw [hname, (stride_name hs hstride).1]
      rfl
  | @jump at_ start loc s target todo n hstride _ ih =>
    -- there are no links to jump to
    exact absurd rfl ((hroot.of_at? (stride_link hstride).1).1 target)

/-- Where there are no links, a path that leads somewhere leads to the place that it denotes. -/
theorem eq_place_of_follow (hroot : d.root.LinkFree) (h : d.follow .find p = .ok loc) :
    loc = p.place d.here := by
  obtain ⟨n, -, hway⟩ := resolve_eq_ok_iff.mp h
  rw [hway.eq_place hroot fun s => not_holds_of_mem_segments, place, foldl_components _ _ rfl]
  rfl

/-- The normal spelling leads where the path leads, if it denotes the same place. -/
theorem follow_normal (hroot : d.root.LinkFree) (hkeeps : p.KeepsPlace d.here)
    (h : d.follow .find p = .ok loc) : d.follow .find p.normal = .ok loc := by
  obtain ⟨f, hf⟩ := exists_start_of_follow h
  obtain ⟨n, hn, hway⟩ := resolve_eq_ok_iff.mp h
  have hdirect : Way.Direct d.root (if p.isAbsolute then [] else d.here) n (steps p.segments) := by
    intro _ _ _ _ _ _ _ _ _ _ target hat
    exact (hroot.of_at? hat).1 target rfl
  obtain ⟨m, hm, hreduced⟩ := hway.reduce_segments hdirect
  rw [← (base_normal_eq_iff p d.here).mpr hkeeps] at hreduced
  -- at most one way up is left in front of the names, and the start is a folder
  have hups : ∀ k ≤ 1, ∀ names, Way d.root (if p.isAbsolute then [] else d.here)
      (List.replicate k "..") 0 ((Reduced.mk k names).base (if p.isAbsolute then [] else d.here)) := by
    intro k hk names
    have hbase : ∀ start : Location, (Reduced.mk 0 names).base start = start :=
      fun _ => List.take_length
    rcases Nat.le_one_iff_eq_zero_or_eq_one.mp hk with rfl | rfl
    · rw [hbase]
      exact .done _
    · rw [Reduced.base_succ 0 names names, hbase]
      exact .singleton (stride_up hf)
  have hrise : p.rise % 2 ≤ 1 := by omega
  have hnormal := (hups _ hrise p.reduced.names).append (reduced_normal p ▸ hreduced)
  rw [Nat.zero_add] at hnormal
  refine resolve_eq_ok_iff.mpr ⟨m, hm.trans hn, ?_⟩
  rw [isAbsolute_normal, Way.normal_iff hf, normalSegments_eq, Reduced.kept, List.reverse_append,
    List.reverse_replicate]
  exact hnormal

/-- In a tree without links every path denotes one place, and leads there if it leads anywhere.  Its
    normal spelling denotes the same place, and leads there too, exactly if not two of the `..` that
    lead out of the current directory take each other back, or this does not show because the root
    is near.  And what is normal stays as it is. -/
theorem place_normal (hroot : d.root.LinkFree) (p : Path) :
    (∀ q loc, d.follow .find q = .ok loc → loc = q.place d.here) ∧
      (p.normal.place d.here = p.place d.here ↔ p.KeepsPlace d.here) ∧
      (∀ loc, d.follow .find p = .ok loc →
        (d.follow .find p.normal = .ok loc ↔ p.KeepsPlace d.here)) ∧
      p.normal.normal = p.normal := by
  refine ⟨fun q loc => eq_place_of_follow hroot, place_normal_eq_iff p d.here, ?_,
    normal_normal p⟩
  intro loc hloc
  constructor
  · intro hnormal
    rw [← place_normal_eq_iff, ← eq_place_of_follow hroot hnormal, ← eq_place_of_follow hroot hloc]
  · intro hkeeps
    exact follow_normal hroot hkeeps hloc

/-- Two levels up from a directory of the second level is the root, but the normal spelling stays in
    the directory. -/
theorem place_normal_up_up :
    let d : Disk := ⟨.folder "a" (.folder "b" .empty .empty) .empty, ["a", "b"], []⟩
    d.root.LinkFree ∧ d.follow .find ⟨"../.."⟩ = .ok [] ∧ normal ⟨"../.."⟩ = ⟨""⟩ ∧
      place ⟨"../.."⟩ d.here = [] ∧ (normal ⟨"../.."⟩).place d.here = d.here ∧
      (normal ⟨"../.."⟩).place d.here ≠ place ⟨"../.."⟩ d.here := by
  intro d
  have hroot : d.root.LinkFree := by simp [d, Folder.LinkFree]
  refine ⟨hroot, by decide +kernel, by decide +kernel, by decide +kernel, by decide +kernel, ?_⟩
  rw [Ne, (place_normal hroot ⟨"../.."⟩).2.1]
  decide +kernel

end Disk

end SourceWeb
