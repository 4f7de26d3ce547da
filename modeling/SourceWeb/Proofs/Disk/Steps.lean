/-
  Paths lead where their steps lead.

  Slashes at the end and `.` segments do not show in the steps of a path, and matter only where the
  path leads to something that is no folder.  So what stands above a path that leads somewhere leads
  to a folder.
-/
import SourceWeb.Proofs.Disk.Canonical

namespace SourceWeb

open SourceWeb.Path SourceWeb.Text

/-! ### Characters of paths -/

namespace Text

theorem holds_intercalate_slash {c : Char} (hc : c ≠ '/') {l : List String} :
    Holds c ("/".intercalate l) ↔ ∃ s ∈ l, Holds c s := by
  induction l with
  | nil => simp [Holds]
  | cons s l ih =>
    cases l with
    | nil => simp
    | cons t l =>
      rw [String.intercalate_cons_cons]
      simp only [Holds, String.toList_append, List.mem_append] at ih ⊢
      rw [ih]
      simp [hc]

end Text

namespace Path

/-- Slashes and dots aside, the characters of a path are those of its steps. -/
theorem holds_text_iff {c : Char} (hslash : c ≠ '/') (hdot : c ≠ '.') (p : Path) :
    Holds c p.text ↔ ∃ step ∈ steps p.segments, Holds c step.text := by
  rw [← intercalate_segments, holds_intercalate_slash hslash]
  constructor
  · rintro ⟨s, hs, hc⟩
    have hkept : s ∈ (steps p.segments).map Component.text := by
      rw [map_text_steps, List.mem_filter]
      refine ⟨hs, ?_⟩
      cases hidle : isIdle s with
      | false => rfl
      | true =>
        have hidle : s = "" ∨ s = "." := by simpa [isIdle] using hidle
        rcases hidle with rfl | rfl <;> simp [Holds, hdot] at hc
    obtain ⟨step, hstep, rfl⟩ := List.mem_map.mp hkept
    exact ⟨step, hstep, hc⟩
  · rintro ⟨step, hstep, hc⟩
    have hkept := List.mem_map_of_mem (f := Component.text) hstep
    rw [map_text_steps] at hkept
    exact ⟨_, (List.mem_filter.mp hkept).1, hc⟩

/-- A path that has one component more than another one starts where this does, and has one step
    more. -/
theorem steps_of_components {p q : Path} {c : Component} (hc : p.components = q.components ++ [c])
    (hq : q.text ≠ "") : p.isAbsolute = q.isAbsolute ∧
      steps p.segments = steps q.segments ++ [c] := by
  obtain ⟨first, rest, hfirst⟩ :=
    List.exists_cons_of_ne_nil fun h => hq (text_eq_empty_of_components h)
  constructor
  · rw [Bool.eq_iff_iff, isAbsolute_iff_components, isAbsolute_iff_components, hc, hfirst]
    rfl
  · have hspelled := spelled_components p
    rw [hc, hfirst] at hspelled
    have hstep : c.IsStep := hspelled.2 c (by simp)
    rw [steps_eq_filter, steps_eq_filter, hc, List.filter_append]
    cases c with
    | root | here => exact hstep.elim
    | up | name s => rfl

end Path

namespace Disk

/-! ### Ways of steps -/

namespace Way

variable {root : Folder} {at_ loc : Location} {n : Nat} {todo : List String}

/-- To a folder, segments lead where their steps do. -/
theorem steps_iff {f : Folder} (hloc : root.at? loc = some (.folder f)) :
    Way root at_ ((steps todo).map Component.text) n loc ↔ Way root at_ todo n loc := by
  rw [map_text_steps]
  exact ⟨of_filter hloc, filter⟩

end Way

variable {d : Disk} {p q : Path} {loc : Location}

/-- What leads to a folder leads there in any spelling with the same steps. -/
theorem follow_of_steps {n : Nat} {f : Folder} (hn : n ≤ linkLimit)
    (hat : d.root.at? loc = some (.folder f))
    (h : Way d.root (if q.isAbsolute then [] else d.here) ((steps q.segments).map Component.text)
      n loc) : d.follow .find q = .ok loc := by
  rw [follow, resolve_eq_ok_iff]
  exact ⟨n, hn, (Way.steps_iff hat).mp h⟩

/-- Does the path lead to a folder?  It may be too long to be looked up as a whole. -/
def LeadsToFolder (d : Disk) (p : Path) : Prop :=
  ∃ loc f, d.LeadsTo p loc ∧ d.root.at? loc = some (.folder f)

theorem LeadsToFolder.isFile_eq_false (h : d.LeadsToFolder p) : d.isFile p = false := by
  obtain ⟨loc, f, hleads, hat⟩ := h
  rw [← Bool.not_eq_true]
  intro hfile
  obtain ⟨content, hentry⟩ := isFile_iff.mp hfile
  obtain ⟨loc', hleads', hat'⟩ := leadsTo_of_entry? hentry
  obtain rfl : loc = loc' := Except.ok.inj (hleads.follow.symm.trans hleads'.follow)
  rw [hat] at hat'
  simp at hat'

/-- What a path is a step further than leads to a folder, if the path leads anywhere. -/
theorem LeadsTo.above {c : Component} (h : d.LeadsTo p loc)
    (hc : p.components = q.components ++ [c]) (hq : q.text ≠ "") : d.LeadsToFolder q := by
  obtain ⟨habs, hsteps⟩ := steps_of_components hc hq
  have hfollow := h.follow
  rw [Disk.follow, resolve_eq_ok_iff] at hfollow
  obtain ⟨n, hn, hway⟩ := hfollow
  have htexts := hway.filter
  rw [← map_text_steps, hsteps, List.map_append] at htexts
  obtain ⟨k, m, mid, hfirst, hlast, rfl⟩ := htexts.split
  obtain ⟨f, hf⟩ := hlast.exists_folder
  refine ⟨mid, f, ⟨?_, hq, ?_⟩, hf⟩
  · intro hnull
    obtain ⟨step, hstep, hheld⟩ := (holds_text_iff (by decide) (by decide) q).mp hnull
    refine h.null ((holds_text_iff (by decide) (by decide) p).mpr ⟨step, ?_, hheld⟩)
    rw [hsteps]
    exact List.mem_append_left _ hstep
  · rw [habs] at hfirst
    exact follow_of_steps (by omega) hf hfirst

end Disk

end SourceWeb
