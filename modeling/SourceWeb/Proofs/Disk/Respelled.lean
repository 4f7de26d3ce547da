/-
  One path in two spellings.

  A path that does not end in a slash or a dot leads where its steps lead.  So two such paths with
  the same components lead to the same, unless the file system refuses one of them for its length.
-/
import SourceWeb.Proofs.Disk.Spelling
import SourceWeb.Proofs.Disk.Steps
import SourceWeb.Proofs.Path.Absolute

namespace SourceWeb

open SourceWeb.Path SourceWeb.Text

namespace Path

/-! ### The end of a path -/

/-- Is the last segment of the path one of its steps? -/
def EndsInStep (p : Path) : Prop :=
  ∃ todo s, p.segments = todo ++ [s] ∧ isIdle s = false

/-- A path that does not end in a slash or a dot ends in a step. -/
theorem endsInStep_of_getLast? {p : Path} {c : Char} (hc : p.text.toList.getLast? = some c)
    (hslash : c ≠ '/') (hdot : c ≠ '.') : p.EndsInStep := by
  rcases List.eq_nil_or_concat p.segments with hnil | ⟨todo, s, hsegments⟩
  · exact absurd hnil p.segments_ne_nil
  rw [List.concat_eq_append] at hsegments
  refine ⟨todo, s, hsegments, ?_⟩
  have htext := intercalate_segments p
  rw [hsegments] at htext
  rw [← Bool.not_eq_true]
  intro hidle
  have hidle : s = "" ∨ s = "." := by simpa [isIdle] using hidle
  by_cases htodo : todo = []
  · subst htodo
    rw [← htext] at hc
    rcases hidle with rfl | rfl
    · simp at hc
    · exact hdot (by simpa using hc.symm)
  · rw [String.intercalate_append_of_ne_nil htodo (List.cons_ne_nil s []),
      String.intercalate_singleton] at htext
    rw [← htext] at hc
    rcases hidle with rfl | rfl
    · exact hslash (by simpa using hc.symm)
    · exact hdot (by simpa using hc.symm)

theorem getLast?_text_child (p : Path) {t : String} (ht : t ≠ "") :
    (p.child t).text.toList.getLast? = t.toList.getLast? := by
  have hne : t.toList ≠ [] := by simpa using ht
  rw [child, join]
  split
  · rfl
  · split
    · rw [String.toList_append, List.getLast?_append_of_ne_nil _ hne]
    · rw [String.toList_append, List.getLast?_append_of_ne_nil _ hne]

/-! ### Paths that are the same -/

theorem isAbsolute_of_same {p q : Path} (h : p.same q = true) : p.isAbsolute = q.isAbsolute := by
  rw [Bool.eq_iff_iff, isAbsolute_iff_components, isAbsolute_iff_components, same_iff.mp h]

theorem steps_of_same {p q : Path} (h : p.same q = true) : steps p.segments = steps q.segments := by
  rw [steps_eq_filter, steps_eq_filter, same_iff.mp h]

theorem normal_of_same {p q : Path} (h : p.same q = true) : p.normal = q.normal := by
  rw [normal, normal, normalSegments, normalSegments, isAbsolute_of_same h, same_iff.mp h]

/-- Is the path spelled with more bytes than the file system takes? -/
def Overlong (p : Path) : Prop :=
  Disk.pathLimit < p.text.utf8ByteSize

instance (p : Path) : Decidable p.Overlong :=
  inferInstanceAs (Decidable (_ < _))

end Path

namespace Disk

variable {d : Disk} {p q : Path}

/-- In front of a step it makes no difference whether idle segments are left out. -/
theorem Way.filter_concat_iff {root : Folder} {at_ loc : Location} {n : Nat} {todo : List String}
    {s : String} (hs : isIdle s = false) :
    Way root at_ ((todo ++ [s]).filter fun s => !isIdle s) n loc ↔
      Way root at_ (todo ++ [s]) n loc := by
  constructor
  · intro h
    have hstep : [s].filter (fun s => !isIdle s) = [s] := by simp [hs]
    rw [List.filter_append, hstep] at h
    obtain ⟨k, m, mid, hfirst, hlast, rfl⟩ := h.split
    obtain ⟨f, hf⟩ := hlast.exists_folder
    exact (hfirst.of_filter hf).append hlast
  · exact Way.filter

theorem follow_eq_ok_iff_of_endsInStep {loc : Location} (hp : p.EndsInStep) :
    d.follow .find p = .ok loc ↔ ∃ n ≤ linkLimit, Way d.root (if p.isAbsolute then [] else d.here)
      ((steps p.segments).map Component.text) n loc := by
  obtain ⟨todo, s, hsegments, hs⟩ := hp
  rw [follow, resolve_eq_ok_iff, map_text_steps, hsegments]
  exact exists_congr fun n => and_congr_right fun _ => (Way.filter_concat_iff hs).symm

theorem checkPath_eq_ok_iff : checkPath p = .ok () ↔
    ¬ Holds '\x00' p.text ∧ p.text ≠ "" ∧ ¬ p.Overlong := by
  unfold checkPath Overlong Holds
  split
  · rename_i hnull
    have hnull : '\x00' ∈ p.text.toList := by simpa using hnull
    simp [hnull]
  · rename_i hnull
    have hnull : '\x00' ∉ p.text.toList := by simpa using hnull
    split
    · simp [*]
    · split <;> simp [*]

theorem checkPath_of_same (h : p.same q = true) (hlength : p.Overlong ↔ q.Overlong) :
    checkPath p = .ok () ↔ checkPath q = .ok () := by
  have hnull : Holds '\x00' p.text ↔ Holds '\x00' q.text := by
    rw [holds_text_iff (by decide) (by decide), holds_text_iff (by decide) (by decide),
      steps_of_same h]
  have hempty : p.text = "" ↔ q.text = "" := by
    constructor
    · intro hp
      exact text_eq_empty_of_components (same_iff.mp h ▸ components_of_text_eq_empty hp)
    · intro hq
      exact text_eq_empty_of_components ((same_iff.mp h).symm ▸ components_of_text_eq_empty hq)
  rw [checkPath_eq_ok_iff, checkPath_eq_ok_iff, hnull, hlength, Ne, Ne, hempty]

/-- Two spellings of a path lead to the same, if both or neither are too long. -/
theorem alike_of_same (h : p.same q = true) (hp : p.EndsInStep) (hq : q.EndsInStep)
    (hlength : p.Overlong ↔ q.Overlong) : d.Alike p q := by
  intro loc
  rw [locate_eq_ok, locate_eq_ok, checkPath_of_same h hlength]
  refine and_congr_right fun _ => ?_
  rw [follow_eq_ok_iff_of_endsInStep hp, follow_eq_ok_iff_of_endsInStep hq, isAbsolute_of_same h,
    steps_of_same h]

theorem existingFile_of_same (h : p.same q = true) (hp : p.EndsInStep) (hq : q.EndsInStep)
    (hlength : p.Overlong ↔ q.Overlong) : d.existingFile p = d.existingFile q := by
  rw [existingFile, existingFile, (alike_of_same h hp hq hlength).isFile, normal_of_same h]

/-- Two spellings of a path lead to the same folder, also if they end in slashes or dots. -/
theorem isDir_of_same (h : p.same q = true) (hp : ¬ p.Overlong) (hq : ¬ q.Overlong) :
    d.isDir p = d.isDir q := by
  have hone : ∀ {p q : Path}, p.same q = true → ¬ p.Overlong → ¬ q.Overlong →
      d.isDir p = true → d.isDir q = true := by
    intro p q h hp hq hdir
    obtain ⟨f, hf⟩ := isDir_iff.mp hdir
    obtain ⟨hcheck, loc, hfollow, hat⟩ := entry?_eq_ok.mp hf
    obtain ⟨n, hn, hway⟩ := resolve_eq_ok_iff.mp hfollow
    have hsteps := hway.filter
    rw [← map_text_steps, steps_of_same h, isAbsolute_of_same h] at hsteps
    refine isDir_iff.mpr ⟨f, entry?_eq_ok.mpr ⟨?_, loc, follow_of_steps hn hat hsteps, hat⟩⟩
    exact (checkPath_of_same h (iff_of_false hp hq)).mp hcheck
  rw [Bool.eq_iff_iff]
  exact ⟨hone h hp hq, hone (same_symm h) hq hp⟩

end Disk

end SourceWeb
