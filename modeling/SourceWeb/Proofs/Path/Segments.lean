/-
  Paths as lists of segments.

  A path is determined by the segments between its slashes, and what it does to its neighbours can
  be said of them: whether it starts at the root, what is read from it, and what components it has.
-/
import SourceWeb.Path.Normal
import SourceWeb.Proofs.Text.Split

namespace SourceWeb.Path

open SourceWeb.Text

/-! ### Segments -/

theorem ext_text {p q : Path} (h : p.text = q.text) : p = q := by
  cases p; cases q; exact congrArg Path.mk h

theorem segments_ne_nil (p : Path) : p.segments ≠ [] :=
  splitChar_ne_nil '/' p.text

theorem not_holds_of_mem_segments {p : Path} {s : String} (h : s ∈ p.segments) :
    ¬ Holds '/' s :=
  not_holds_of_mem_splitChar h

theorem intercalate_segments (p : Path) : "/".intercalate p.segments = p.text :=
  intercalate_splitChar '/' p.text

theorem segments_mk_intercalate {l : List String} (hne : l ≠ []) (h : ∀ s ∈ l, ¬ Holds '/' s) :
    segments ⟨"/".intercalate l⟩ = l :=
  splitChar_intercalate hne h

theorem segments_append (s t : String) :
    segments ⟨s ++ "/" ++ t⟩ = segments ⟨s⟩ ++ segments ⟨t⟩ :=
  splitChar_append '/' s t

theorem segments_of_not_holds {s : String} (h : ¬ Holds '/' s) : segments ⟨s⟩ = [s] :=
  splitChar_of_not_holds h

theorem eq_of_segments_eq {p q : Path} (h : p.segments = q.segments) : p = q :=
  ext_text (by rw [← intercalate_segments p, ← intercalate_segments q, h])

theorem segments_eq_singleton_empty {p : Path} : p.segments = [""] ↔ p.text = "" := by
  constructor
  · intro h
    rw [← intercalate_segments p, h]
    rfl
  · intro h
    have : p.segments = segments ⟨""⟩ := by rw [segments, segments, h]
    rw [this, segments_of_not_holds not_holds_empty]

/-! ### The start of a path -/

theorem holds_of_head {s : String} {c : Char} (h : s.toList.head? = some c) : Holds c s := by
  cases hs : s.toList with
  | nil => simp [hs] at h
  | cons d ds =>
    simp only [hs, List.head?_cons, Option.some.injEq] at h
    simp [Holds, hs, h]

/-- A path that starts at the root has an empty first segment and a second one. -/
theorem isAbsolute_iff {p : Path} :
    p.isAbsolute = true ↔ ∃ s rest, p.segments = "" :: s :: rest := by
  obtain ⟨first, rest, hp⟩ := List.exists_cons_of_ne_nil p.segments_ne_nil
  have hmem : first ∈ p.segments := by simp [hp]
  have hfirst : ¬ Holds '/' first := not_holds_of_mem_segments hmem
  have htext := intercalate_segments p
  rw [hp] at htext ⊢
  cases rest with
  | nil =>
    have : p.isAbsolute = false := by
      simp only [isAbsolute, ← htext, String.intercalate_singleton, decide_eq_false_iff_not]
      exact fun h => hfirst (holds_of_head h)
    simp [this]
  | cons second rest =>
    rw [String.intercalate_cons_cons] at htext
    have hlist : p.text.toList =
        first.toList ++ '/' :: ("/".intercalate (second :: rest)).toList := by
      rw [← htext]
      simp
    simp only [isAbsolute, hlist, decide_eq_true_eq, List.cons.injEq]
    cases hf : first.toList with
    | nil =>
      have : first = "" := by simpa using hf
      simp [this]
    | cons c cs =>
      have hne : first ≠ "" := by
        rintro rfl
        simp at hf
      have hc : c ≠ '/' := by
        rintro rfl
        exact hfirst (by simp [Holds, hf])
      simp [hne, hc]

theorem isAbsolute_eq_false_of_segment {s : String} (h : ¬ Holds '/' s) :
    isAbsolute ⟨s⟩ = false := by
  rw [← Bool.not_eq_true, isAbsolute_iff, segments_of_not_holds h]
  simp

/-! ### Joining -/

/-- The segments that stay in front of what is read from a path: all of them, but for the empty one
    behind a slash at the end. -/
def base (p : Path) : List String :=
  if p.text = "" ∨ endsWith "/" p.text then p.segments.dropLast else p.segments

theorem segments_of_slash_end {p : Path} {t : String} (h : p.text = t ++ "/") :
    p.segments = segments ⟨t⟩ ++ [""] := by
  have happ := segments_append t ""
  rw [String.append_empty, segments_of_not_holds not_holds_empty] at happ
  rw [← happ, segments, segments, h]

theorem segments_eq_base_or (p : Path) :
    p.segments = p.base ∨ p.segments = p.base ++ [""] := by
  unfold base
  split
  · rename_i h
    rcases h with h | h
    · rw [segments_eq_singleton_empty.mpr h]
      exact .inr rfl
    · obtain ⟨t, ht⟩ := endsWith_iff.mp h
      rw [segments_of_slash_end ht, List.dropLast_concat]
      exact .inr rfl
  · exact .inl rfl

theorem base_ne_nil {p : Path} (hp : p.text ≠ "") : p.base ≠ [] := by
  unfold base
  split
  · rename_i h
    obtain ⟨t, ht⟩ := endsWith_iff.mp (h.resolve_left hp)
    rw [segments_of_slash_end ht, List.dropLast_concat]
    exact segments_ne_nil _
  · exact segments_ne_nil p

theorem segments_join {p q : Path} (hq : q.isAbsolute = false) :
    (p.join q).segments = p.base ++ q.segments := by
  simp only [join, hq, base, Bool.false_eq_true, if_false]
  by_cases h : p.text = "" ∨ endsWith "/" p.text = true
  · rw [if_pos h, if_pos h]
    by_cases hp : p.text = ""
    · rw [segments_eq_singleton_empty.mpr hp, hp]
      simp
    · obtain ⟨t, ht⟩ := endsWith_iff.mp (h.resolve_left hp)
      rw [segments_of_slash_end ht, List.dropLast_concat, ht, segments_append]
  · rw [if_neg h, if_neg h, segments_append]

end SourceWeb.Path
