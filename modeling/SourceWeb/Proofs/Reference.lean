/-
  References without repetition.

  Dropping repetitions keeps each reference at its first place, so it may be done to the parts of a
  list before it is done to the whole, and to the texts that references are made from.
-/
import Mathlib.Data.List.Basic
import Mathlib.Data.List.Induction
import SourceWeb.Reference

namespace SourceWeb.Reference

theorem distinct_concat (rs : List Reference) (r : Reference) :
    distinct (rs ++ [r]) = if r ∈ distinct rs then distinct rs else distinct rs ++ [r] := by
  rw [distinct, List.foldl_append]
  exact if_congr List.contains_iff_mem rfl rfl

@[simp] theorem mem_distinct {rs : List Reference} {r : Reference} :
    r ∈ distinct rs ↔ r ∈ rs := by
  induction rs using List.reverseRecOn with
  | nil => simp [distinct]
  | append_singleton rs q ih =>
    rw [distinct_concat]
    split
    · rename_i hq
      have hmem : q ∈ distinct rs → (r = q → r ∈ rs) := by
        rintro hq rfl
        exact ih.mp hq
      simp only [ih, List.mem_append, List.mem_singleton]
      exact ⟨.inl, fun h => h.elim id (hmem hq)⟩
    · simp [ih]

theorem distinct_distinct (rs : List Reference) : distinct (distinct rs) = distinct rs := by
  induction rs using List.reverseRecOn with
  | nil => rfl
  | append_singleton rs r ih =>
    rw [distinct_concat]
    split
    · exact ih
    · rename_i hr
      rw [distinct_concat, ih, if_neg hr]

/-- It makes no difference whether repetitions are dropped from two parts before. -/
theorem distinct_append_distinct (rs qs : List Reference) :
    distinct (distinct rs ++ distinct qs) = distinct (rs ++ qs) := by
  induction qs using List.reverseRecOn with
  | nil => simpa [distinct] using distinct_distinct rs
  | append_singleton qs q ih =>
    rw [distinct_concat, ← List.append_assoc, distinct_concat, ← ih]
    by_cases hq : q ∈ distinct qs
    · have hmem : q ∈ distinct (distinct rs ++ distinct qs) := by simp_all
      rw [if_pos hq, if_pos hmem]
    · rw [if_neg hq, ← List.append_assoc, distinct_concat]

theorem filter_distinct (p : Reference → Bool) (rs : List Reference) :
    (distinct rs).filter p = distinct (rs.filter p) := by
  induction rs using List.reverseRecOn with
  | nil => rfl
  | append_singleton rs r ih =>
    rw [distinct_concat, List.filter_append]
    by_cases hr : r ∈ distinct rs
    · rw [if_pos hr, ih]
      cases hp : p r with
      | false => simp [hp]
      | true =>
        have hmem : r ∈ distinct (rs.filter p) := by simpa [hp] using hr
        simp only [List.filter_cons, hp, if_true, List.filter_nil, distinct_concat, if_pos hmem]
    · rw [if_neg hr, List.filter_append, ih]
      cases hp : p r with
      | false => simp [hp]
      | true =>
        have hmem : r ∉ distinct (rs.filter p) := by simpa [hp] using hr
        simp only [List.filter_cons, hp, if_true, List.filter_nil, distinct_concat, if_neg hmem]

theorem eraseDups_concat {α : Type} [BEq α] [LawfulBEq α] (l : List α) (a : α) :
    (l ++ [a]).eraseDups = if a ∈ l then l.eraseDups else l.eraseDups ++ [a] := by
  rw [List.eraseDups_append]
  split
  · simp [List.removeAll, *]
  · simp [List.removeAll, List.eraseDups_cons, *]

theorem distinct_map_eraseDups {α : Type} [BEq α] [LawfulBEq α] (f : α → Reference) (l : List α) :
    distinct (l.eraseDups.map f) = distinct (l.map f) := by
  induction l using List.reverseRecOn with
  | nil => rfl
  | append_singleton l a ih =>
    rw [eraseDups_concat, List.map_append, List.map_singleton, distinct_concat]
    by_cases ha : a ∈ l
    · have hmem : f a ∈ distinct (l.map f) := mem_distinct.mpr (List.mem_map_of_mem ha)
      rw [if_pos ha, if_pos hmem, ih]
    · rw [if_neg ha, List.map_append, List.map_singleton, distinct_concat, ih]

/-- Texts without repetition make references without repetition. -/
theorem distinct_map {α : Type} [BEq α] [LawfulBEq α] {f : α → Reference}
    (hf : Function.Injective f) (l : List α) : distinct (l.map f) = l.eraseDups.map f := by
  induction l using List.reverseRecOn with
  | nil => rfl
  | append_singleton l a ih =>
    have hmem : f a ∈ distinct (l.map f) ↔ a ∈ l := by
      rw [mem_distinct, List.mem_map_of_injective hf]
    rw [eraseDups_concat, List.map_append, List.map_singleton, distinct_concat]
    by_cases ha : a ∈ l
    · rw [if_pos ha, if_pos (hmem.mpr ha), ih]
    · rw [if_neg ha, if_neg (mt hmem.mp ha), List.map_append, List.map_singleton, ih]

end SourceWeb.Reference
