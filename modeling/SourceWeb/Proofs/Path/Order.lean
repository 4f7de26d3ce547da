/-
  The order of paths is a linear one, so a sorted list does not tell in which order its paths came.
-/
import SourceWeb.Proofs.Path.Components
import SourceWeb.Proofs.Text.Order

namespace SourceWeb.Path

open SourceWeb.Text

/-! ### Components -/

namespace Component

theorem before_asymm {c d : Component} (h : c.before d = true) : d.before c = false := by
  cases c <;> cases d <;> simp_all [before, rank]
  exact precedes_asymm h

theorem before_trans {c d e : Component} (h : c.before d = true) (h' : d.before e = true) :
    c.before e = true := by
  cases c <;> cases d <;> cases e <;> simp_all [before, rank]
  exact precedes_trans h h'

theorem before_or {c d : Component} (h : c ≠ d) : c.before d = true ∨ d.before c = true := by
  cases c <;> cases d <;> simp_all [before, rank]
  exact precedes_or h

end Component

theorem componentsBefore_trans {cs ds es : List Component} (h : componentsBefore cs ds = true)
    (h' : componentsBefore ds es = true) : componentsBefore cs es = true :=
  listPrecedes_trans Component.before (fun _ _ => Component.before_asymm)
    (fun _ _ _ => Component.before_trans) h h'

theorem componentsBefore_or {cs ds : List Component} (h : cs ≠ ds) :
    componentsBefore cs ds = true ∨ componentsBefore ds cs = true :=
  listPrecedes_or Component.before (fun _ _ => Component.before_or) h

/-! ### Sorting -/

/-- Paths of which neither comes first are the same. -/
theorem same_of_not_before {p q : Path} (h : p.before q = false) (h' : q.before p = false) :
    p.same q = true := by
  rw [same_iff]
  by_contra hne
  rcases componentsBefore_or hne with hlt | hlt
  · rw [before, hlt] at h
    simp at h
  · rw [before, hlt] at h'
    simp at h'

theorem pairwise_sort (ps : List Path) :
    (sort ps).Pairwise fun p q => (!q.before p) = true := by
  refine List.pairwise_mergeSort ?_ ?_ ps
  · intro p q r hpq hqr
    rw [Bool.not_eq_true'] at hpq hqr ⊢
    rw [← Bool.not_eq_true]
    intro hrp
    by_cases hrq : r.components = q.components
    · rw [before, ← hrq] at hpq
      rw [before, hpq] at hrp
      simp at hrp
    · rcases componentsBefore_or hrq with hlt | hlt
      · rw [before, hlt] at hqr
        simp at hqr
      · rw [before, componentsBefore_trans hlt hrp] at hpq
        simp at hpq
  · intro p q
    rw [Bool.or_eq_true, Bool.not_eq_true', Bool.not_eq_true']
    cases hqp : q.before p with
    | false => exact .inl rfl
    | true =>
      exact .inr (listPrecedes_asymm Component.before (fun _ _ => Component.before_asymm) hqp)

/-- **Sorting forgets the order.**  Lists of the same paths, in which one path has one spelling, are
    sorted to one list. -/
theorem sort_eq_of_perm {ps qs : List Path} (h : ps.Perm qs)
    (hone : ∀ p ∈ ps, ∀ q ∈ ps, p.same q = true → p = q) : sort ps = sort qs := by
  have hperm : (sort ps).Perm (sort qs) :=
    (List.mergeSort_perm ps _).trans (h.trans (List.mergeSort_perm qs _).symm)
  refine List.Perm.eq_of_pairwise ?_ (pairwise_sort ps) (pairwise_sort qs) hperm
  intro p q hp hq hpq hqp
  rw [Bool.not_eq_true'] at hpq hqp
  have hq' : q ∈ ps := h.mem_iff.mpr (List.mem_mergeSort.mp hq)
  exact hone p (List.mem_mergeSort.mp hp) q hq' (same_of_not_before hqp hpq)

end SourceWeb.Path
