/-
  Lists of paths no two of which are the same, whatever their spelling.
-/
import Mathlib.Data.List.Induction
import SourceWeb.Proofs.Path.Components

namespace SourceWeb.Path

/-! ### Being in a list -/

theorem isIn_iff {p : Path} {ps : List Path} : p.isIn ps = true ↔ ∃ q ∈ ps, p.same q = true := by
  simp [isIn]

theorem isIn_eq_false {p : Path} {ps : List Path} :
    p.isIn ps = false ↔ ∀ q ∈ ps, p.same q = false := by
  simp [isIn]

@[simp] theorem isIn_append (p : Path) (ps qs : List Path) :
    p.isIn (ps ++ qs) = (p.isIn ps || p.isIn qs) := by
  simp [isIn]

theorem isIn_of_mem {p : Path} {ps : List Path} (h : p ∈ ps) : p.isIn ps = true :=
  isIn_iff.mpr ⟨p, h, same_refl p⟩

/-- Among tidy paths only a path itself is the same path. -/
theorem isIn_iff_mem {p : Path} {ps : List Path} (hp : p.Tidy) (hps : ∀ q ∈ ps, q.Tidy) :
    p.isIn ps = true ↔ p ∈ ps := by
  constructor
  · intro h
    obtain ⟨q, hq, hsame⟩ := isIn_iff.mp h
    rw [hp.eq_of_same (hps q hq) hsame]
    exact hq
  · exact isIn_of_mem

theorem isIn_eq_of_mem_iff {ps qs : List Path} (h : ∀ q, q ∈ ps ↔ q ∈ qs) (p : Path) :
    p.isIn ps = p.isIn qs := by
  rw [Bool.eq_iff_iff, isIn_iff, isIn_iff]
  simp only [h]

/-! ### Keeping paths apart -/

/-- No two of the paths are the same. -/
def Apart (ps : List Path) : Prop :=
  ps.Pairwise fun p q => p.same q = false

theorem Apart.nodup {ps : List Path} (h : Apart ps) : ps.Nodup := by
  refine h.imp ?_
  rintro p q hpq rfl
  simp at hpq

theorem Apart.filter {ps : List Path} (h : Apart ps) (keep : Path → Bool) :
    Apart (ps.filter keep) :=
  List.Pairwise.filter keep h

theorem apart_concat {ps : List Path} {p : Path} (h : Apart ps) (hp : p.isIn ps = false) :
    Apart (ps ++ [p]) := by
  refine List.pairwise_append.mpr ⟨h, List.pairwise_singleton _ _, ?_⟩
  intro q hq r hr
  rw [List.mem_singleton.mp hr, ← Bool.not_eq_true]
  intro hsame
  have := isIn_eq_false.mp hp q hq
  simp [same_symm hsame] at this

/-- Of paths that are apart none is among those in front of it. -/
theorem Apart.isIn_front {ps qs : List Path} {q : Path} (h : Apart (ps ++ qs)) (hq : q ∈ qs) :
    q.isIn ps = false := by
  rw [isIn_eq_false]
  intro p hp
  rw [← Bool.not_eq_true]
  intro hsame
  have := (List.pairwise_append.mp h).2.2 p hp q hq
  simp [same_symm hsame] at this

theorem isIn_of_apart_concat {ps : List Path} {p : Path} (h : Apart (ps ++ [p])) :
    p.isIn ps = false :=
  h.isIn_front (List.mem_singleton_self p)

/-! ### Without repetition -/

theorem distinct_concat (ps : List Path) (p : Path) :
    distinct (ps ++ [p]) = if p.isIn (distinct ps) then distinct ps else distinct ps ++ [p] := by
  rw [distinct, List.foldl_append]
  rfl

theorem apart_distinct (ps : List Path) : Apart (distinct ps) := by
  induction ps using List.reverseRecOn with
  | nil => exact List.Pairwise.nil
  | append_singleton ps p ih =>
    rw [distinct_concat]
    split
    · exact ih
    · rename_i hp
      exact apart_concat ih (by simpa using hp)

theorem mem_of_mem_distinct {ps : List Path} {p : Path} (h : p ∈ distinct ps) : p ∈ ps := by
  induction ps using List.reverseRecOn with
  | nil => simp [distinct] at h
  | append_singleton ps q ih =>
    rw [distinct_concat] at h
    split at h
    · simp [ih h]
    · rcases List.mem_append.mp h with h | h
      · simp [ih h]
      · simp [List.mem_singleton.mp h]

/-- Each of the paths is kept, perhaps in another spelling. -/
theorem isIn_distinct {ps : List Path} {p : Path} (h : p ∈ ps) : p.isIn (distinct ps) = true := by
  induction ps using List.reverseRecOn with
  | nil => simp at h
  | append_singleton ps q ih =>
    rw [distinct_concat]
    rcases List.mem_append.mp h with h | h
    · split
      · exact ih h
      · simp [ih h]
    · rw [List.mem_singleton.mp h]
      split
      · assumption
      · simp [isIn_of_mem]

theorem mem_distinct {ps : List Path} (hps : ∀ q ∈ ps, q.Tidy) {p : Path} :
    p ∈ distinct ps ↔ p ∈ ps := by
  refine ⟨mem_of_mem_distinct, fun h => ?_⟩
  exact (isIn_iff_mem (hps p h) fun q hq => hps q (mem_of_mem_distinct hq)).mp (isIn_distinct h)

/-- The same tidy paths are left of lists that hold the same. -/
theorem perm_distinct {ps qs : List Path} (hps : ∀ p ∈ ps, p.Tidy) (h : ∀ p, p ∈ ps ↔ p ∈ qs) :
    (distinct ps).Perm (distinct qs) := by
  have hqs : ∀ q ∈ qs, q.Tidy := fun q hq => hps q ((h q).mpr hq)
  refine (List.perm_ext_iff_of_nodup (apart_distinct ps).nodup (apart_distinct qs).nodup).mpr ?_
  intro p
  rw [mem_distinct hps, mem_distinct hqs, h]

end SourceWeb.Path
