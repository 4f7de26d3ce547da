/-
  Parents, ancestors, and which path lies below which.

  The parent has one component less, and a step down from a tidy path has that path as its parent.
  So the ancestors of a path are the path and the ancestors of its parent, however many there are.
-/
import Mathlib.Data.List.TakeWhile
import SourceWeb.Proofs.Path.Components

namespace SourceWeb.Path

open SourceWeb.Text

/-! ### Segments that make no component -/

/-- Does a segment make no component? -/
def isIdle (s : String) : Bool :=
  s = "" || s = "."

theorem steps_of_all_idle {l : List String} (h : ∀ s ∈ l, isIdle s = true) : steps l = [] := by
  rw [steps, List.filterMap_eq_nil_iff]
  intro s hs
  have : s = "" ∨ s = "." := by simpa [isIdle] using h s hs
  simp [ofSegment, this]

/-- The segments that make a component, and no others, are the texts of the steps. -/
theorem map_text_steps (segments : List String) :
    (steps segments).map Component.text = segments.filter fun s => !isIdle s := by
  induction segments with
  | nil => rfl
  | cons s segments ih =>
    by_cases hidle : s = "" ∨ s = "."
    · have hs : isIdle s = true := by simpa [isIdle] using hidle
      rw [List.filter_cons_of_neg (by simp [hs]), ← ih]
      simp [steps, ofSegment, hidle]
    · have hs : isIdle s = false := by simpa [isIdle] using hidle
      rw [List.filter_cons_of_pos (by simp [hs]), ← ih]
      by_cases hup : s = ".." <;> simp [steps, ofSegment, hidle, hup, Component.text]

/-- The segments in front of the idle ones at the end, and these. -/
theorem exists_dropIdle (first : String) (rest : List String) :
    ∃ kept idle, rest = kept ++ idle ∧ dropIdle (first :: rest) = first :: kept ∧
      (∀ s ∈ idle, isIdle s = true) ∧ ∀ s, kept.getLast? = some s → isIdle s = false := by
  refine ⟨(rest.reverse.dropWhile isIdle).reverse, (rest.reverse.takeWhile isIdle).reverse, ?_,
    rfl, ?_, ?_⟩
  · rw [← List.reverse_append, List.takeWhile_append_dropWhile, List.reverse_reverse]
  · intro s hs
    exact List.mem_takeWhile_imp (List.mem_reverse.mp hs)
  · intro s hs
    rw [List.getLast?_reverse] at hs
    have := List.head?_dropWhile_not isIdle rest.reverse
    rw [hs] at this
    simpa using this

theorem isIdle_text {c : Component} (h : c.IsStep) : isIdle c.text = false := by
  obtain ⟨hne, hdot, -⟩ := h.text
  simp [isIdle, hne, hdot]

theorem dropIdle_append_step (first : String) (rest : List String) {c : Component}
    (h : c.IsStep) : dropIdle (first :: (rest ++ [c.text])) = first :: (rest ++ [c.text]) := by
  have : (decide (c.text = "") || decide (c.text = ".")) = false := isIdle_text h
  simp [dropIdle, this]

/-! ### The parent of a step down -/

/-- The path without the segments at its end that make no component. -/
def trimmed (p : Path) : Path :=
  if p.text = "" then p else ofSegments p.isAbsolute (dropIdle p.segments)

theorem ofSegments_eq_mk {absolute : Bool} {l : List String}
    (h : ¬ (absolute && l.length ≤ 1) = true) :
    ofSegments absolute l = ⟨"/".intercalate l⟩ := by
  rw [ofSegments, if_neg h]

/-- The first segments of a path spell its lead and their own steps. -/
theorem components_ofSegments {p : Path} {l : List String} (hne : l ≠ [])
    (hpre : l <+: p.segments) : (ofSegments p.isAbsolute l).components = p.lead ++ steps l := by
  obtain ⟨first, rest, rfl⟩ := List.exists_cons_of_ne_nil hne
  obtain ⟨more, hmore⟩ := hpre
  have hslash : ∀ s ∈ first :: rest, ¬ Holds '/' s := fun s hs =>
    not_holds_of_mem_segments (p := p) (hmore ▸ List.mem_append_left more hs)
  have hseg := segments_mk_intercalate hne hslash
  by_cases habs : p.isAbsolute = true
  · have hfirst : first = "" := by
      obtain ⟨s, others, hp⟩ := isAbsolute_iff.mp habs
      rw [hp] at hmore
      exact (List.cons.inj hmore).1
    subst hfirst
    rw [lead, if_pos habs]
    cases rest with
    | nil =>
      rw [ofSegments, if_pos (by simp [habs]), components_root]
      rfl
    | cons second rest =>
      rw [ofSegments_eq_mk (by simp), components_eq, lead, hseg,
        if_pos (isAbsolute_iff.mpr ⟨second, rest, hseg⟩)]
  · have hrel : isAbsolute ⟨"/".intercalate (first :: rest)⟩ = false := by
      rw [← Bool.not_eq_true, isAbsolute_iff, hseg]
      rintro ⟨second, others, hcons⟩
      rw [hcons] at hmore
      exact habs (isAbsolute_iff.mpr ⟨second, others ++ more, hmore.symm⟩)
    have hhead : p.segments.head? = some first := by simp [← hmore]
    rw [ofSegments_eq_mk (by simp [habs]), components_eq, lead, lead, hseg, hrel, hhead]
    simp [habs]

theorem dropIdle_isPrefix {l : List String} (h : l ≠ []) : dropIdle l <+: l := by
  obtain ⟨first, rest, rfl⟩ := List.exists_cons_of_ne_nil h
  obtain ⟨kept, idle, hrest, hdrop, -⟩ := exists_dropIdle first rest
  exact ⟨idle, by rw [hdrop, hrest, List.cons_append]⟩

theorem steps_dropIdle {l : List String} (h : l ≠ []) : steps (dropIdle l) = steps l := by
  obtain ⟨first, rest, rfl⟩ := List.exists_cons_of_ne_nil h
  obtain ⟨kept, idle, hrest, hdrop, hidle, -⟩ := exists_dropIdle first rest
  rw [hdrop, hrest, ← List.cons_append, steps_append, steps_of_all_idle hidle, List.append_nil]

theorem dropIdle_ne_nil {l : List String} (h : l ≠ []) : dropIdle l ≠ [] := by
  obtain ⟨first, rest, rfl⟩ := List.exists_cons_of_ne_nil h
  simp [dropIdle]

/-- Idle segments behind the first ones of a path may be dropped. -/
theorem components_ofSegments_dropIdle {p : Path} {l : List String} (hne : l ≠ [])
    (hpre : l <+: p.segments) :
    (ofSegments p.isAbsolute (dropIdle l)).components = p.lead ++ steps l := by
  rw [components_ofSegments (dropIdle_ne_nil hne) ((dropIdle_isPrefix hne).trans hpre),
    steps_dropIdle hne]

@[simp] theorem components_trimmed (p : Path) : p.trimmed.components = p.components := by
  unfold trimmed
  split
  · rfl
  · rw [components_ofSegments_dropIdle p.segments_ne_nil (List.prefix_refl _), ← components_eq]

theorem dropIdle_concat_empty {l : List String} (h : l ≠ []) :
    dropIdle (l ++ [""]) = dropIdle l := by
  obtain ⟨first, rest, rfl⟩ := List.exists_cons_of_ne_nil h
  simp [dropIdle]

theorem dropIdle_base {p : Path} (hp : p.text ≠ "") : dropIdle p.base = dropIdle p.segments := by
  rcases segments_eq_base_or p with h | h
  · rw [← h]
  · rw [h, dropIdle_concat_empty (base_ne_nil hp)]

/-- The parent of a step down is the path it was taken from, but for idle segments at its end. -/
theorem parent?_child (p : Path) {c : Component} (h : c.IsStep) :
    (p.child c.text).parent? = some p.trimmed := by
  have hrel : isAbsolute ⟨c.text⟩ = false := isAbsolute_eq_false_of_segment h.text.2.2
  by_cases hp : p.text = ""
  · rw [child, join_of_text_eq_empty hp hrel, parent?, segments_of_not_holds h.text.2.2]
    have hdrop : dropIdle [c.text] = [c.text] := rfl
    have hp' : p = ⟨""⟩ := ext_text hp
    simp [hdrop, hrel, h.text.1, trimmed, hp']
  · obtain ⟨first, rest, hbase⟩ := List.exists_cons_of_ne_nil (base_ne_nil hp)
    have hseg : (p.child c.text).segments = first :: (rest ++ [c.text]) := by
      rw [child, segments_join hrel, hbase, segments_of_not_holds h.text.2.2, List.cons_append]
    have habs : (p.child c.text).isAbsolute = p.isAbsolute := by
      simp only [isAbsolute, child, text_join_head hp hrel]
    have hdrop : dropIdle (first :: rest) = dropIdle p.segments := by
      rw [← hbase, dropIdle_base hp]
    rw [parent?, hseg, dropIdle_append_step first rest h, trimmed, if_neg hp]
    obtain ⟨second, others, hcons⟩ := List.exists_cons_of_ne_nil
      (show rest ++ [c.text] ≠ [] by simp)
    rw [hcons]
    simp only [← hcons, List.dropLast_concat, habs, hdrop]

theorem trimmed_child (p : Path) {c : Component} (h : c.IsStep) :
    (p.child c.text).trimmed = p.child c.text := by
  have hrel : isAbsolute ⟨c.text⟩ = false := isAbsolute_eq_false_of_segment h.text.2.2
  by_cases hp : p.text = ""
  · rw [child, join_of_text_eq_empty hp hrel, trimmed, if_neg h.text.1,
      segments_of_not_holds h.text.2.2, hrel]
    rfl
  · obtain ⟨first, rest, hbase⟩ := List.exists_cons_of_ne_nil (base_ne_nil hp)
    have hseg : (p.child c.text).segments = first :: (rest ++ [c.text]) := by
      rw [child, segments_join hrel, hbase, segments_of_not_holds h.text.2.2, List.cons_append]
    have htext : (p.child c.text).text ≠ "" := by
      rw [Ne, ← segments_eq_singleton_empty, hseg]
      simp
    rw [trimmed, if_neg htext, hseg, dropIdle_append_step first rest h, ← hseg,
      ofSegments_eq_mk (by simp [hseg]), intercalate_segments]

/-- A slash at the end makes no other parent. -/
theorem parent?_child_empty {p : Path} (hp : p.text ≠ "") : (p.child "").parent? = p.parent? := by
  have hrel : isAbsolute ⟨""⟩ = false := by decide
  have hseg : (p.child "").segments = p.base ++ [""] := by
    rw [child, segments_join hrel, segments_of_not_holds (by simp [Holds])]
  have hdrop : dropIdle (p.child "").segments = dropIdle p.segments := by
    rw [hseg, dropIdle_concat_empty (base_ne_nil hp), dropIdle_base hp]
  have habs : (p.child "").isAbsolute = p.isAbsolute := by
    rw [isAbsolute, isAbsolute, child, text_join_head hp hrel]
  rw [parent?, parent?, hdrop, habs]

/-! ### Parents in general -/

theorem components_of_parent? {p q : Path} (h : p.parent? = some q) :
    ∃ c, p.components = q.components ++ [c] := by
  obtain ⟨first, rest, hp⟩ := List.exists_cons_of_ne_nil p.segments_ne_nil
  obtain ⟨kept, idle, hrest, hdrop, hidle, hlast⟩ := exists_dropIdle first rest
  have hcomp : p.components = p.lead ++ steps (first :: kept) := by
    rw [components_eq, ← steps_dropIdle p.segments_ne_nil, hp, hdrop]
  have hpre : first :: kept <+: p.segments := ⟨idle, by rw [hp, hrest, List.cons_append]⟩
  rw [parent?, hp, hdrop] at h
  rcases List.eq_nil_or_concat kept with rfl | ⟨init, last, rfl⟩
  · -- a single segment: above it is the empty path
    simp only at h
    split at h
    · simp at h
    · rename_i hfirst
      push Not at hfirst
      cases h
      rw [hcomp, lead, if_neg hfirst.1, hp, components_of_text_eq_empty rfl]
      by_cases hdot : first = "."
      · exact ⟨.here, by simp [hdot, steps, ofSegment]⟩
      · by_cases hup : first = ".." <;> simp [hdot, hup, hfirst.2, steps, ofSegment]
  · obtain ⟨second, others, hcons⟩ := List.exists_cons_of_ne_nil
      (show init ++ [last] ≠ [] by simp)
    rw [List.concat_eq_append, hcons] at h
    simp only [← hcons, List.dropLast_concat, Option.some.injEq] at h
    have hinit : first :: init <+: p.segments := by
      refine List.IsPrefix.trans ?_ hpre
      exact ⟨[last], by simp⟩
    obtain ⟨c, hc⟩ : ∃ c, ofSegment last = some c := by
      have : isIdle last = false := hlast last (by simp)
      simp only [isIdle, Bool.or_eq_false_iff, decide_eq_false_iff_not] at this
      by_cases hup : last = ".." <;> simp [ofSegment, this.1, this.2, hup]
    have hsteps : steps (first :: init.concat last) = steps (first :: init) ++ [c] := by
      rw [List.concat_eq_append, ← List.cons_append, steps_append]
      simp [steps, hc]
    rw [← h, components_ofSegments_dropIdle (by simp) hinit, hcomp, hsteps]
    exact ⟨c, by simp⟩

/-- A path has a parent, but for the empty one and the root. -/
theorem exists_parent? {p : Path} {cs : List Component} {c : Component}
    (h : p.components = cs ++ [c]) (hc : c ≠ .root) :
    ∃ q, p.parent? = some q ∧ q.components = cs := by
  cases hparent : p.parent? with
  | some q =>
    obtain ⟨d, hd⟩ := components_of_parent? hparent
    rw [h] at hd
    exact ⟨q, rfl, (List.append_inj' hd rfl).1.symm⟩
  | none =>
    -- without a parent the path has no steps
    exfalso
    obtain ⟨first, rest, hp⟩ := List.exists_cons_of_ne_nil p.segments_ne_nil
    obtain ⟨kept, idle, -, hdrop, -⟩ := exists_dropIdle first rest
    have hsteps : steps p.segments = steps (first :: kept) := by
      rw [← steps_dropIdle p.segments_ne_nil, hp, hdrop]
    rw [parent?, hp, hdrop] at hparent
    cases kept with
    | cons second kept => simp at hparent
    | nil =>
      rw [components_eq, hsteps, lead, hp] at h
      by_cases habs : p.isAbsolute = true
      · obtain ⟨s, others, hseg⟩ := isAbsolute_iff.mp habs
        have hfirst : first = "" := (List.cons.inj (hp.symm.trans hseg)).1
        rw [if_pos habs, hfirst] at h
        have hroot : [] ++ [Component.root] = cs ++ [c] := h
        exact hc (List.cons.inj (List.append_inj' hroot rfl).2).1.symm
      · have hfirst : first = "" := by
          by_contra hne
          simp [habs, hne] at hparent
        subst hfirst
        have hempty : cs ++ [c] = [] := by simpa [habs, steps, ofSegment] using h.symm
        simp at hempty

theorem isAbsolute_iff_components {p : Path} :
    p.isAbsolute = true ↔ p.components.head? = some .root := by
  rw [components_eq, lead]
  by_cases habs : p.isAbsolute = true
  · simp [habs]
  · have hstep : ∀ c ∈ steps p.segments, c.IsStep := fun c => isStep_of_mem_steps
    have : (steps p.segments).head? ≠ some .root := by
      intro h
      exact hstep .root (List.mem_of_head? h)
    simp only [habs, Bool.false_eq_true, if_false, false_iff]
    split
    · simp
    · simpa using this

theorem isAbsolute_of_parent? {p q : Path} (h : p.parent? = some q) (habs : p.isAbsolute = true) :
    q.isAbsolute = true := by
  obtain ⟨first, rest, hp⟩ := List.exists_cons_of_ne_nil p.segments_ne_nil
  obtain ⟨kept, idle, hrest, hdrop, -⟩ := exists_dropIdle first rest
  rw [parent?, hp, hdrop] at h
  cases kept with
  | nil => simp [habs] at h
  | cons second kept =>
    simp only [Option.some.injEq] at h
    have hpre : first :: (second :: kept).dropLast <+: p.segments := by
      rw [hp, hrest]
      exact List.prefix_cons_inj first |>.mpr
        ((List.dropLast_prefix _).trans (List.prefix_append _ _))
    rw [← h, isAbsolute_iff_components, components_ofSegments_dropIdle (by simp) hpre, lead,
      if_pos habs]
    rfl

theorem parent?_of_components_root {p : Path} {cs : List Component}
    (h : p.components = cs ++ [.root]) : p.parent? = none := by
  have hspelled := spelled_components p
  rw [h] at hspelled
  cases cs with
  | cons c cs => exact (hspelled.2 .root (by simp)).elim
  | nil =>
    cases hparent : p.parent? with
    | none => rfl
    | some q =>
      obtain ⟨c, hc⟩ := components_of_parent? hparent
      have habs := isAbsolute_of_parent? hparent (isAbsolute_iff_components.mpr (by rw [h]; rfl))
      rw [h] at hc
      rw [isAbsolute_iff_components, ← (List.append_inj' hc rfl).1] at habs
      simp at habs

/-! ### Ancestors -/

theorem length_components_le (p : Path) : p.components.length ≤ p.segments.length := by
  have hle : ∀ l, (steps l).length ≤ l.length := fun l => List.length_filterMap_le ..
  obtain ⟨first, rest, hp⟩ := List.exists_cons_of_ne_nil p.segments_ne_nil
  rw [components_eq, lead, List.length_append, hp]
  split
  · rename_i habs
    obtain ⟨s, more, hseg⟩ := isAbsolute_iff.mp habs
    have hfirst : first = "" := (List.cons.inj (hp.symm.trans hseg)).1
    have := hle rest
    simp [hfirst, steps, ofSegment] at this ⊢
    omega
  · split
    · rename_i hdot
      have hfirst : first = "." := by simpa using hdot
      have := hle rest
      simp [hfirst, steps, ofSegment] at this ⊢
      omega
    · simpa using hle (first :: rest)

theorem ancestorsFrom_eq_of_lt {m n : Nat} {p : Path} (hm : p.components.length < m)
    (hn : p.components.length < n) : ancestorsFrom m p = ancestorsFrom n p := by
  induction m generalizing n p with
  | zero => omega
  | succ m ih =>
    cases n with
    | zero => omega
    | succ n =>
      unfold ancestorsFrom
      cases h : p.parent? with
      | none => rfl
      | some q =>
        obtain ⟨c, hc⟩ := components_of_parent? h
        rw [hc, List.length_append, List.length_singleton] at hm hn
        simp only [ih (n := n) (p := q) (by omega) (by omega)]

/-- The ancestors are the path itself and the ancestors of its parent. -/
theorem ancestors_eq (p : Path) :
    p.ancestors = p :: (match p.parent? with
      | some q => q.ancestors
      | none => []) := by
  have hlen := length_components_le p
  rw [ancestors, ancestorsFrom]
  cases h : p.parent? with
  | none => rfl
  | some q =>
    obtain ⟨c, hc⟩ := components_of_parent? h
    have hq := length_components_le q
    rw [hc, List.length_append, List.length_singleton] at hlen
    simp only [ancestors]
    rw [ancestorsFrom_eq_of_lt (p := q) (m := p.segments.length) (n := q.segments.length + 1)
      (by omega) (by omega)]

/-- What passes from parents to their children holds of all paths. -/
@[elab_as_elim]
theorem parentInduction {motive : Path → Prop}
    (child : ∀ p, (∀ up, p.parent? = some up → motive up) → motive p) (p : Path) : motive p := by
  induction hn : p.components.length using Nat.strongRecOn generalizing p with
  | ind n ih =>
    apply child
    intro up hparent
    obtain ⟨c, hc⟩ := components_of_parent? hparent
    rw [hc, List.length_append, List.length_singleton] at hn
    exact ih _ (by omega) up rfl

/-- What holds of a path, and passes from children to their parents, holds of its ancestors. -/
theorem of_mem_ancestors {P : Path → Prop} (up : ∀ p q, p.parent? = some q → P p → P q)
    {p q : Path} (hp : P p) (h : q ∈ p.ancestors) : P q := by
  induction p using parentInduction with
  | child p ih =>
    rw [ancestors_eq] at h
    rcases List.mem_cons.mp h with rfl | h
    · exact hp
    · cases hparent : p.parent? with
      | none => simp [hparent] at h
      | some above =>
        rw [hparent] at h
        exact ih above hparent (up p above hparent hp) h

theorem components_prefix_of_mem_ancestors {p q : Path} (h : q ∈ p.ancestors) :
    q.components <+: p.components := by
  refine of_mem_ancestors (P := fun r => r.components <+: p.components)
    (fun below above hparent hbelow => ?_) (List.prefix_refl _) h
  obtain ⟨c, hc⟩ := components_of_parent? hparent
  rw [hc] at hbelow
  exact (List.prefix_append _ _).trans hbelow

theorem self_mem_ancestors (p : Path) : p ∈ p.ancestors := by
  rw [ancestors_eq]
  exact List.mem_cons_self

theorem ancestors_suffix {p q : Path} (h : q ∈ p.ancestors) : q.ancestors <:+ p.ancestors := by
  refine of_mem_ancestors (P := fun r => r.ancestors <:+ p.ancestors)
    (fun below above hparent hbelow => ?_) (List.suffix_refl _) h
  rw [ancestors_eq, hparent] at hbelow
  exact (List.suffix_cons _ _).trans hbelow

/-- Paths that are the same have the same parent, or none. -/
theorem exists_parent?_of_same {p q up : Path} (h : p.same q = true) (hp : p.parent? = some up) :
    ∃ up', q.parent? = some up' ∧ up.same up' = true := by
  obtain ⟨c, hc⟩ := components_of_parent? hp
  have hroot : c ≠ .root := by
    rintro rfl
    rw [parent?_of_components_root hc] at hp
    simp at hp
  rw [same_iff.mp h] at hc
  obtain ⟨up', hup', hcs⟩ := exists_parent? hc hroot
  exact ⟨up', hup', same_iff.mpr hcs.symm⟩

theorem same_getD_parent? {p q : Path} (h : p.same q = true) (default : Path) :
    (p.parent?.getD default).same (q.parent?.getD default) = true := by
  cases hp : p.parent? with
  | some up =>
    obtain ⟨up', hq, hsame⟩ := exists_parent?_of_same h hp
    rw [hq]
    exact hsame
  | none =>
    cases hq : q.parent? with
    | none => exact same_refl _
    | some up =>
      obtain ⟨up', hp', -⟩ := exists_parent?_of_same (same_symm h) hq
      rw [hp] at hp'
      exact absurd hp' (by simp)

/-! ### Tidy paths -/

theorem Tidy.trimmed {p : Path} (hp : p.Tidy) : p.trimmed = p := by
  rcases hp.exists_child with (rfl | rfl | rfl) | ⟨q, c, -, hc, rfl⟩
  · rfl
  · decide
  · decide
  · exact trimmed_child q hc

/-- The parent of a step down from a tidy path is that path. -/
theorem Tidy.parent?_child {p : Path} (hp : p.Tidy) {c : Component} (h : c.IsStep) :
    (p.child c.text).parent? = some p := by
  rw [Path.parent?_child p h, hp.trimmed]

theorem Tidy.parent {p q : Path} (hp : p.Tidy) (h : p.parent? = some q) : q.Tidy := by
  rcases hp.exists_child with (rfl | rfl | rfl) | ⟨r, c, hr, hc, rfl⟩
  · simp [show parent? ⟨""⟩ = none by decide] at h
  · simp [show parent? ⟨"/"⟩ = none by decide] at h
  · rw [show parent? ⟨"."⟩ = some ⟨""⟩ by decide] at h
    cases h
    rfl
  · rw [hr.parent?_child hc] at h
    cases h
    exact hr

end SourceWeb.Path
