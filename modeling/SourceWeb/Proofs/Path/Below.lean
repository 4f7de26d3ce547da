/-
  Going down from a path, and being below one.

  A path below another is reached from it by its further components; the directories passed on the
  way are each the parent of the next one.
-/
import SourceWeb.Proofs.Path.Parent

namespace SourceWeb.Path

open SourceWeb.Text

/-! ### Being below -/

theorem below?_eq_some {base p : Path} {cs : List Component} :
    below? base p = some cs ↔ p.components = base.components ++ cs := by
  rw [below?, List.isPrefixOf?_eq_some_iff_append_eq]
  exact eq_comm

theorem startsWith_iff {p base : Path} :
    p.startsWith base = true ↔ ∃ cs, p.components = base.components ++ cs := by
  rw [startsWith, Option.isSome_iff_exists]
  exact exists_congr fun cs => below?_eq_some

theorem startsWith_child {p base : Path} (h : p.startsWith base = true) {name : String}
    (hname : IsName name) : (p.child name).startsWith base = true := by
  obtain ⟨cs, hcs⟩ := startsWith_iff.mp h
  refine startsWith_iff.mpr ⟨cs ++ [.name name], ?_⟩
  rw [components_child_name _ hname, hcs, List.append_assoc]

/-- What is above a path below another is still below that, or is that itself. -/
theorem startsWith_parent? {p up base : Path} (h : p.startsWith base = true)
    (hne : p.same base = false) (hparent : p.parent? = some up) : up.startsWith base = true := by
  obtain ⟨cs, hcs⟩ := startsWith_iff.mp h
  obtain ⟨c, hc⟩ := components_of_parent? hparent
  rcases List.eq_nil_or_concat cs with rfl | ⟨init, last, rfl⟩
  · rw [List.append_nil] at hcs
    rw [same_iff.mpr hcs] at hne
    exact absurd hne (by simp)
  · rw [List.concat_eq_append, hc, ← List.append_assoc] at hcs
    exact startsWith_iff.mpr ⟨init, (List.append_inj' hcs rfl).1⟩

theorem startsWith_refl (p : Path) : p.startsWith p = true :=
  startsWith_iff.mpr ⟨[], (List.append_nil _).symm⟩

theorem startsWith_trans {p q r : Path} (h : p.startsWith q = true) (h' : q.startsWith r = true) :
    p.startsWith r = true := by
  obtain ⟨cs, hcs⟩ := startsWith_iff.mp h
  obtain ⟨ds, hds⟩ := startsWith_iff.mp h'
  exact startsWith_iff.mpr ⟨ds ++ cs, by rw [hcs, hds, List.append_assoc]⟩

/-! ### Ancestors -/

theorem startsWith_of_mem_ancestors {p q : Path} (h : q ∈ p.ancestors) :
    p.startsWith q = true := by
  obtain ⟨cs, hcs⟩ := components_prefix_of_mem_ancestors h
  exact startsWith_iff.mpr ⟨cs, hcs.symm⟩

/-- What relates a path to all ancestors of its parent relates each of its ancestors to those that
    follow. -/
theorem pairwise_ancestors_of {R : Path → Path → Prop}
    (h : ∀ p up, p.parent? = some up → ∀ q ∈ up.ancestors, R p q) (p : Path) :
    p.ancestors.Pairwise R := by
  induction p using parentInduction with
  | child p ih =>
    rw [ancestors_eq]
    cases hparent : p.parent? with
    | none => exact List.pairwise_singleton _ _
    | some up => exact List.pairwise_cons.mpr ⟨h p up hparent, ih up hparent⟩

/-- Of the ancestors each is below those that follow. -/
theorem pairwise_ancestors (p : Path) : p.ancestors.Pairwise fun q r => q.startsWith r = true := by
  refine pairwise_ancestors_of (fun p up hparent q hq => ?_) p
  apply startsWith_of_mem_ancestors
  rw [ancestors_eq, hparent]
  exact List.mem_cons_of_mem _ hq

/-- Every beginning of a path is an ancestor, but for that of an absolute path without its root. -/
theorem exists_mem_ancestors {p : Path} {cs : List Component} (h : cs <+: p.components)
    (hne : cs ≠ []) : ∃ q ∈ p.ancestors, q.components = cs := by
  induction p using parentInduction with
  | child p ih =>
    by_cases heq : cs = p.components
    · exact ⟨p, self_mem_ancestors p, heq.symm⟩
    rcases List.eq_nil_or_concat p.components with hnil | ⟨init, c, hc⟩
    · rw [hnil] at h
      exact absurd (List.prefix_nil.mp h) hne
    rw [List.concat_eq_append] at hc
    have hinit : cs <+: init := by
      rw [hc] at h heq
      exact (List.prefix_concat_iff.mp h).resolve_left heq
    have hroot : c ≠ .root := by
      rintro rfl
      obtain ⟨d, ds, rfl⟩ := List.exists_cons_of_ne_nil fun hnil =>
        hne (List.prefix_nil.mp (hnil ▸ hinit))
      have hspelled := spelled_components p
      rw [hc] at hspelled
      exact hspelled.2 .root (by simp)
    obtain ⟨up, hparent, hup⟩ := exists_parent? hc hroot
    obtain ⟨q, hq, hcs⟩ := ih up hparent (hup ▸ hinit)
    refine ⟨q, ?_, hcs⟩
    rw [ancestors_eq, hparent]
    exact List.mem_cons_of_mem _ hq

/-! ### Going down -/

/-- The path that components lead to from a path. -/
def down (p : Path) (cs : List Component) : Path :=
  cs.foldl (fun q c => q.child c.text) p

theorem down_append (p : Path) (cs ds : List Component) :
    p.down (cs ++ ds) = (p.down cs).down ds :=
  List.foldl_append

theorem down_append_singleton (p : Path) (cs : List Component) (c : Component) :
    p.down (cs ++ [c]) = (p.down cs).child c.text := by
  rw [down_append]
  rfl

theorem down_name (p : Path) (n : String) : p.down [.name n] = p.child n :=
  rfl

theorem text_eq_empty_of_components {p : Path} (h : p.components = []) : p.text = "" := by
  have hlen := length_components_le p
  rw [components_eq, List.append_eq_nil_iff] at h
  obtain ⟨hlead, hsteps⟩ := h
  obtain ⟨first, rest, hp⟩ := List.exists_cons_of_ne_nil p.segments_ne_nil
  have habs : p.isAbsolute ≠ true := by
    intro habs
    simp [lead, habs] at hlead
  have hdot : first ≠ "." := by
    rintro rfl
    simp [lead, hp] at hlead
    split at hlead <;> simp at hlead
  have hfirst : first = "" := by
    by_contra hne
    by_cases hup : first = ".." <;> simp [hp, steps, ofSegment, hne, hdot, hup] at hsteps
  subst hfirst
  rw [← segments_eq_singleton_empty, hp]
  cases rest with
  | nil => rfl
  | cons second rest => exact absurd (isAbsolute_iff.mpr ⟨second, rest, hp⟩) habs

/-- What is read from a path depends on its components alone. -/
theorem same_child {p q : Path} (h : p.same q = true) (t : String) :
    (p.child t).same (q.child t) = true := by
  have hcomponents := same_iff.mp h
  rw [same_iff]
  cases ht : isAbsolute ⟨t⟩ with
  | true => simp [child, join, ht]
  | false =>
    by_cases hp : p.text = ""
    · have hq : q.text = "" := text_eq_empty_of_components
        (hcomponents ▸ components_of_text_eq_empty hp)
      rw [child, child, join_of_text_eq_empty hp ht, join_of_text_eq_empty hq ht]
    · have hq : q.text ≠ "" := fun hq =>
        hp (text_eq_empty_of_components (hcomponents ▸ components_of_text_eq_empty hq))
      rw [child, child, components_join hp ht, components_join hq ht, hcomponents]

/-- What stands behind the components of a path are steps, unless the path is empty. -/
theorem isStep_of_spelled_append {p : Path} {cs : List Component}
    (h : Spelled (p.components ++ cs)) : p = ⟨""⟩ ∨ ∀ c ∈ cs, c.IsStep := by
  cases hp : p.components with
  | nil => exact .inl (ext_text (text_eq_empty_of_components hp))
  | cons d ds =>
    rw [hp] at h
    exact .inr fun c hc => h.2 c (by simp [hc])

theorem components_down {p : Path} {cs : List Component} (h : Spelled (p.components ++ cs)) :
    (p.down cs).components = p.components ++ cs := by
  rcases isStep_of_spelled_append h with rfl | hcs
  · exact components_ofComponents h
  · exact components_foldl_child p hcs

theorem Tidy.down_eq {p : Path} (hp : p.Tidy) (cs : List Component) :
    p.down cs = ofComponents (p.components ++ cs) := by
  rw [ofComponents, List.foldl_append]
  exact congrArg (fun q => q.down cs) hp.symm

end SourceWeb.Path
