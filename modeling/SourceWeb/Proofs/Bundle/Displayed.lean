/-
  How paths are shown from the project root.

  A document shows a path below the project root by the way down to it and any other path as it is.
  Ignore rules are asked about the way from the project root, which may lead up first.  Read from
  the project root again, either text leads back to the path, so neither stands for two paths.
-/
import SourceWeb.Bundle.Document
import SourceWeb.Ignore.Matcher
import SourceWeb.Proofs.Path.Relative

namespace SourceWeb

open SourceWeb.Path

namespace Path

variable {root p q : Path}

theorem text_ne_empty_of_isAbsolute (h : p.isAbsolute = true) : p.text ≠ "" := by
  intro htext
  simp [isAbsolute, htext] at h

/-- Reading several steps from a path, written with slashes between them, adds these. -/
theorem components_child_steps (hp : p.text ≠ "") {cs : List Component}
    (h : ∀ c ∈ cs, c.IsStep) :
    (p.child ("/".intercalate (cs.map Component.text))).components = p.components ++ cs := by
  have hspelled := spelled_of_steps h
  have hrel : (ofComponents cs).isAbsolute = false := by
    rw [← Bool.not_eq_true, isAbsolute_iff_components, components_ofComponents hspelled]
    exact fun hhead => h .root (List.mem_of_head? hhead)
  have hsteps : steps (ofComponents cs).segments = cs := by
    have hsegments := segments_ofComponents h false
    simp only [Bool.false_eq_true, if_false, List.nil_append] at hsegments
    rw [hsegments]
    split
    · rename_i hnil
      rw [hnil]
      rfl
    · exact steps_map_text h
  rw [child, ← ofComponents_steps h, components_join hp hrel, hsteps]

theorem Straight.exists_down (hp : p.Straight) (hroot : root.Straight)
    (h : p.startsWith root = true) :
    ∃ down : List String, p.components = root.components ++ down.map .name := by
  obtain ⟨cs, hcs⟩ := startsWith_iff.mp h
  have hnames := hcs
  rw [hp.components_eq, hroot.components_eq, List.cons_append, List.cons.injEq] at hnames
  obtain ⟨shared, down, -, -, rfl⟩ := List.map_eq_append_iff.mp hnames.2
  exact ⟨down, hcs⟩

end Path

/-! ### What a document shows -/

namespace Bundle

variable {root p q : Path}

theorem relativeDisplay_of_below {cs : List Component}
    (h : p.components = root.components ++ cs) :
    relativeDisplay p root = "/".intercalate (cs.filterMap Component.name?) := by
  rw [relativeDisplay, below?_eq_some.mpr h]
  rfl

theorem relativeDisplay_of_outside (h : p.startsWith root = false) :
    relativeDisplay p root = p.text := by
  rw [startsWith, Option.isSome_eq_false_iff, Option.isNone_iff_eq_none] at h
  rw [relativeDisplay, h]

theorem relativeDisplay_of_down {down : List String}
    (h : p.components = root.components ++ down.map .name) :
    relativeDisplay p root = "/".intercalate ((down.map Component.name).map Component.text) := by
  rw [relativeDisplay_of_below h, filterMap_name?, map_text_map_name]

/-- What is shown of a path, read from the project root, is the path. -/
theorem same_child_relativeDisplay (hroot : root.Straight) (hp : p.Straight) :
    (root.child (relativeDisplay p root)).same p = true := by
  cases hinside : p.startsWith root with
  | true =>
    obtain ⟨down, hdown⟩ := hp.exists_down hroot hinside
    have hsteps : ∀ c ∈ down.map Component.name, c.IsStep := isStep_of_mem_map_name fun s hs =>
      isName_of_mem_components (p := p) (by simp [hdown, hs])
    rw [same_iff, relativeDisplay_of_down hdown,
      components_child_steps (text_ne_empty_of_isAbsolute hroot.absolute) hsteps, hdown]
  | false =>
    rw [relativeDisplay_of_outside hinside, child, join, if_pos hp.absolute]
    exact same_refl p

theorem same_of_relativeDisplay_eq (hroot : root.Straight) (hp : p.Straight) (hq : q.Straight)
    (h : relativeDisplay p root = relativeDisplay q root) : p.same q = true := by
  have hback := same_child_relativeDisplay hroot hp
  rw [h] at hback
  rw [same_iff] at hback ⊢
  exact hback.symm.trans (same_iff.mp (same_child_relativeDisplay hroot hq))

end Bundle

/-! ### What ignore rules are asked about -/

namespace Ignore.Matcher

variable {m : Matcher} {p q : Path}

theorem relative_of_wayFrom {cs : List Component} (hp : p.isAbsolute = true)
    (hroot : m.projectRoot.isAbsolute = true) (hcs : ∀ c ∈ cs, c.IsStep)
    (h : wayFrom p.components m.projectRoot.components = some cs) :
    m.relative p = "/".intercalate (cs.map Component.text) := by
  have htexts : cs.map Component.text = cs.filterMap (some ∘ Component.text) := by
    rw [List.filterMap_eq_map]
  rw [relative, relativeTo?, hp, hroot, h, htexts]
  simp only [bne_self_eq_false, Bool.false_eq_true, if_false, Option.map_some, Option.getD_some,
    components_ofComponents (spelled_of_steps hcs)]
  refine congrArg _ (List.filterMap_congr fun c hc => ?_)
  cases c with
  | root | here => exact (hcs _ hc).elim
  | up | name s => rfl

/-- The way from the project root, in names: up from those that the path does not share, and then
    down. -/
theorem exists_relative (hroot : m.projectRoot.Straight) (hp : p.Straight) :
    ∃ shared down left, p.names = shared ++ down ∧ m.projectRoot.names = shared ++ left ∧
      (∀ c ∈ climb (left.map Component.name) ++ down.map Component.name, c.IsStep) ∧
      m.relative p = "/".intercalate
        ((climb (left.map Component.name) ++ down.map Component.name).map Component.text) := by
  obtain ⟨shared, down, left, hnames, hbase, hway⟩ := exists_wayFrom p.names m.projectRoot.names
  have hsteps : ∀ c ∈ climb (left.map Component.name) ++ down.map Component.name, c.IsStep := by
    intro c hc
    rcases List.mem_append.mp hc with hc | hc
    · obtain ⟨-, -, rfl⟩ := List.mem_map.mp hc
      trivial
    · refine isStep_of_mem_map_name (fun s hs => ?_) c hc
      exact isName_of_mem_names (p := p) (by simp [hnames, hs])
  refine ⟨shared, down, left, hnames, hbase, hsteps, ?_⟩
  refine relative_of_wayFrom hp.absolute hroot.absolute hsteps ?_
  rw [hp.components_eq, hroot.components_eq, wayFrom, if_pos rfl, hway]

theorem same_normal_child_relative (hroot : m.projectRoot.Straight) (hp : p.Straight) :
    (m.projectRoot.child (m.relative p)).normal.same p = true := by
  obtain ⟨shared, down, left, hnames, hbase, hsteps, hrelative⟩ := exists_relative hroot hp
  have hcomponents : (m.projectRoot.child (m.relative p)).components =
      .root :: ((shared ++ left).map Component.name ++
        (climb (left.map Component.name) ++ down.map Component.name)) := by
    rw [hrelative, components_child_steps (text_ne_empty_of_isAbsolute hroot.absolute) hsteps,
      hroot.components_eq, hbase, List.cons_append]
  have habs : (m.projectRoot.child (m.relative p)).isAbsolute = true := by
    rw [isAbsolute_iff_components, hcomponents]
    rfl
  have hkept : (m.projectRoot.child (m.relative p)).normalSegments = p.names := by
    rw [normalSegments, hcomponents, List.foldl_cons, normalStep, foldl_normalStep_way,
      List.reverse_reverse, hnames]
  have hsegments : steps p.names = p.names.map .name := by
    conv_lhs => rw [← map_text_map_name p.names]
    exact steps_map_text (isStep_of_mem_map_name fun s hs => isName_of_mem_names hs)
  rw [same_iff, components_normal, habs, if_pos rfl, hkept, hsegments, hp.components_eq]
  rfl

theorem same_of_relative_eq (hroot : m.projectRoot.Straight) (hp : p.Straight) (hq : q.Straight)
    (h : m.relative p = m.relative q) : p.same q = true := by
  have hback := same_normal_child_relative hroot hp
  rw [h] at hback
  rw [same_iff] at hback ⊢
  exact hback.symm.trans (same_iff.mp (same_normal_child_relative hroot hq))

/-- Below the project root a document shows the way that ignore rules are asked about. -/
theorem relativeDisplay_eq_relative (hroot : m.projectRoot.Straight) (hp : p.Straight)
    (h : p.startsWith m.projectRoot = true) :
    Bundle.relativeDisplay p m.projectRoot = m.relative p := by
  obtain ⟨down, hdown⟩ := hp.exists_down hroot h
  have hsteps : ∀ c ∈ down.map Component.name, c.IsStep := isStep_of_mem_map_name fun s hs =>
    isName_of_mem_components (p := p) (by simp [hdown, hs])
  rw [Bundle.relativeDisplay_of_down hdown]
  refine (relative_of_wayFrom hp.absolute hroot.absolute hsteps ?_).symm
  rw [hdown, wayFrom_append]

/-- **Nothing is lost on the way from the project root.**  What a document shows of a path, and what
    ignore rules are asked about it, lead back to the path from the project root; the two are one
    text below that, and neither stands for two paths. -/
theorem relative_lossless (m : Matcher) (hroot : m.projectRoot.Straight) (hp : p.Straight) :
    (m.projectRoot.child (Bundle.relativeDisplay p m.projectRoot)).same p = true ∧
      (m.projectRoot.child (m.relative p)).normal.same p = true ∧
      (p.startsWith m.projectRoot = true →
        Bundle.relativeDisplay p m.projectRoot = m.relative p) ∧
      ∀ q : Path, q.Straight →
        (Bundle.relativeDisplay p m.projectRoot = Bundle.relativeDisplay q m.projectRoot →
          p.same q = true) ∧
        (m.relative p = m.relative q → p.same q = true) :=
  ⟨Bundle.same_child_relativeDisplay hroot hp, same_normal_child_relative hroot hp,
    relativeDisplay_eq_relative hroot hp, fun _ hq =>
      ⟨Bundle.same_of_relativeDisplay_eq hroot hp hq, same_of_relative_eq hroot hp hq⟩⟩

/-- A path beside the project root, both with slashes to spare. -/
theorem beside_lossless :
    let m : Matcher := ⟨⟨"/a//b"⟩, none, false, false⟩
    let p : Path := ⟨"/a/c/d/"⟩
    m.projectRoot.Straight ∧ p.Straight ∧
      (m.relative p = "../c/d" ∧ Bundle.relativeDisplay p m.projectRoot = "/a/c/d/") ∧
      (m.projectRoot.child (Bundle.relativeDisplay p m.projectRoot)).same p = true ∧
      (m.projectRoot.child (m.relative p)).normal.same p = true := by
  intro m p
  have hroot : m.projectRoot.Straight := by decide +kernel
  have hp : p.Straight := by decide +kernel
  have hlossless := relative_lossless m hroot hp
  exact ⟨hroot, hp, by decide +kernel, hlossless.1, hlossless.2.1⟩

end Ignore.Matcher

end SourceWeb
