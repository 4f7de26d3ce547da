/-
  Texts whose segments are all names, read from a path.

  Such a text is relative, and its names come behind the components of the path.  So the path read
  from one directory by such a text is the path read by another one only if the texts are equal.
-/
import SourceWeb.Proofs.Path.Absolute

namespace SourceWeb.Path

open SourceWeb.Text

/-- Are all segments of the text names? -/
def Named (text : String) : Prop :=
  ∀ s ∈ segments ⟨text⟩, IsName s

variable {s t : String}

theorem Named.isAbsolute (h : Named t) : Path.isAbsolute ⟨t⟩ = false := by
  rw [← Bool.not_eq_true, isAbsolute_iff]
  rintro ⟨second, rest, hsegments⟩
  exact (h "" (by simp [hsegments])).1 rfl

theorem Named.steps (h : Named t) :
    Path.steps (segments ⟨t⟩) = (segments ⟨t⟩).map Component.name := by
  have hsteps := steps_map_text (isStep_of_mem_map_name h)
  rwa [map_text_map_name] at hsteps

theorem Named.steps_child (h : Named t) (p : Path) : Path.steps (p.child t).segments =
    Path.steps p.segments ++ (segments ⟨t⟩).map Component.name := by
  rw [child, segments_join h.isAbsolute, steps_append, steps_base, h.steps]

/-- Where a path is read by texts of names the texts can be told apart. -/
theorem Named.eq_of_same_child (hs : Named s) (ht : Named t) {p : Path}
    (h : (p.child s).same (p.child t) = true) : s = t := by
  have hsteps : Path.steps (p.child s).segments = Path.steps (p.child t).segments := by
    rw [steps_eq_filter, steps_eq_filter, same_iff.mp h]
  rw [hs.steps_child, ht.steps_child] at hsteps
  have hnames := congrArg (List.map Component.text) (List.append_cancel_left hsteps)
  rw [map_text_map_name, map_text_map_name] at hnames
  exact congrArg Path.text (eq_of_segments_eq hnames)

theorem Named.fileName?_child (h : Named t) (p : Path) :
    (p.child t).fileName? = (segments ⟨t⟩).getLast? := by
  have hne : (segments ⟨t⟩).map Component.name ≠ [] := by
    simpa using segments_ne_nil ⟨t⟩
  rw [fileName?, components_eq, h.steps_child, List.getLast?_append_of_ne_nil _ (by simp [hne]),
    List.getLast?_append_of_ne_nil _ hne, List.getLast?_map]
  cases (segments ⟨t⟩).getLast? with
  | none => rfl
  | some s => rfl

theorem cutName_of_not_holds (h : ¬ Holds '.' s) : cutName s = (s, none) := by
  have htail : s.toList.reverse.takeWhile (· != '.') = s.toList.reverse := by
    rw [List.takeWhile_eq_self_iff]
    intro c hc
    have hne : c ≠ '.' := fun heq => h (heq ▸ List.mem_reverse.mp hc)
    simpa using hne
  simp [cutName, htail]

/-- A file has no extension if no name has a dot. -/
theorem Named.extension?_child (h : Named t) (hdot : ∀ s ∈ segments ⟨t⟩, ¬ Holds '.' s)
    (p : Path) : (p.child t).extension? = none := by
  rw [extension?, h.fileName?_child, Option.bind_eq_none_iff]
  intro s hs
  rw [cutName_of_not_holds (hdot s (List.mem_of_getLast? hs))]

theorem withSuffix_child (p : Path) (hs : Path.isAbsolute ⟨s⟩ = false)
    (ht : Path.isAbsolute ⟨s ++ t⟩ = false) : (p.child s).withSuffix t = p.child (s ++ t) := by
  rw [child, child, join, join, hs, ht, if_neg Bool.false_ne_true, if_neg Bool.false_ne_true]
  split <;> simp only [withSuffix, String.append_assoc]

/-- Can the text be the end of a name, whatever stands before it?  It has no slash, and more than
    dots. -/
def IsEnding (e : String) : Prop :=
  ¬ Holds '/' e ∧ e.toList.any (· != '.') = true

instance (e : String) : Decidable (IsEnding e) :=
  inferInstanceAs (Decidable (_ ∧ _))

theorem IsEnding.isName_append {e : String} (h : IsEnding e) (hs : ¬ Holds '/' s) :
    IsName (s ++ e) := by
  obtain ⟨hslash, hany⟩ := h
  have hmore : (s ++ e).toList.any (· != '.') = true := by
    rw [String.toList_append, List.any_append, hany, Bool.or_true]
  have hne : ∀ t, t.toList.any (· != '.') = false → s ++ e ≠ t := by
    rintro t ht heq
    rw [heq, ht] at hmore
    simp at hmore
  refine ⟨hne "" rfl, hne "." rfl, hne ".." rfl, ?_⟩
  simp only [Holds, String.toList_append, List.mem_append]
  exact not_or.mpr ⟨hs, hslash⟩

theorem IsFull.withSuffix {p : Path} (hp : p.IsFull) {e : String} (he : IsEnding e) :
    (p.withSuffix e).IsFull := by
  -- the ending is written behind the last component, if there is one
  have hlast : ∀ {q : Path} {t : String}, q.IsFull → ¬ Holds '/' t → p = q.child t →
      (p.withSuffix e).IsFull := by
    rintro q t hq ht rfl
    have hname := he.isName_append ht
    rw [withSuffix_child q (isAbsolute_eq_false_of_segment ht)
      (isAbsolute_eq_false_of_segment hname.2.2.2)]
    exact hq.child hname
  have hroot : IsFull ⟨"/"⟩ := ⟨by decide, by decide⟩
  obtain ⟨ups, hups, htidy, hcomponents⟩ := hp.components
  rcases List.eq_nil_or_concat p.names with hnames | ⟨front, s, hnames⟩
  · rcases hups with rfl | rfl
    · exact hlast hroot (t := "") (by simp [Holds]) (by rw [← htidy, hcomponents, hnames]; decide)
    · exact hlast hroot (t := "..") (by simp [Holds]) (by rw [← htidy, hcomponents, hnames]; decide)
  · rw [List.concat_eq_append] at hnames
    rw [hnames, List.map_append, List.map_singleton, ← List.append_assoc, ← List.cons_append]
      at hcomponents
    have hs : IsName s := isName_of_mem_names (p := p) (by rw [hnames]; simp)
    have hspelled := spelled_components p
    rw [hcomponents] at hspelled
    have hfront : Spelled (.root :: (ups ++ front.map .name)) :=
      spelled_root fun c hc => hspelled.2 c (List.mem_append_left _ hc)
    have hq : (ofComponents (.root :: (ups ++ front.map .name))).IsFull :=
      isFull_of_components (tidy_ofComponents hfront) hups (components_ofComponents hfront)
    refine hlast hq hs.2.2.2 ?_
    rw [← htidy, hcomponents, ofComponents_append_singleton]
    rfl

/-- Names with slashes between them and something written behind the last one. -/
theorem named_intercalate_append {names : List String} (hne : names ≠ []) {e : String}
    (h : ∀ s ∈ names, IsName s ∧ IsName (s ++ e)) : Named ("/".intercalate names ++ e) := by
  induction names with
  | nil => exact absurd rfl hne
  | cons s names ih =>
    obtain ⟨⟨hs, hend⟩, hnames⟩ := List.forall_mem_cons.mp h
    cases names with
    | nil =>
      rw [String.intercalate_singleton, Named, segments_of_not_holds hend.2.2.2]
      simpa using hend
    | cons t names =>
      rw [String.intercalate_cons_cons, String.append_assoc, Named, segments_append,
        segments_of_not_holds hs.2.2.2]
      exact List.forall_mem_cons.mpr ⟨hs, ih (List.cons_ne_nil t names) hnames⟩

end SourceWeb.Path
