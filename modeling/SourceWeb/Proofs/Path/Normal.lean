/-
  Normal paths and the paths of places.

  Both are written down from a list of names, with at most one `..` in front of them, so both are
  tidy, and a tidy path of names is its own normal form.
-/
import SourceWeb.Disk.Basic
import SourceWeb.Proofs.Path.Parent

namespace SourceWeb.Path

open SourceWeb.Text

/-! ### How tidy paths are written -/

theorem base_child (p : Path) {c : Component} (h : c.IsStep) :
    (p.child c.text).base = (p.child c.text).segments := by
  have hrel : isAbsolute ⟨c.text⟩ = false := isAbsolute_eq_false_of_segment h.text.2.2
  rcases segments_eq_base_or (p.child c.text) with hb | hb
  · exact hb.symm
  · have hlast := congrArg List.getLast? hb
    rw [List.getLast?_concat, child, segments_join hrel, segments_of_not_holds h.text.2.2,
      List.getLast?_concat] at hlast
    exact absurd (Option.some.inj hlast) h.text.1

theorem segments_foldl_child (p : Path) {cs : List Component} (hne : cs ≠ [])
    (h : ∀ c ∈ cs, c.IsStep) :
    (cs.foldl (fun q c => q.child c.text) p).segments = p.base ++ cs.map Component.text := by
  induction cs generalizing p with
  | nil => exact absurd rfl hne
  | cons c cs ih =>
    have hc := h c (by simp)
    have hrel : isAbsolute ⟨c.text⟩ = false := isAbsolute_eq_false_of_segment hc.text.2.2
    have hchild : (p.child c.text).segments = p.base ++ [c.text] := by
      rw [child, segments_join hrel, segments_of_not_holds hc.text.2.2]
    rw [List.foldl_cons]
    by_cases hcs : cs = []
    · simp [hcs, hchild]
    · rw [ih _ hcs fun d hd => h d (by simp [hd]), base_child p hc, hchild]
      simp

theorem not_holds_of_mem_map_text {cs : List Component} (h : ∀ c ∈ cs, c.IsStep) :
    ∀ s ∈ cs.map Component.text, ¬ Holds '/' s := by
  intro s hs
  obtain ⟨c, hc, rfl⟩ := List.mem_map.mp hs
  exact (h c hc).text.2.2

theorem ofComponents_steps {cs : List Component} (h : ∀ c ∈ cs, c.IsStep) :
    ofComponents cs = ⟨"/".intercalate (cs.map Component.text)⟩ := by
  by_cases hne : cs = []
  · subst hne
    rfl
  · apply eq_of_segments_eq
    rw [ofComponents, segments_foldl_child _ hne h,
      segments_mk_intercalate (by simpa using hne) (not_holds_of_mem_map_text h)]
    rfl

theorem slash_append_intercalate {l : List String} (hne : l ≠ []) :
    "/" ++ "/".intercalate l = "/".intercalate ("" :: l) := by
  obtain ⟨s, l, rfl⟩ := List.exists_cons_of_ne_nil hne
  simp

theorem ofComponents_root {cs : List Component} (h : ∀ c ∈ cs, c.IsStep) :
    ofComponents (.root :: cs) = ⟨"/" ++ "/".intercalate (cs.map Component.text)⟩ := by
  have hroot : ofComponents (.root :: cs) = cs.foldl (fun q c => q.child c.text) ⟨"/"⟩ := rfl
  by_cases hne : cs = []
  · subst hne
    rfl
  · have hmap : cs.map Component.text ≠ [] := by simpa using hne
    rw [hroot, slash_append_intercalate hmap]
    apply eq_of_segments_eq
    rw [segments_foldl_child _ hne h, segments_mk_intercalate (by simp)]
    · rfl
    · intro s hs
      rcases List.mem_cons.mp hs with rfl | hs
      · exact not_holds_empty
      · exact not_holds_of_mem_map_text h s hs

/-! ### Normal paths -/

/-- What is kept while `.` and `..` are worked off, the last of it first: names, and below them
    perhaps one `..`. -/
def Kept (kept : List String) : Prop :=
  ∃ names ups, kept = names ++ ups ∧ (∀ s ∈ names, IsName s) ∧ (ups = [] ∨ ups = [".."])

theorem Kept.normalStep {kept : List String} (h : Kept kept) {c : Component}
    (hc : ∀ s, c = .name s → IsName s) : Kept (Path.normalStep kept c) := by
  obtain ⟨names, ups, rfl, hnames, hups⟩ := h
  cases c with
  | root => exact ⟨names, ups, rfl, hnames, hups⟩
  | here => exact ⟨names, ups, rfl, hnames, hups⟩
  | up =>
    cases names with
    | nil =>
      rcases hups with rfl | rfl
      · exact ⟨[], [".."], rfl, by simp, .inr rfl⟩
      · exact ⟨[], [], rfl, by simp, .inl rfl⟩
    | cons s names => exact ⟨names, ups, rfl, fun t ht => hnames t (by simp [ht]), hups⟩
  | name s =>
    refine ⟨s :: names, ups, rfl, ?_, hups⟩
    intro t ht
    rcases List.mem_cons.mp ht with rfl | ht
    · exact hc t rfl
    · exact hnames t ht

theorem isName_of_mem_components {p : Path} {s : String} (h : .name s ∈ p.components) :
    IsName s := by
  have hspelled := spelled_components p
  cases hcs : p.components with
  | nil => simp [hcs] at h
  | cons c cs =>
    rw [hcs] at h hspelled
    rcases List.mem_cons.mp h with rfl | h
    · simpa [Component.IsStep] using hspelled.1
    · exact hspelled.2 _ h

theorem kept_normalSegments (p : Path) : Kept p.normalSegments.reverse := by
  have h : ∀ cs : List Component, (∀ s, .name s ∈ cs → IsName s) → ∀ kept, Kept kept →
      Kept (cs.foldl Path.normalStep kept) := by
    intro cs
    induction cs with
    | nil => exact fun _ kept hk => hk
    | cons c cs ih =>
      intro hcs kept hk
      exact ih (fun s hs => hcs s (by simp [hs])) _ (hk.normalStep fun s hs => hcs s (by simp [hs]))
  rw [normalSegments, List.reverse_reverse]
  exact h _ (fun s => isName_of_mem_components) _ ⟨[], [], rfl, by simp, .inl rfl⟩

/-- The segments of a normal path: perhaps one `..`, then names. -/
theorem exists_normalSegments (p : Path) : ∃ ups names, p.normalSegments = ups ++ names ∧
    (ups = [] ∨ ups = [".."]) ∧ ∀ s ∈ names, IsName s := by
  obtain ⟨names, ups, h, hnames, hups⟩ := kept_normalSegments p
  refine ⟨ups, names.reverse, ?_, hups, fun s hs => hnames s (List.mem_reverse.mp hs)⟩
  rw [← List.reverse_reverse p.normalSegments, h, List.reverse_append]
  rcases hups with rfl | rfl <;> rfl

theorem foldl_normalStep_names (kept names : List String) :
    (names.map Component.name).foldl normalStep kept = names.reverse ++ kept := by
  induction names generalizing kept with
  | nil => rfl
  | cons s names ih => simp [normalStep, ih]

/-- The steps that a normal path consists of, in which nothing is left to be worked off. -/
theorem exists_steps_normal (p : Path) : ∃ cs : List Component, (∀ c ∈ cs, c.IsStep) ∧
    p.normalSegments = cs.map Component.text ∧
    (cs.foldl normalStep []).reverse = cs.map Component.text := by
  obtain ⟨ups, names, h, hups, hnames⟩ := exists_normalSegments p
  have hstep := isStep_of_mem_map_name hnames
  rcases hups with rfl | rfl
  · refine ⟨names.map .name, hstep, by rw [h, map_text_map_name, List.nil_append], ?_⟩
    rw [foldl_normalStep_names, List.append_nil, List.reverse_reverse, map_text_map_name]
  · refine ⟨.up :: names.map .name, ?_, by rw [h, List.map_cons, map_text_map_name]; rfl, ?_⟩
    · intro c hc
      rcases List.mem_cons.mp hc with rfl | hc
      · trivial
      · exact hstep c hc
    · rw [List.foldl_cons, foldl_normalStep_names, List.reverse_append, List.reverse_reverse,
        List.map_cons, map_text_map_name]
      rfl

theorem tidy_normal (p : Path) : p.normal.Tidy := by
  obtain ⟨cs, hcs, hseg, -⟩ := exists_steps_normal p
  rw [normal, hseg]
  split
  · rw [← ofComponents_root hcs]
    exact tidy_ofComponents (spelled_root hcs)
  · rw [String.empty_append, ← ofComponents_steps hcs]
    exact tidy_ofComponents (spelled_of_steps hcs)

theorem isAbsolute_normal (p : Path) : p.normal.isAbsolute = p.isAbsolute := by
  obtain ⟨cs, hcs, hseg, -⟩ := exists_steps_normal p
  by_cases habs : p.isAbsolute = true
  · rw [normal, hseg, if_pos habs, ← ofComponents_root hcs, habs, isAbsolute_iff_components,
      components_ofComponents (spelled_root hcs)]
    rfl
  · rw [normal, hseg, if_neg habs, String.empty_append, ← ofComponents_steps hcs,
      Bool.not_eq_true _ |>.mp habs, ← Bool.not_eq_true, isAbsolute_iff_components,
      components_ofComponents (spelled_of_steps hcs)]
    exact fun h => hcs .root (List.mem_of_head? h)

theorem steps_map_text {cs : List Component} (h : ∀ c ∈ cs, c.IsStep) :
    steps (cs.map Component.text) = cs := by
  induction cs with
  | nil => rfl
  | cons c cs ih =>
    rw [List.map_cons, steps, List.filterMap_cons_some (ofSegment_text (h c (by simp)))]
    exact congrArg (c :: ·) (ih fun d hd => h d (by simp [hd]))

theorem components_normal (p : Path) :
    p.normal.components = (if p.isAbsolute then [.root] else []) ++ steps p.normalSegments := by
  obtain ⟨cs, hcs, hseg, -⟩ := exists_steps_normal p
  rw [normal, hseg, steps_map_text hcs]
  by_cases habs : p.isAbsolute = true
  · rw [if_pos habs, if_pos habs, ← ofComponents_root hcs,
      components_ofComponents (spelled_root hcs)]
    rfl
  · rw [if_neg habs, if_neg habs, String.empty_append, ← ofComponents_steps hcs,
      components_ofComponents (spelled_of_steps hcs), List.nil_append]

/-- The segments of a path that is spelled from steps, with an empty one where there are none. -/
theorem segments_ofComponents {cs : List Component} (h : ∀ c ∈ cs, c.IsStep) (absolute : Bool) :
    (ofComponents ((if absolute then [.root] else []) ++ cs)).segments =
      (if absolute then [""] else []) ++ (if cs = [] then [""] else cs.map Component.text) := by
  by_cases hne : cs = []
  · subst hne
    cases absolute <;> decide
  · rw [if_neg hne]
    have hslash := not_holds_of_mem_map_text h
    have htexts : cs.map Component.text ≠ [] := by simpa using hne
    cases absolute with
    | false =>
      refine (congrArg segments (ofComponents_steps h)).trans ?_
      exact segments_mk_intercalate htexts hslash
    | true =>
      refine (congrArg segments (ofComponents_root h)).trans ?_
      rw [slash_append_intercalate htexts, segments_mk_intercalate (by simp)]
      · rfl
      · exact List.forall_mem_cons.mpr ⟨not_holds_empty, hslash⟩

/-- What is normal stays as it is. -/
theorem normal_normal (p : Path) : p.normal.normal = p.normal := by
  obtain ⟨cs, hcs, hseg, hfold⟩ := exists_steps_normal p
  have hkept : p.normal.normalSegments = p.normalSegments := by
    rw [normalSegments, components_normal, hseg, steps_map_text hcs, List.foldl_append]
    cases p.isAbsolute <;> exact hfold
  rw [normal, isAbsolute_normal, hkept, ← normal]

/-! ### Full paths -/

/-- The name that a component is, if it is one. -/
def Component.name? : Component → Option String
  | name s => some s
  | _ => none

def names (p : Path) : List String :=
  p.components.filterMap Component.name?

theorem filterMap_name? (names : List String) :
    (names.map Component.name).filterMap Component.name? = names := by
  rw [List.filterMap_map]
  exact List.filterMap_some

theorem isName_of_mem_names {p : Path} {s : String} (h : s ∈ p.names) : IsName s := by
  obtain ⟨c, hc, hname⟩ := List.mem_filterMap.mp h
  cases c with
  | name t =>
    cases hname
    exact isName_of_mem_components hc
  | root | here | up => simp [Component.name?] at hname

/-- A full path is absolute, and nothing in it is left to be worked off. -/
structure IsFull (p : Path) : Prop where
  absolute : p.isAbsolute = true
  normal : p.normal = p

/-- Behind the root a full path goes on with its names, but there may be one `..` in between. -/
theorem IsFull.components {p : Path} (h : p.IsFull) : ∃ ups : List Component,
    (ups = [] ∨ ups = [.up]) ∧ p.Tidy ∧ p.components = .root :: (ups ++ p.names.map .name) := by
  obtain ⟨upTexts, names, hseg, hupTexts, hnames⟩ := exists_normalSegments p
  obtain ⟨ups, hups, htexts⟩ :
      ∃ ups : List Component, (ups = [] ∨ ups = [.up]) ∧ ups.map Component.text = upTexts := by
    rcases hupTexts with rfl | rfl
    · exact ⟨[], .inl rfl, rfl⟩
    · exact ⟨[.up], .inr rfl, rfl⟩
  have hsteps : ∀ c ∈ ups ++ names.map .name, c.IsStep := by
    intro c hc
    rcases List.mem_append.mp hc with hc | hc
    · rcases hups with rfl | rfl
      · simp at hc
      · cases List.mem_singleton.mp hc
        trivial
    · exact isStep_of_mem_map_name hnames c hc
  have hp : p = ofComponents (.root :: (ups ++ names.map .name)) := by
    rw [ofComponents_root hsteps, List.map_append, htexts, map_text_map_name, ← hseg]
    conv_lhs => rw [← h.normal, Path.normal, if_pos h.absolute]
  have hcomponents : p.components = .root :: (ups ++ names.map .name) := by
    conv_lhs => rw [hp]
    exact components_ofComponents (spelled_root hsteps)
  have hown : p.names = names := by
    rw [Path.names, hcomponents, List.filterMap_cons_none rfl, List.filterMap_append,
      filterMap_name?]
    rcases hups with rfl | rfl <;> rfl
  rw [hown]
  refine ⟨ups, hups, ?_, hcomponents⟩
  rw [hp]
  exact tidy_ofComponents (spelled_root hsteps)

/-- A tidy path that goes on like this is full. -/
theorem isFull_of_components {p : Path} (hp : p.Tidy) {ups : List Component} {names : List String}
    (hups : ups = [] ∨ ups = [.up]) (h : p.components = .root :: (ups ++ names.map .name)) :
    p.IsFull := by
  have hcs : ∀ c ∈ ups ++ names.map .name, c.IsStep := by
    have hspelled := spelled_components p
    rw [h] at hspelled
    exact hspelled.2
  have hseg : p.normalSegments = (ups ++ names.map Component.name).map Component.text := by
    rw [normalSegments, h, List.foldl_cons, normalStep, List.foldl_append, foldl_normalStep_names,
      List.map_append, map_text_map_name, List.reverse_append, List.reverse_reverse]
    rcases hups with rfl | rfl <;> rfl
  have habs : p.isAbsolute = true := by
    rw [isAbsolute_iff_components, h]
    rfl
  refine ⟨habs, ?_⟩
  rw [normal, hseg, if_pos habs]
  conv_rhs => rw [← hp, h, ofComponents_root hcs]

theorem IsFull.tidy {p : Path} (h : p.IsFull) : p.Tidy :=
  h.normal ▸ tidy_normal p

theorem IsFull.child {p : Path} (h : p.IsFull) {s : String} (hs : IsName s) :
    (p.child s).IsFull := by
  obtain ⟨ups, hups, -, hcomponents⟩ := h.components
  have hchild : (p.child s).components = .root :: (ups ++ (p.names ++ [s]).map .name) := by
    rw [components_child_name p hs, hcomponents]
    simp
  exact isFull_of_components (h.tidy.child_name hs) hups hchild

/-- The segments of a path that is spelled from the root. -/
theorem segments_of_components_root {p : Path} (hp : p.Tidy) {cs : List Component} (hne : cs ≠ [])
    (h : p.components = .root :: cs) : p.segments = "" :: cs.map Component.text := by
  have hsteps : ∀ c ∈ cs, c.IsStep := by
    have hspelled := spelled_components p
    rw [h] at hspelled
    exact hspelled.2
  have hroot : base ⟨"/"⟩ = [""] := by decide
  have hspelled : p = cs.foldl (fun q c => q.child c.text) ⟨"/"⟩ := by
    conv_lhs => rw [← hp, h]
    rfl
  rw [hspelled, segments_foldl_child _ hne hsteps, hroot]
  rfl

theorem components_of_isAbsolute {p : Path} (habs : p.isAbsolute = true) :
    p.components = .root :: steps p.segments := by
  rw [components_eq, lead, if_pos habs]
  rfl

end SourceWeb.Path

namespace SourceWeb.Disk

open SourceWeb.Path

/-! ### The paths of places -/

theorem isAbsolute_pathOf (at_ : Location) : (pathOf at_).isAbsolute = true := by
  simp [pathOf, isAbsolute]

theorem pathOf_eq {at_ : Location} (h : ∀ s ∈ at_, IsName s) :
    pathOf at_ = ofComponents (.root :: at_.map .name) := by
  rw [ofComponents_root (isStep_of_mem_map_name h), map_text_map_name, pathOf]

theorem components_pathOf {at_ : Location} (h : ∀ s ∈ at_, IsName s) :
    (pathOf at_).components = .root :: at_.map .name := by
  rw [pathOf_eq h, components_ofComponents (spelled_root (isStep_of_mem_map_name h))]

theorem tidy_pathOf {at_ : Location} (h : ∀ s ∈ at_, IsName s) : (pathOf at_).Tidy := by
  rw [Tidy, components_pathOf h, ← pathOf_eq h]

theorem isFull_pathOf {at_ : Location} (h : ∀ s ∈ at_, IsName s) : (pathOf at_).IsFull :=
  isFull_of_components (tidy_pathOf h) (.inl rfl) (components_pathOf h)

end SourceWeb.Disk
