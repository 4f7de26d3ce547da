/-
  The components of a path, and the one spelling that has no superfluous slashes and dots.

  Reading one more name from a path adds one component, and the parent takes it away again.  Paths
  that are the same may be spelled differently; of all spellings of a path one is tidy, and tidy
  paths that are the same are equal.
-/
import SourceWeb.Proofs.Path.Segments

namespace SourceWeb

open SourceWeb.Text

/-- Can the text stand for one entry of a folder in a path? -/
def IsName (s : String) : Prop :=
  s ≠ "" ∧ s ≠ "." ∧ s ≠ ".." ∧ ¬ Holds '/' s

instance (s : String) : Decidable (IsName s) :=
  inferInstanceAs (Decidable (_ ∧ _))

namespace Path

/-! ### Steps -/

/-- A component that may stand behind others: a name, or the way up. -/
def Component.IsStep : Component → Prop
  | .root | .here => False
  | .up => True
  | .name s => IsName s

theorem Component.IsStep.text {c : Component} (h : c.IsStep) :
    c.text ≠ "" ∧ c.text ≠ "." ∧ ¬ Holds '/' c.text := by
  cases c with
  | root => exact h.elim
  | here => exact h.elim
  | up => exact ⟨by decide, by decide, by simp [Component.text, Holds]⟩
  | name s => exact ⟨h.1, h.2.1, h.2.2.2⟩

theorem ofSegment_text {c : Component} (h : c.IsStep) : ofSegment c.text = some c := by
  obtain ⟨hne, hdot, -⟩ := h.text
  cases c with
  | root => exact h.elim
  | here => exact h.elim
  | up => rfl
  | name s =>
    have hup : s ≠ ".." := h.2.2.1
    simp only [Component.text] at hne hdot ⊢
    simp [ofSegment, hne, hdot, hup]

theorem isStep_of_ofSegment {s : String} {c : Component} (hs : ¬ Holds '/' s)
    (h : ofSegment s = some c) : c.IsStep ∧ c.text = s := by
  unfold ofSegment at h
  split at h
  · simp at h
  · rename_i hidle
    push Not at hidle
    split at h
    · rename_i hup
      cases h
      exact ⟨trivial, hup.symm⟩
    · rename_i hup
      cases h
      exact ⟨⟨hidle.1, hidle.2, hup, hs⟩, rfl⟩

theorem isStep_of_mem_map_name {names : List String} (h : ∀ s ∈ names, IsName s) :
    ∀ c ∈ names.map Component.name, c.IsStep := by
  intro c hc
  obtain ⟨s, hs, rfl⟩ := List.mem_map.mp hc
  exact h s hs

theorem map_text_map_name (names : List String) :
    (names.map Component.name).map Component.text = names := by
  simp [Function.comp_def, Component.text]

/-! ### From segments to components -/

/-- The components that segments between slashes stand for. -/
def steps (segments : List String) : List Component :=
  segments.filterMap ofSegment

/-- The component that a path starts with before its steps, if any. -/
def lead (p : Path) : List Component :=
  if p.isAbsolute then [.root]
  else if p.segments.head? = some "." then [.here]
  else []

theorem components_eq (p : Path) : p.components = p.lead ++ steps p.segments := by
  unfold components lead steps
  by_cases habs : p.isAbsolute = true
  · simp [habs]
  · by_cases hdot : p.segments.head? = some "."
    · simp [habs, hdot]
    · simp [habs, hdot]

@[simp] theorem steps_append (l m : List String) : steps (l ++ m) = steps l ++ steps m :=
  List.filterMap_append

theorem isStep_of_mem_steps {p : Path} {c : Component} (h : c ∈ steps p.segments) : c.IsStep := by
  obtain ⟨s, hs, hc⟩ := List.mem_filterMap.mp h
  exact (isStep_of_ofSegment (not_holds_of_mem_segments hs) hc).1

theorem steps_base (p : Path) : steps p.base = steps p.segments := by
  rcases segments_eq_base_or p with h | h
  · rw [← h]
  · rw [h, steps_append]
    simp [steps, ofSegment]

/-! ### Joining -/

theorem join_of_text_eq_empty {p q : Path} (hp : p.text = "") (hq : q.isAbsolute = false) :
    p.join q = q := by
  simp [join, hq, hp]

theorem text_join_head {p q : Path} (hp : p.text ≠ "") (hq : q.isAbsolute = false) :
    (p.join q).text.toList.head? = p.text.toList.head? := by
  obtain ⟨c, cs, htext⟩ := List.exists_cons_of_ne_nil (show p.text.toList ≠ [] by simpa using hp)
  simp only [join, hq, Bool.false_eq_true, if_false]
  split <;> simp [htext]

theorem lead_join {p q : Path} (hp : p.text ≠ "") (hq : q.isAbsolute = false) :
    (p.join q).lead = p.lead := by
  have habs : (p.join q).isAbsolute = p.isAbsolute := by
    simp only [isAbsolute, text_join_head hp hq]
  have hbase : (p.join q).segments.head? = p.segments.head? := by
    obtain ⟨first, rest, hcons⟩ := List.exists_cons_of_ne_nil (base_ne_nil hp)
    rw [segments_join hq]
    rcases segments_eq_base_or p with h | h <;> simp [h, hcons]
  simp only [lead, habs, hbase]

/-- What is read from a path comes behind its components. -/
theorem components_join {p q : Path} (hp : p.text ≠ "") (hq : q.isAbsolute = false) :
    (p.join q).components = p.components ++ steps q.segments := by
  rw [components_eq, components_eq, lead_join hp hq, segments_join hq, steps_append, steps_base,
    List.append_assoc]

theorem components_of_text_eq_empty {p : Path} (hp : p.text = "") : p.components = [] := by
  have : p = ⟨""⟩ := ext_text hp
  rw [this]
  rfl

theorem components_segment {c : Component} (h : c.IsStep) : components ⟨c.text⟩ = [c] := by
  obtain ⟨-, hdot, hslash⟩ := h.text
  rw [components_eq, lead, segments_of_not_holds hslash, isAbsolute_eq_false_of_segment hslash]
  simp [steps, ofSegment_text h, hdot]

/-- Reading one more step from a path adds this component. -/
theorem components_child (p : Path) {c : Component} (h : c.IsStep) :
    (p.child c.text).components = p.components ++ [c] := by
  have hrel : isAbsolute ⟨c.text⟩ = false := isAbsolute_eq_false_of_segment h.text.2.2
  by_cases hp : p.text = ""
  · rw [child, join_of_text_eq_empty hp hrel, components_of_text_eq_empty hp,
      components_segment h, List.nil_append]
  · rw [child, components_join hp hrel, segments_of_not_holds h.text.2.2]
    simp [steps, ofSegment_text h]

theorem components_child_name (p : Path) {s : String} (h : IsName s) :
    (p.child s).components = p.components ++ [.name s] :=
  components_child p (c := .name s) h

/-- Going down step after step adds these components. -/
theorem components_foldl_child (p : Path) {cs : List Component} (h : ∀ c ∈ cs, c.IsStep) :
    (cs.foldl (fun q c => q.child c.text) p).components = p.components ++ cs := by
  induction cs generalizing p with
  | nil => simp
  | cons c cs ih =>
    rw [List.foldl_cons, ih _ fun d hd => h d (by simp [hd]), components_child p (h c (by simp))]
    simp

/-! ### Which lists are components -/

/-- A list of components as paths have them: steps, but for the first, which may be the root or the
    current directory. -/
def Spelled : List Component → Prop
  | [] => True
  | c :: cs => (c = .root ∨ c = .here ∨ c.IsStep) ∧ ∀ d ∈ cs, d.IsStep

theorem spelled_of_steps {cs : List Component} (h : ∀ c ∈ cs, c.IsStep) : Spelled cs := by
  cases cs with
  | nil => trivial
  | cons c cs => exact ⟨.inr (.inr (h c (by simp))), fun d hd => h d (by simp [hd])⟩

theorem spelled_root {cs : List Component} (h : ∀ c ∈ cs, c.IsStep) : Spelled (.root :: cs) :=
  ⟨.inl rfl, h⟩

theorem spelled_components (p : Path) : Spelled p.components := by
  have h : ∀ c ∈ steps p.segments, c.IsStep := fun c => isStep_of_mem_steps
  rw [components_eq]
  unfold lead
  split
  · exact spelled_root h
  · split
    · exact ⟨.inr (.inl rfl), h⟩
    · exact spelled_of_steps h

theorem Spelled.of_append {cs ds : List Component} (h : Spelled (cs ++ ds)) : Spelled cs := by
  cases cs with
  | nil => trivial
  | cons c cs => exact ⟨h.1, fun d hd => h.2 d (by simp [hd])⟩

theorem Spelled.of_append_append {cs ds es : List Component} (h : Spelled (cs ++ (ds ++ es))) :
    Spelled (cs ++ ds) := by
  rw [← List.append_assoc] at h
  exact h.of_append

theorem components_singleton {c : Component} (h : c = .root ∨ c = .here ∨ c.IsStep) :
    (child ⟨""⟩ c.text).components = [c] := by
  rcases h with rfl | rfl | h
  · decide
  · decide
  · rw [components_child _ h, components_of_text_eq_empty rfl, List.nil_append]

theorem components_root : components ⟨"/"⟩ = [.root] :=
  components_singleton (c := .root) (.inl rfl)

/-- The spelling of a list of components has these components. -/
theorem components_ofComponents {cs : List Component} (h : Spelled cs) :
    (ofComponents cs).components = cs := by
  cases cs with
  | nil => rfl
  | cons c cs =>
    have hfirst : ofComponents (c :: cs) =
        cs.foldl (fun q c => q.child c.text) (child ⟨""⟩ c.text) :=
      rfl
    rw [hfirst, components_foldl_child _ h.2, components_singleton h.1, List.singleton_append]

theorem ofComponents_append_singleton (cs : List Component) (c : Component) :
    ofComponents (cs ++ [c]) = (ofComponents cs).child c.text := by
  simp [ofComponents]

/-! ### Tidy paths -/

/-- Is the path spelled as its components spell it, without further slashes and dots? -/
def Tidy (p : Path) : Prop :=
  ofComponents p.components = p

theorem Tidy.eq_of_same {p q : Path} (hp : p.Tidy) (hq : q.Tidy) (h : p.same q = true) : p = q := by
  have h : p.components = q.components := by simpa [same] using h
  rw [← hp, ← hq, h]

theorem tidy_ofComponents {cs : List Component} (h : Spelled cs) : (ofComponents cs).Tidy := by
  rw [Tidy, components_ofComponents h]

/-- A tidy path is empty, the root, the current directory, or one step down from a tidy path. -/
theorem Tidy.exists_child {p : Path} (hp : p.Tidy) :
    (p = ⟨""⟩ ∨ p = ⟨"/"⟩ ∨ p = ⟨"."⟩) ∨
      ∃ (q : Path) (c : Component), q.Tidy ∧ c.IsStep ∧ p = q.child c.text := by
  have hspelled := spelled_components p
  unfold Tidy at hp
  rcases List.eq_nil_or_concat p.components with h | ⟨cs, c, h⟩
  · rw [h] at hp
    exact .inl (.inl hp.symm)
  · rw [List.concat_eq_append] at h
    rw [h] at hp hspelled
    by_cases hc : c.IsStep
    · rw [ofComponents_append_singleton] at hp
      exact .inr ⟨_, c, tidy_ofComponents hspelled.of_append, hc, hp.symm⟩
    · cases cs with
      | cons d ds => exact absurd (hspelled.2 c (by simp)) hc
      | nil =>
        rcases hspelled.1 with rfl | rfl | hstep
        · exact .inl (.inr (.inl hp.symm))
        · exact .inl (.inr (.inr hp.symm))
        · exact absurd hstep hc

theorem Tidy.child {p : Path} (hp : p.Tidy) {c : Component} (h : c.IsStep) :
    (p.child c.text).Tidy := by
  rw [Tidy, components_child p h, ofComponents_append_singleton, hp]

theorem Tidy.child_name {p : Path} (hp : p.Tidy) {s : String} (h : IsName s) :
    (p.child s).Tidy :=
  hp.child (c := .name s) h

theorem same_iff {p q : Path} : p.same q = true ↔ p.components = q.components := by
  simp [same]

@[simp] theorem same_refl (p : Path) : p.same p = true := by
  simp [same]

theorem same_symm {p q : Path} (h : p.same q = true) : q.same p = true := by
  rw [same_iff] at h ⊢
  exact h.symm

end Path

end SourceWeb
