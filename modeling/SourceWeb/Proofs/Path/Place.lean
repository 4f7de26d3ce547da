/-
  The place that a path denotes where there are no links.

  The components of a path spell its place out: a name goes down, `..` takes the name before it back
  or goes up, and stays at the root.  What they come to is a number of ways up and the names behind
  them.  The normal spelling keeps the names, but of the ways up only whether their number is odd:
  a second `..` takes the first one back as if it were a name.
-/
import Mathlib.Data.List.Flatten
import Mathlib.Data.List.Induction
import Mathlib.Data.String.Basic
import SourceWeb.Proofs.Path.Normal

namespace SourceWeb

open SourceWeb.Text

/-! ### The place of a path -/

namespace Path

/-- The place that a component leads to from another one. -/
def Component.place (at_ : Location) : Component → Location
  | .root => []
  | .here => at_
  | .up => at_.dropLast
  | .name s => at_ ++ [s]

/-- The place that a path denotes, read from the current directory, where there are no links. -/
def place (p : Path) (here : Location) : Location :=
  p.components.foldl Component.place here

/-- What components come to: how many of them go up although no name before is left to take back,
    and the names that stay behind these, the last of them first. -/
structure Reduced where
  ups : Nat
  names : List String

namespace Reduced

/-- One component more. -/
def step (r : Reduced) : Component → Reduced
  | .root => r
  | .here => r
  | .up =>
    match r.names with
    | _ :: names => ⟨r.ups, names⟩
    | [] => ⟨r.ups + 1, []⟩
  | .name s => ⟨r.ups, s :: r.names⟩

/-- What a list of components comes to. -/
def of (cs : List Component) : Reduced :=
  cs.foldl step ⟨0, []⟩

/-- The place that the ways up lead to from another one. -/
def base (r : Reduced) (start : Location) : Location :=
  start.take (start.length - r.ups)

/-- The place that is denoted, read from another one. -/
def place (r : Reduced) (start : Location) : Location :=
  r.base start ++ r.names.reverse

/-- What the normal spelling keeps, the last of it first. -/
def kept (r : Reduced) : List String :=
  r.names ++ List.replicate (r.ups % 2) ".."

theorem of_concat (cs : List Component) (c : Component) : of (cs ++ [c]) = (of cs).step c := by
  simp [of]

theorem base_succ (ups : Nat) (names names' : List String) (start : Location) :
    (Reduced.mk (ups + 1) names).base start = ((Reduced.mk ups names').base start).dropLast := by
  simp only [base, List.dropLast_eq_take, List.take_take, List.length_take]
  congr 1
  omega

theorem place_step (r : Reduced) (start : Location) {c : Component} (hc : c ≠ .root) :
    (r.step c).place start = c.place (r.place start) := by
  obtain ⟨ups, names⟩ := r
  cases c with
  | root => exact absurd rfl hc
  | here => rfl
  | name s => simp [step, place, base, Component.place]
  | up =>
    cases names with
    | cons s names => simp [step, place, base, Component.place, List.dropLast_append_of_ne_nil]
    | nil => simp [step, place, Component.place, base_succ ups [] []]

/-- Two `..` without a name before them leave nothing behind. -/
theorem kept_step (r : Reduced) (c : Component) : (r.step c).kept = normalStep r.kept c := by
  obtain ⟨ups, names⟩ := r
  cases c with
  | root => rfl
  | here => rfl
  | name s => rfl
  | up =>
    cases names with
    | cons s names => rfl
    | nil =>
      rcases Nat.mod_two_eq_zero_or_one ups with h | h
      · have hnext : (ups + 1) % 2 = 1 := by omega
        simp [step, kept, normalStep, h, hnext]
      · have hnext : (ups + 1) % 2 = 0 := by omega
        simp [step, kept, normalStep, h, hnext]

end Reduced

/-- What the components of the path come to. -/
def reduced (p : Path) : Reduced :=
  Reduced.of p.components

/-- How far the path rises above the place that it is read from. -/
def rise (p : Path) : Nat :=
  p.reduced.ups

/-- What the steps behind the lead of a path do, the root as a start apart. -/
theorem foldl_components {α : Type} (f : α → Component → α) (start : α)
    (hhere : f start .here = start) (p : Path) :
    p.components.foldl f start =
      (steps p.segments).foldl f (if p.isAbsolute then f start .root else start) := by
  rw [components_eq, List.foldl_append, lead]
  split
  · rfl
  · split
    · simp [hhere]
    · rfl

theorem ne_root_of_mem_steps {p : Path} {c : Component} (h : c ∈ steps p.segments) : c ≠ .root := by
  rintro rfl
  exact isStep_of_mem_steps h

theorem reduced_eq (p : Path) : p.reduced = Reduced.of (steps p.segments) := by
  rw [reduced, Reduced.of, foldl_components _ _ rfl, Reduced.step, ite_self, Reduced.of]

/-- The place of a path, by what its components come to. -/
theorem place_eq (p : Path) (here : Location) :
    p.place here = p.reduced.place (if p.isAbsolute then [] else here) := by
  have hfold : ∀ (start : Location) (cs : List Component), (∀ c ∈ cs, c ≠ .root) → ∀ r : Reduced,
      (cs.foldl Reduced.step r).place start = cs.foldl Component.place (r.place start) := by
    intro start cs hcs
    induction cs with
    | nil => exact fun r => rfl
    | cons c cs ih =>
      intro r
      rw [List.foldl_cons, List.foldl_cons, ih (fun d hd => hcs d (by simp [hd])),
        r.place_step start (hcs c (by simp))]
  rw [place, foldl_components _ _ rfl, reduced_eq, Reduced.of,
    hfold _ _ fun c => ne_root_of_mem_steps]
  simp [Reduced.place, Reduced.base, Component.place]

/-- What the normal spelling keeps of a path: of the leading `..` only whether they are odd. -/
theorem normalSegments_eq (p : Path) : p.normalSegments = p.reduced.kept.reverse := by
  have hfold : ∀ (cs : List Component) (r : Reduced),
      (cs.foldl Reduced.step r).kept = cs.foldl normalStep r.kept := by
    intro cs
    induction cs with
    | nil => exact fun r => rfl
    | cons c cs ih =>
      intro r
      rw [List.foldl_cons, List.foldl_cons, ih, r.kept_step]
  rw [normalSegments, reduced, Reduced.of, hfold]
  rfl

theorem Reduced.isName_of_mem {cs : List Component} (hcs : ∀ s, .name s ∈ cs → IsName s)
    {s : String} (h : s ∈ (of cs).names) : IsName s := by
  induction cs using List.reverseRecOn generalizing s with
  | nil => simp [of] at h
  | append_singleton cs c ih =>
    have hbefore : ∀ t ∈ (of cs).names, IsName t := fun t ht =>
      ih (fun u hu => hcs u (by simp [hu])) ht
    rw [of_concat] at h
    cases c with
    | root | here => exact hbefore s h
    | name t =>
      rcases List.mem_cons.mp h with rfl | h
      · exact hcs s (by simp)
      · exact hbefore s h
    | up =>
      rw [step] at h
      split at h
      · rename_i t names hnames
        exact hbefore s (by simp [hnames, h])
      · simp at h

theorem steps_normalSegments (p : Path) : steps p.normalSegments =
    List.replicate (p.rise % 2) .up ++ p.reduced.names.reverse.map .name := by
  have hnames := fun s (hs : s ∈ p.reduced.names.reverse) =>
    Reduced.isName_of_mem (fun _ => isName_of_mem_components) (List.mem_reverse.mp hs)
  rw [normalSegments_eq, Reduced.kept, List.reverse_append, List.reverse_replicate, steps_append,
    ← map_text_map_name p.reduced.names.reverse, steps_map_text (isStep_of_mem_map_name hnames),
    map_text_map_name]
  rcases Nat.mod_two_eq_zero_or_one p.reduced.ups with h | h <;> rw [rise, h] <;> rfl

/-- The normal spelling rises by one `..` at most. -/
theorem reduced_normal (p : Path) : p.normal.reduced = ⟨p.rise % 2, p.reduced.names⟩ := by
  have hdown : ∀ (names : List String) (r : Reduced),
      (names.map Component.name).foldl Reduced.step r = ⟨r.ups, names.reverse ++ r.names⟩ := by
    intro names
    induction names with
    | nil => exact fun r => rfl
    | cons s names ih =>
      intro r
      simp [ih, Reduced.step]
  have hlead : p.normal.reduced = Reduced.of (steps p.normalSegments) := by
    rw [reduced, Reduced.of, components_normal, List.foldl_append]
    cases p.isAbsolute <;> rfl
  rw [hlead, steps_normalSegments, Reduced.of, List.foldl_append, hdown, List.reverse_reverse]
  rcases Nat.mod_two_eq_zero_or_one p.rise with h | h <;> rw [h] <;> simp [Reduced.step]

/-- Does working off `.` and `..` leave the place alone that the path denotes?  It does for an
    absolute path and for one that rises by one `..` at most; else two of them cancel out, and that
    does not show only if so few levels are above the current directory. -/
def KeepsPlace (p : Path) (here : Location) : Prop :=
  p.isAbsolute = true ∨ p.rise ≤ 1 ∨ here.length ≤ p.rise % 2

instance decidableKeepsPlace (p : Path) (here : Location) : Decidable (p.KeepsPlace here) :=
  inferInstanceAs (Decidable (_ ∨ _ ∨ _))

theorem base_normal_eq_iff (p : Path) (here : Location) :
    p.normal.reduced.base (if p.isAbsolute then [] else here) =
      p.reduced.base (if p.isAbsolute then [] else here) ↔ p.KeepsPlace here := by
  rw [reduced_normal, KeepsPlace, Reduced.base, Reduced.base, ← rise]
  by_cases habs : p.isAbsolute = true
  · simp [habs]
  · simp only [habs, Bool.false_eq_true, if_false, false_or]
    constructor
    · intro h
      have hlen := congrArg List.length h
      rw [List.length_take, List.length_take] at hlen
      omega
    · intro h
      congr 1
      omega

theorem place_normal_eq_iff (p : Path) (here : Location) :
    p.normal.place here = p.place here ↔ p.KeepsPlace here := by
  have hnames : p.normal.reduced.names = p.reduced.names := by rw [reduced_normal]
  rw [place_eq, place_eq, isAbsolute_normal, Reduced.place, Reduced.place, hnames,
    List.append_cancel_right_eq]
  exact base_normal_eq_iff p here

/-! ### What the normal spelling is made of -/

/-- What is kept stands among what was there, in the same order. -/
theorem sublist_foldl_normalStep {cs : List Component} (h : ∀ c ∈ cs, c.IsStep) :
    (cs.foldl normalStep []).reverse.Sublist (cs.map Component.text) := by
  induction cs using List.reverseRecOn with
  | nil => exact List.nil_sublist _
  | append_singleton cs c ih =>
    have ih := ih fun d hd => h d (by simp [hd])
    rw [List.foldl_append, List.foldl_cons, List.foldl_nil, List.map_append, List.map_singleton]
    cases c with
    | root => exact (h .root (by simp)).elim
    | here => exact (h .here (by simp)).elim
    | name s =>
      rw [normalStep, List.reverse_cons]
      exact ih.append (List.Sublist.refl _)
    | up =>
      cases hkept : cs.foldl normalStep [] with
      | nil => exact List.sublist_append_right _ _
      | cons s kept =>
        rw [hkept, List.reverse_cons] at ih
        exact ((List.sublist_append_left _ _).trans ih).trans (List.sublist_append_left _ _)

theorem toList_slash_intercalate {l : List String} (hne : l ≠ []) :
    ("/" ++ "/".intercalate l).toList = l.flatMap fun s => '/' :: s.toList := by
  induction l with
  | nil => exact absurd rfl hne
  | cons s l ih =>
    cases l with
    | nil => simp
    | cons t l =>
      rw [String.intercalate_cons_cons, List.flatMap_cons, ← ih (by simp)]
      simp

/-- A text that characters are left out of does not become longer. -/
theorem size_le_of_sublist {s t : String} (h : s.toList.Sublist t.toList) :
    s.utf8ByteSize ≤ t.utf8ByteSize := by
  have hsize := String.utf8Len_le_of_sublist h
  rwa [← String.utf8ByteSize_ofList, ← String.utf8ByteSize_ofList, String.ofList_toList,
    String.ofList_toList] at hsize

/-- The normal spelling of an absolute path leaves characters out, and adds none. -/
theorem toList_normal_sublist {p : Path} (habs : p.isAbsolute = true) :
    p.normal.text.toList.Sublist p.text.toList := by
  obtain ⟨s, rest, hseg⟩ := isAbsolute_iff.mp habs
  have htext : p.text = "/" ++ "/".intercalate (s :: rest) := by
    rw [slash_append_intercalate (by simp), ← hseg, intercalate_segments]
  have hkept : p.normalSegments.Sublist (s :: rest) := by
    have hsteps : ∀ c ∈ steps p.segments, c.IsStep := fun c => isStep_of_mem_steps
    have hsub := sublist_foldl_normalStep hsteps
    have hfold : p.components.foldl normalStep [] = (steps p.segments).foldl normalStep [] := by
      rw [foldl_components _ _ rfl, normalStep, ite_self]
    rw [map_text_steps, hseg, List.filter_cons_of_neg (by decide)] at hsub
    rw [normalSegments, hfold, hseg]
    exact hsub.trans List.filter_sublist
  rw [normal, if_pos habs, htext, toList_slash_intercalate (List.cons_ne_nil s rest)]
  by_cases hnil : p.normalSegments = []
  · rw [hnil]
    simp
  · rw [toList_slash_intercalate hnil]
    exact hkept.flatMap _

/-- The normal spelling of an absolute path is no longer than the path. -/
theorem size_normal_le {p : Path} (habs : p.isAbsolute = true) :
    p.normal.text.utf8ByteSize ≤ p.text.utf8ByteSize :=
  size_le_of_sublist (toList_normal_sublist habs)

end Path

end SourceWeb
