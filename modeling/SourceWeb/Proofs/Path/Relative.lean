/-
  The way from one path to another, gone again.

  Between absolute paths without `.` and `..` the way goes up from what they do not share and then
  down.  Gone from where it starts, each `..` takes one name back, so what is left is what they
  share and the names of the way: the path that it leads to.
-/
import SourceWeb.Path.Normal
import SourceWeb.Proofs.Path.Below
import SourceWeb.Proofs.Path.Normal

namespace SourceWeb.Path

/-! ### Straight paths -/

/-- An absolute path without `.` and `..`, in whatever spelling. -/
structure Straight (p : Path) : Prop where
  absolute : p.isAbsolute = true
  not_here : .here ∉ p.components
  not_up : .up ∉ p.components

instance (p : Path) : Decidable p.Straight :=
  decidable_of_iff (p.isAbsolute = true ∧ .here ∉ p.components ∧ .up ∉ p.components)
    ⟨fun h => ⟨h.1, h.2.1, h.2.2⟩, fun h => ⟨h.absolute, h.not_here, h.not_up⟩⟩

theorem Straight.components_eq {p : Path} (h : p.Straight) :
    p.components = .root :: p.names.map .name := by
  have hcomponents := components_of_isAbsolute h.absolute
  have hsteps : ∀ c ∈ steps p.segments, c.IsStep := fun c => isStep_of_mem_steps
  have hnot : .up ∉ steps p.segments := fun hup => h.not_up (by simp [hcomponents, hup])
  rw [names, hcomponents, List.filterMap_cons_none rfl]
  refine congrArg (Component.root :: ·) ?_
  generalize steps p.segments = cs at hsteps hnot
  induction cs with
  | nil => rfl
  | cons c cs ih =>
    have hrest := ih (fun d hd => hsteps d (by simp [hd])) fun hup => hnot (by simp [hup])
    cases c with
    | root => exact (hsteps .root (by simp)).elim
    | here => exact (hsteps .here (by simp)).elim
    | up => simp at hnot
    | name s =>
      exact congrArg (Component.name s :: ·) hrest

/-! ### The way between component lists -/

theorem wayFrom_append (base cs : List Component) : wayFrom (base ++ cs) base = some cs := by
  induction base with
  | nil => cases cs <;> rfl
  | cons c base ih => simpa [wayFrom] using ih

/-- The way leads up from the names that are not shared, and then down. -/
theorem exists_wayFrom (names base : List String) :
    ∃ shared down left, names = shared ++ down ∧ base = shared ++ left ∧
      wayFrom (names.map .name) (base.map .name) =
        some (climb (left.map Component.name) ++ down.map .name) := by
  induction names generalizing base with
  | nil =>
    refine ⟨[], [], base, rfl, rfl, ?_⟩
    cases base <;> simp [wayFrom, wayApart]
  | cons s names ih =>
    cases base with
    | nil => exact ⟨[], s :: names, [], rfl, rfl, rfl⟩
    | cons t base =>
      by_cases hst : s = t
      · subst hst
        obtain ⟨shared, down, left, rfl, rfl, hway⟩ := ih base
        refine ⟨s :: shared, down, left, rfl, rfl, ?_⟩
        rw [List.map_cons, List.map_cons, wayFrom, if_pos rfl, hway]
      · refine ⟨[], s :: names, t :: base, rfl, rfl, ?_⟩
        rw [List.map_cons, List.map_cons, wayFrom, if_neg (by simpa using hst)]
        rfl

/-! ### Going the way -/

/-- Each `..` takes one name back. -/
theorem foldl_normalStep_climb (left : List Component) {names : List String}
    (h : names.length = left.length) (kept : List String) :
    (climb left).foldl normalStep (names ++ kept) = kept := by
  induction left generalizing names with
  | nil =>
    rw [List.eq_nil_of_length_eq_zero h]
    rfl
  | cons c left ih =>
    cases names with
    | nil => simp at h
    | cons s names =>
      simp only [climb, List.map_cons, List.foldl_cons, List.cons_append, normalStep]
      exact ih (by simpa using h)

/-- The way up to what is shared, and down from there, leads from the one list of names to the
    other. -/
theorem foldl_normalStep_way (shared down left : List String) :
    ((shared ++ left).map Component.name ++
        (climb (left.map Component.name) ++ down.map Component.name)).foldl normalStep [] =
      (shared ++ down).reverse := by
  rw [List.foldl_append, foldl_normalStep_names, List.foldl_append, List.append_nil,
    List.reverse_append, foldl_normalStep_climb _ (by simp), foldl_normalStep_names,
    List.reverse_append]

end SourceWeb.Path
