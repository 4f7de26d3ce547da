/-
  Chains of names: what stands at the end of one, and the path that it spells from a directory.
-/
import SourceWeb.Proofs.Disk.Proper
import SourceWeb.Proofs.Path.Below

namespace SourceWeb

open SourceWeb.Path

/-- What stands at the end of a chain of names from an entry; links are not followed. -/
def Entry.at? : Entry → List String → Option Entry
  | .folder inside, names => inside.at? names
  | e, [] => some e
  | _, _ :: _ => none

theorem Entry.at?_eq_some {e : Entry} (he : ∀ f, e ≠ .folder f) {names : List String} {e' : Entry} :
    e.at? names = some e' ↔ names = [] ∧ e = e' := by
  cases e with
  | folder f => exact absurd rfl (he f)
  | file content | link target | special => cases names <;> simp [at?]

theorem Folder.at?_cons_eq (f : Folder) (name : String) (names : List String) :
    f.at? (name :: names) = (f.get? name).bind fun e => e.at? names := by
  rw [at?_cons]
  cases f.get? name with
  | none => rfl
  | some e => cases names <;> cases e <;> rfl

/-- A chain of names in a folder starts at its first entry or at one of the others. -/
theorem Folder.exists_at?_cons {name : String} {e : Entry} {others : Folder}
    (hnew : others.get? name = none) {P : List String → Entry → Prop}
    (hP : ∀ f, ¬ P [] (.folder f)) :
    (∃ names e', (cons name e others).at? names = some e' ∧ P names e') ↔
      (∃ names e', e.at? names = some e' ∧ P (name :: names) e') ∨
        ∃ names e', others.at? names = some e' ∧ P names e' := by
  constructor
  · rintro ⟨names, e', hat, hp⟩
    cases names with
    | nil =>
      cases hat
      exact absurd hp (hP _)
    | cons n names =>
      rw [at?_cons_eq, get?_cons] at hat
      by_cases hn : n = name
      · rw [if_pos hn, Option.bind_some] at hat
        exact .inl ⟨names, e', hat, hn ▸ hp⟩
      · rw [if_neg hn, ← at?_cons_eq] at hat
        exact .inr ⟨n :: names, e', hat, hp⟩
  · rintro (⟨names, e', hat, hp⟩ | ⟨names, e', hat, hp⟩)
    · refine ⟨name :: names, e', ?_, hp⟩
      rw [at?_cons_eq, get?_cons, if_pos rfl, Option.bind_some, hat]
    · cases names with
      | nil =>
        cases hat
        exact absurd hp (hP _)
      | cons n names =>
        refine ⟨n :: names, e', ?_, hp⟩
        have hn : n ≠ name := by
          rintro rfl
          rw [at?_cons_eq, hnew] at hat
          simp at hat
        rw [at?_cons_eq, get?_cons, if_neg hn, ← at?_cons_eq, hat]

namespace Path

def downNames (p : Path) (names : List String) : Path :=
  p.down (names.map .name)

theorem downNames_singleton (p : Path) (name : String) : p.downNames [name] = p.child name :=
  rfl

theorem downNames_cons (p : Path) (name : String) (names : List String) :
    p.downNames (name :: names) = (p.child name).downNames names :=
  rfl

theorem components_downNames (p : Path) {names : List String} (h : ∀ s ∈ names, IsName s) :
    (p.downNames names).components = p.components ++ names.map .name :=
  components_foldl_child p (isStep_of_mem_map_name h)

theorem downNames_concat (p : Path) (names : List String) (name : String) :
    p.downNames (names ++ [name]) = (p.downNames names).child name := by
  rw [downNames, List.map_append, down_append]
  rfl

theorem Tidy.downNames {p : Path} (hp : p.Tidy) {names : List String} (h : ∀ s ∈ names, IsName s) :
    (p.downNames names).Tidy := by
  induction names generalizing p with
  | nil => exact hp
  | cons name names ih =>
    obtain ⟨hname, hnames⟩ := List.forall_mem_cons.mp h
    exact ih (hp.child_name hname) hnames

theorem IsFull.downNames {p : Path} (hp : p.IsFull) {names : List String}
    (h : ∀ s ∈ names, IsName s) : (p.downNames names).IsFull := by
  induction names generalizing p with
  | nil => exact hp
  | cons name names ih =>
    obtain ⟨hname, hnames⟩ := List.forall_mem_cons.mp h
    exact ih (hp.child hname) hnames

theorem parent?_child_name (p : Path) {name : String} (h : IsName name) :
    (p.child name).parent? = some p.trimmed :=
  parent?_child p (c := .name name) h

theorem trimmed_child_name (p : Path) {name : String} (h : IsName name) :
    (p.child name).trimmed = p.child name :=
  trimmed_child p (c := .name name) h

theorem text_child_ne_empty (p : Path) {name : String} (h : IsName name) :
    (p.child name).text ≠ "" := by
  intro hempty
  have hcomponents := components_child_name p h
  rw [components_of_text_eq_empty hempty] at hcomponents
  simp at hcomponents

end Path

/-- What names lead to in a folder stands at the end of the path that they spell. -/
theorem Disk.Stands.downNames {d : Disk} {p : Path} (hp : p.text ≠ "") {f : Folder}
    (h : d.Stands p (.folder f)) {names : List String} (hnames : ∀ s ∈ names, IsName s) {e : Entry}
    (hat : f.at? names = some e) (hlink : ∀ target, e ≠ .link target) :
    d.Stands (p.downNames names) e := by
  induction names generalizing p f with
  | nil =>
    cases hat
    exact h
  | cons name names ih =>
    have hname : IsName name := hnames name (by simp)
    rw [Folder.at?_cons_eq, Option.bind_eq_some_iff] at hat
    obtain ⟨e', hget, hat⟩ := hat
    rw [downNames_cons]
    cases e' with
    | folder inside =>
      exact ih (p.text_child_ne_empty hname) (h.child hp hname hget (by simp))
        (fun s hs => hnames s (by simp [hs])) hat
    | file content | special =>
      obtain ⟨rfl, rfl⟩ := (Entry.at?_eq_some (by simp)).mp hat
      exact h.child hp hname hget (by simp)
    | link target =>
      obtain ⟨rfl, rfl⟩ := (Entry.at?_eq_some (by simp)).mp hat
      exact absurd rfl (hlink target)

/-- Can the directories be listed that names lead through, the one they start from included? -/
def Disk.opensAlong (d : Disk) : Path → List String → Bool
  | _, [] => true
  | dir, name :: names => d.canList dir && d.opensAlong (dir.child name) names

/-- Do names, or a symbolic link at the end of names, lead from a directory down to a file?  The
    names pass real directories only, and those that can be listed. -/
def Disk.FileBelow (d : Disk) (dir p : Path) : Prop :=
  ∃ f names e, d.entry? dir = .ok (.folder f) ∧ f.at? names = some e ∧ p = dir.downNames names ∧
    d.opensAlong dir names = true ∧
    ((∃ content, e = .file content) ∨ (∃ target, e = .link target) ∧ d.isFile p = true)

end SourceWeb
