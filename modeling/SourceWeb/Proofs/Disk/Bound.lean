/-
  How long a path to something can be.

  Names in a path that leads somewhere go down in the tree, at most as deep as the tree is, until a
  link is followed, and links are counted.  So a path without idle segments that leads anywhere has
  boundedly many segments, all of them names in the tree; there are only so many of these.
-/
import SourceWeb.Discovery.Run
import SourceWeb.Proofs.Disk.Lookup

namespace SourceWeb

open SourceWeb.Text

/-! ### The names in a tree -/

namespace Folder

/-- The names in a folder and below it. -/
def allNames : Folder → List String
  | empty => []
  | file name _ others => name :: others.allNames
  | link name _ others | special name others => name :: others.allNames
  | folder name inside others => name :: (inside.allNames ++ others.allNames)

theorem length_allNames (f : Folder) : f.allNames.length = Discovery.nameCount f := by
  induction f with
  | empty => rfl
  | file name content others ih => simp [allNames, Discovery.nameCount, ih]
  | link name target others ih => simp [allNames, Discovery.nameCount, ih]
  | special name others ih => simp [allNames, Discovery.nameCount, ih]
  | folder name inside others ihi iho => simp [allNames, Discovery.nameCount, ihi, iho]

theorem mem_entries_of_get? {f : Folder} {s : String} {e : Entry} (h : f.get? s = some e) :
    (s, e) ∈ f.entries := by
  obtain ⟨l, m, hlm, -⟩ := List.lookup_eq_some_iff.mp h
  simp [hlm]

theorem mem_allNames_of_mem_entries {f : Folder} {s : String} {e : Entry}
    (h : (s, e) ∈ f.entries) : s ∈ f.allNames := by
  induction f with
  | empty => simp [entries] at h
  | file name content others ih | link name content others ih | special name others ih =>
    rcases List.mem_cons.mp h with h | h
    · simp [allNames, (Prod.mk.inj h).1]
    · simp [allNames, ih h]
  | folder name inside others _ ih =>
    rcases List.mem_cons.mp h with h | h
    · simp [allNames, (Prod.mk.inj h).1]
    · simp [allNames, ih h]

/-- A folder in a folder has fewer names, all of them names of the outer one. -/
theorem allNames_inside {f g : Folder} {s : String} (h : (s, .folder g) ∈ f.entries) :
    g.allNames ⊆ f.allNames ∧ g.allNames.length < f.allNames.length := by
  induction f with
  | empty => simp [entries] at h
  | file name content others ih | link name content others ih | special name others ih =>
    rcases List.mem_cons.mp h with h | h
    · simp at h
    · obtain ⟨hsub, hlen⟩ := ih h
      refine ⟨fun t ht => List.mem_cons_of_mem _ (hsub ht), ?_⟩
      simp only [allNames, List.length_cons]
      omega
  | folder name inside others _ ih =>
    simp only [allNames, List.length_cons, List.length_append]
    rcases List.mem_cons.mp h with h | h
    · simp only [Prod.mk.injEq, Entry.folder.injEq] at h
      rw [h.2]
      exact ⟨fun t ht => by simp [ht], by omega⟩
    · obtain ⟨hsub, hlen⟩ := ih h
      exact ⟨fun t ht => by simp [hsub ht], by omega⟩

/-- The names that lead to a place are names of the tree, and no more than it has. -/
theorem names_of_at? {f : Folder} {names : List String} (h : (f.at? names).isSome) :
    (∀ s ∈ names, s ∈ f.allNames) ∧ names.length ≤ f.allNames.length := by
  induction names generalizing f with
  | nil => simp
  | cons n ns ih =>
    rw [at?_cons] at h
    cases hget : f.get? n with
    | none => simp [hget] at h
    | some e =>
      have hn := mem_entries_of_get? hget
      have hmem := mem_allNames_of_mem_entries hn
      cases ns with
      | nil => exact ⟨by simpa using hmem, List.length_pos_of_mem hmem⟩
      | cons n' ns =>
        cases e with
        | folder inside =>
          simp only [hget] at h
          obtain ⟨hsub, hlen⟩ := allNames_inside hn
          obtain ⟨hin, hle⟩ := ih h
          refine ⟨?_, by rw [List.length_cons]; omega⟩
          intro s hs
          rcases List.mem_cons.mp hs with rfl | hs
          · exact hmem
          · exact hsub (hin s hs)
        | file content | link target | special => simp [hget] at h

end Folder

/-! ### The names in a path -/

namespace Disk

/-- Where a look-up arrives before its last segments, and how it goes on from there. -/
theorem walk_append {root : Folder} {jump : Location → List String → Except OsError Location}
    {at_ loc : Location} {todo rest : List String}
    (h : walk root .find jump at_ (todo ++ rest) = .ok loc) :
    (∃ mid, walk root .find jump at_ todo = .ok mid ∧ walk root .find jump mid rest = .ok loc) ∨
      ∃ at' todo', walk root .find jump at_ todo = jump at' todo' ∧
        jump at' (todo' ++ rest) = .ok loc := by
  induction todo generalizing at_ with
  | nil => exact .inl ⟨at_, rfl, h⟩
  | cons s todo ih =>
    rw [List.cons_append, walk_cons] at h
    rcases h with ⟨mid, hstride, h⟩ | ⟨start, target, hstride, h⟩
    · rw [walk_cons_to hstride]
      exact ih h
    · rw [← List.append_assoc] at h
      exact .inr ⟨_, _, walk_cons_link hstride, h⟩

/-- The names that a look-up can follow, if those behind a jump are at most `b`. -/
theorem names_of_walk {root : Folder} {b : Nat}
    {jump : Location → List String → Except OsError Location}
    (hjump : ∀ at_ todo names loc, (∀ s ∈ names, IsName s) → jump at_ (todo ++ names) = .ok loc →
      (∀ s ∈ names, s ∈ root.allNames) ∧ names.length ≤ b)
    {at_ : Location} {names : List String} {loc : Location} (hnames : ∀ s ∈ names, IsName s)
    (h : walk root .find jump at_ names = .ok loc) :
    (∀ s ∈ names, s ∈ root.allNames) ∧
      names.length ≤ b + 1 + (root.allNames.length - at_.length) := by
  induction names generalizing at_ with
  | nil => simp
  | cons s names ih =>
    have hrest : ∀ t ∈ names, IsName t := fun t ht => hnames t (by simp [ht])
    -- what the name stands for has its place in the tree
    have hplace : (root.at? (at_ ++ [s])).isSome →
        s ∈ root.allNames ∧ at_.length + 1 ≤ root.allNames.length := by
      intro hat
      obtain ⟨hmem, hlen⟩ := Folder.names_of_at? hat
      rw [List.length_append, List.length_singleton] at hlen
      exact ⟨hmem s (by simp), hlen⟩
    rw [List.length_cons]
    rcases walk_cons.mp h with ⟨mid, hstride, h⟩ | ⟨start, target, hstride, h⟩
    · obtain ⟨rfl, e, hat, -⟩ := stride_name (hnames s (by simp)) hstride
      obtain ⟨hs, hdeep⟩ := hplace (by simp [hat])
      obtain ⟨hin, hlen⟩ := ih hrest h
      rw [List.length_append, List.length_singleton] at hlen
      exact ⟨List.forall_mem_cons.mpr ⟨hs, hin⟩, by omega⟩
    · obtain ⟨hs, -⟩ := hplace (by simp [(stride_link hstride).1])
      obtain ⟨hin, hlen⟩ := hjump _ _ names loc hrest h
      exact ⟨List.forall_mem_cons.mpr ⟨hs, hin⟩, by omega⟩

/-- The names at the end of a path that leads somewhere are names of the tree, and there are at most
    so many for every link that may be followed. -/
theorem names_of_resolve {root : Folder} {limit : Nat} {at_ : Location}
    {todo names : List String} {loc : Location} (hnames : ∀ s ∈ names, IsName s)
    (h : resolve root .find limit at_ (todo ++ names) = .ok loc) :
    (∀ s ∈ names, s ∈ root.allNames) ∧
      names.length ≤ (limit + 1) * (root.allNames.length + 1) := by
  induction limit generalizing at_ todo names loc with
  | zero =>
    rcases walk_append h with ⟨mid, -, h⟩ | ⟨at', todo', -, h⟩
    · obtain ⟨hin, hlen⟩ := names_of_walk (b := 0) (fun _ _ _ _ _ h => by simp at h) hnames h
      exact ⟨hin, by omega⟩
    · simp at h
  | succ limit ih =>
    have hmul : (limit + 1 + 1) * (root.allNames.length + 1) =
        (limit + 1) * (root.allNames.length + 1) + (root.allNames.length + 1) := Nat.succ_mul _ _
    rcases walk_append h with ⟨mid, -, h⟩ | ⟨at', todo', -, h⟩
    · obtain ⟨hin, hlen⟩ := names_of_walk
        (fun _ _ _ _ hnames h => ih hnames h) hnames h
      exact ⟨hin, by omega⟩
    · obtain ⟨hin, hlen⟩ := ih hnames h
      exact ⟨hin, by omega⟩

end Disk

end SourceWeb
