/-
  Under which paths files are known in a run.

  Identities are tidy, and of those that lead to a regular file there are fewer than a run may take
  steps, so a run cannot stop for want of steps.
-/
import Mathlib.Algebra.Group.Nat.Defs
import Mathlib.Data.List.Perm.Subperm
import SourceWeb.Proofs.Disk.Bound
import SourceWeb.Proofs.Path.Absolute

namespace SourceWeb

open SourceWeb.Text

/-- A disk whose current directory is a place of names. -/
def Disk.HereNamed (d : Disk) : Prop :=
  ∀ s ∈ d.here, IsName s

namespace Discovery.Setting

open SourceWeb.Path

variable {s : Setting}

/-- The path that a look-up of an identity starts from. -/
def absoluteOf (s : Setting) (p : Path) : Path :=
  if p.isAbsolute then p
  else match s.disk.absolute p with
    | .ok q => q
    | .error _ => s.root.join p

theorem isAbsolute_absoluteOf {p : Path} (hp : p.text ≠ "") :
    (s.absoluteOf p).isAbsolute = true := by
  unfold absoluteOf
  split
  · assumption
  · cases h : absoluteFrom s.disk.herePath p with
    | none => simp [absoluteFrom, hp] at h
    | some q =>
      rw [Disk.absolute, h]
      exact isAbsolute_absoluteFrom (Disk.isAbsolute_pathOf s.disk.here) h

theorem identity_eq_ite (s : Setting) (p : Path) : s.identity p = if s.canonicalize then
    match s.disk.canonical (s.absoluteOf p) with
    | .ok q => q
    | .error _ => (s.absoluteOf p).normal
    else (s.absoluteOf p).normal :=
  rfl

/-- An identity is the path of a place that the path leads to, or normal. -/
theorem identity_cases (s : Setting) (p : Path) :
    (∃ loc, s.disk.follow .find (s.absoluteOf p) = .ok loc ∧ s.identity p = Disk.pathOf loc) ∨
      s.identity p = (s.absoluteOf p).normal := by
  rw [identity_eq_ite]
  split
  · split
    · rename_i q hq
      obtain ⟨loc, hloc, rfl⟩ := Disk.canonical_eq_ok hq
      exact .inl ⟨loc, hloc, rfl⟩
    · exact .inr rfl
  · exact .inr rfl

theorem isName_of_follow {d : Disk} (hd : d.HereNamed) {p : Path} {loc : Location}
    (h : d.follow .find p = .ok loc) : ∀ n ∈ loc, IsName n := by
  refine Disk.isName_of_resolve ?_ (fun n => not_holds_of_mem_segments) h
  split
  · simp
  · exact hd

/-- What is read as an absolute path is known under a full path. -/
theorem isFull_identity (hd : s.disk.HereNamed) {p : Path}
    (h : (s.absoluteOf p).isAbsolute = true) : (s.identity p).IsFull := by
  rcases identity_cases s p with ⟨loc, hloc, hidentity⟩ | hidentity
  · rw [hidentity]
    exact Disk.isFull_pathOf (isName_of_follow hd hloc)
  · rw [hidentity]
    exact ⟨by rw [isAbsolute_normal, h], normal_normal _⟩

theorem tidy_identity (hd : s.disk.HereNamed) (p : Path) : (s.identity p).Tidy := by
  rcases identity_cases s p with ⟨loc, hloc, h⟩ | h
  · rw [h]
    exact Disk.tidy_pathOf (isName_of_follow hd hloc)
  · rw [h]
    exact tidy_normal _

end Discovery.Setting

/-! ### How many identities lead to files -/

/-- The words over an alphabet up to a length. -/
def wordsUpTo (alphabet : List String) : Nat → List (List String)
  | 0 => [[]]
  | n + 1 => [] :: alphabet.flatMap fun a => (wordsUpTo alphabet n).map (a :: ·)

theorem mem_wordsUpTo {alphabet : List String} {n : Nat} {w : List String}
    (h : ∀ a ∈ w, a ∈ alphabet) (hn : w.length ≤ n) : w ∈ wordsUpTo alphabet n := by
  induction n generalizing w with
  | zero =>
    rw [List.length_eq_zero_iff.mp (Nat.le_zero.mp hn)]
    simp [wordsUpTo]
  | succ n ih =>
    cases w with
    | nil => simp [wordsUpTo]
    | cons a w =>
      have hw := ih (fun b hb => h b (by simp [hb])) (Nat.le_of_succ_le_succ hn)
      have ha := h a (by simp)
      simp [wordsUpTo, ha, hw]

theorem length_wordsUpTo_le (alphabet : List String) (n : Nat) :
    (wordsUpTo alphabet n).length ≤ (alphabet.length + 1) ^ n := by
  induction n with
  | zero => simp [wordsUpTo]
  | succ n ih =>
    have hlen : (wordsUpTo alphabet (n + 1)).length =
        alphabet.length * (wordsUpTo alphabet n).length + 1 := by
      simp [wordsUpTo, List.length_flatMap]
    have hpos : 1 ≤ (alphabet.length + 1) ^ n := Nat.pow_pos (Nat.succ_pos _)
    rw [hlen, Nat.pow_succ, Nat.mul_comm, Nat.mul_add, Nat.mul_one]
    exact Nat.add_le_add (Nat.mul_le_mul_right _ ih) hpos

namespace Discovery.Setting

open SourceWeb.Path

variable {s : Setting}

/-- The words that spell the absolute paths to be counted. -/
def targetWords (d : Disk) : List (List String) :=
  wordsUpTo (".." :: d.root.allNames) ((Disk.linkLimit + 1) * (d.root.allNames.length + 1) + 1)

theorem mem_targetWords_of_follow {d : Disk} {p : Path} {loc : Location}
    (habs : p.isAbsolute = true) (h : d.follow .find p = .ok loc) : loc ∈ targetWords d := by
  have hexists : (d.root.at? loc).isSome := by
    rw [Disk.follow, if_pos habs] at h
    have hroot : (d.root.at? []).isSome = true := rfl
    exact Disk.resolve_exists hroot (fun n => not_holds_of_mem_segments) h
  obtain ⟨hin, hlen⟩ := Folder.names_of_at? hexists
  refine mem_wordsUpTo (fun n hn => List.mem_cons_of_mem _ (hin n hn)) (hlen.trans ?_)
  rw [Nat.add_mul]
  omega

/-- A normal path that leads somewhere is short, and made of names in the tree. -/
theorem mem_targetWords_of_normal {d : Disk} {p : Path} (habs : p.isAbsolute = true)
    {loc : Location} (h : d.follow .find p.normal = .ok loc) :
    p.normalSegments ∈ targetWords d := by
  obtain ⟨ups, names, hseg, hups, hnames⟩ := exists_normalSegments p
  rcases List.eq_nil_or_concat p.normalSegments with hnil | hne
  · rw [hnil]
    exact mem_wordsUpTo (by simp) (by simp)
  · have hsegments : p.normal.segments = "" :: (ups ++ names) := by
      have hl : p.normalSegments ≠ [] := by
        obtain ⟨init, last, hl⟩ := hne
        simp [hl]
      obtain ⟨cs, hcs, hmap, -⟩ := exists_steps_normal p
      rw [normal, if_pos habs, slash_append_intercalate hl, segments_mk_intercalate (by simp), hseg]
      intro n hn
      rcases List.mem_cons.mp hn with rfl | hn
      · exact not_holds_empty
      · exact not_holds_of_mem_map_text hcs n (hmap ▸ hn)
    rw [Disk.follow, hsegments, ← List.cons_append] at h
    obtain ⟨hin, hlen⟩ := Disk.names_of_resolve hnames h
    rw [hseg]
    refine mem_wordsUpTo ?_ ?_
    · intro n hn
      rcases List.mem_append.mp hn with hn | hn
      · rcases hups with rfl | rfl
        · simp at hn
        · simp [List.mem_singleton.mp hn]
      · exact List.mem_cons_of_mem _ (hin n hn)
    · rcases hups with rfl | rfl <;> simp <;> omega

/-- An identity that leads to a file is that of the empty path, or spelled by one of the words. -/
theorem identity_mem {p : Path} (h : s.disk.isFile (s.identity p) = true) :
    s.identity p ∈ s.identity ⟨""⟩ ::
      (targetWords s.disk).map fun w => (⟨"/" ++ "/".intercalate w⟩ : Path) := by
  by_cases hp : p.text = ""
  · rw [Path.ext_text (q := ⟨""⟩) hp]
    exact List.mem_cons_self
  · refine List.mem_cons_of_mem _ (List.mem_map.mpr ?_)
    have habs := isAbsolute_absoluteOf (s := s) hp
    rcases identity_cases s p with ⟨loc, hloc, hid⟩ | hid
    · exact ⟨loc, mem_targetWords_of_follow habs hloc, hid.symm⟩
    · obtain ⟨content, hentry⟩ := Disk.isFile_iff.mp h
      obtain ⟨-, loc, hloc, -⟩ := Disk.entry?_eq_ok.mp hentry
      rw [hid] at hloc
      refine ⟨_, mem_targetWords_of_normal habs hloc, ?_⟩
      rw [hid, normal, if_pos habs]

/-- **A run has enough steps.**  Fewer files than the bound have different identities. -/
theorem length_le_pathBound {ts : List Path} (hnodup : ts.Nodup)
    (h : ∀ t ∈ ts, s.disk.isFile t = true ∧ ∃ p, t = s.identity p) :
    ts.length ≤ pathBound s.disk := by
  have hsub : ts ⊆ s.identity ⟨""⟩ ::
      (targetWords s.disk).map fun w => (⟨"/" ++ "/".intercalate w⟩ : Path) := by
    intro t ht
    obtain ⟨hfile, p, rfl⟩ := h t ht
    exact identity_mem hfile
  have hlen := (List.Nodup.subperm hnodup hsub).length_le
  have hwords : (targetWords s.disk).length ≤ _ := length_wordsUpTo_le _ _
  rw [List.length_cons, List.length_map] at hlen
  rw [List.length_cons, Folder.length_allNames] at hwords
  generalize hn : nameCount s.disk.root = n at hwords
  have hexp : (Disk.linkLimit + 1) * (n + 1) + 1 + 1 ≤ (n + 2) * (Disk.linkLimit + 1) := by
    simp only [Disk.linkLimit]
    omega
  have hpos : 1 ≤ (n + 2) ^ ((Disk.linkLimit + 1) * (n + 1) + 1) := Nat.pow_pos (by omega)
  calc ts.length ≤ (n + 1 + 1) ^ ((Disk.linkLimit + 1) * (n + 1) + 1) + 1 := by omega
    _ ≤ (n + 2) ^ ((Disk.linkLimit + 1) * (n + 1) + 1) * (n + 2) := by
        generalize (n + 2) ^ ((Disk.linkLimit + 1) * (n + 1) + 1) = x at hpos ⊢
        have := Nat.mul_add x n 2
        omega
    _ = (n + 2) ^ ((Disk.linkLimit + 1) * (n + 1) + 1 + 1) := (Nat.pow_succ ..).symm
    _ ≤ (n + 2) ^ ((n + 2) * (Disk.linkLimit + 1)) := Nat.pow_le_pow_right (by omega) hexp
    _ = pathBound s.disk := by
        rw [pathBound, hn]
        rfl

end Discovery.Setting

end SourceWeb
