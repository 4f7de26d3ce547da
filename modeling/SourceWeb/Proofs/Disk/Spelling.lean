/-
  Spellings that do not show.

  What a path leads to depends on its components, but for the length of its spelling: the file
  system refuses a path with too many slashes.  A tidy path has none to spare, so what stands below
  it is read through it as under the tidy spelling.
-/
import SourceWeb.Proofs.Disk.Lookup
import SourceWeb.Proofs.Path.Below

namespace SourceWeb

open SourceWeb.Path SourceWeb.Text

namespace Disk

variable {d : Disk} {p q : Path}

/-! ### Paths that lead to the same -/

/-- Do the paths lead to the same place, if they lead anywhere? -/
def Alike (d : Disk) (p q : Path) : Prop :=
  ∀ loc, d.locate p = .ok loc ↔ d.locate q = .ok loc

theorem Alike.symm (h : d.Alike p q) : d.Alike q p :=
  fun loc => (h loc).symm

theorem Alike.trans {r : Path} (h : d.Alike p q) (h' : d.Alike q r) : d.Alike p r :=
  fun loc => (h loc).trans (h' loc)

theorem Alike.entry? (h : d.Alike p q) (e : Entry) : d.entry? p = .ok e ↔ d.entry? q = .ok e := by
  rw [entry?_eq_ok_iff_locate, entry?_eq_ok_iff_locate]
  exact exists_congr fun loc => and_congr_left fun _ => h loc

theorem Alike.isFile (h : d.Alike p q) : d.isFile p = d.isFile q := by
  rw [Bool.eq_iff_iff, isFile_iff, isFile_iff]
  exact exists_congr fun _ => h.entry? _

theorem Alike.isDir (h : d.Alike p q) : d.isDir p = d.isDir q := by
  rw [Bool.eq_iff_iff, isDir_iff, isDir_iff]
  exact exists_congr fun _ => h.entry? _

theorem Alike.isReadable (h : d.Alike p q) : d.isReadable p = d.isReadable q := by
  have hiff : ∀ r, d.isReadable r = true ↔
      ∃ loc, d.locate r = .ok loc ∧ d.unreadable.contains loc = false := by
    intro r
    unfold Disk.isReadable
    cases d.locate r <;> simp
  rw [Bool.eq_iff_iff, hiff, hiff]
  exact exists_congr fun loc => and_congr_left fun _ => h loc

theorem Alike.readText (h : d.Alike p q) (hp : d.isFile p = true) :
    d.readText p = d.readText q := by
  obtain ⟨content, hcontent⟩ := isFile_iff.mp hp
  simp only [Disk.readText, read, hcontent, (h.entry? _).mp hcontent, h.isReadable]

/-! ### What is read through a path -/

/-- Is whatever stands below the path read through it as it is under its tidy spelling? -/
def ReadsThrough (d : Disk) (p : Path) : Prop :=
  ∀ cs, Spelled (p.components ++ cs) → d.Alike (p.down cs) (ofComponents (p.components ++ cs))

/-- Paths that are the same lead to the same, if both were reached through such paths. -/
theorem ReadsThrough.alike (hp : d.ReadsThrough p) (hq : d.ReadsThrough q)
    {cs ds : List Component} (hcs : Spelled (p.components ++ cs))
    (h : p.components ++ cs = q.components ++ ds) : d.Alike (p.down cs) (q.down ds) := by
  have hright := hq ds (h ▸ hcs)
  rw [← h] at hright
  exact (hp cs hcs).trans hright.symm

/-- A file is read alike in all spellings of its directory that do not show. -/
theorem ReadsThrough.alike_child (hp : d.ReadsThrough p) (hq : d.ReadsThrough q)
    (h : p.same q = true) {name : String} (hname : IsName name) :
    d.Alike (p.child name) (q.child name) := by
  have hspelled : Spelled (p.components ++ [.name name]) := by
    rw [← components_child_name p hname]
    exact spelled_components _
  rw [← down_name, ← down_name]
  exact hp.alike hq hspelled (by rw [same_iff.mp h])

theorem ReadsThrough.down (hp : d.ReadsThrough p) {cs : List Component}
    (hcs : Spelled (p.components ++ cs)) : d.ReadsThrough (p.down cs) := by
  intro ds hds
  rw [components_down hcs, List.append_assoc] at hds ⊢
  rw [← down_append]
  exact hp _ hds

/-- Is whatever stands below the path, or below a directory above it, read through these as under
    tidy spellings? -/
structure ReadsAlong (d : Disk) (p : Path) : Prop where
  here : d.ReadsThrough p
  above : ∀ q ∈ p.trimmed.ancestors, d.ReadsThrough q

theorem ReadsAlong.child (h : d.ReadsAlong p) {name : String} (hname : IsName name) :
    d.ReadsAlong (p.child name) := by
  have hhere : d.ReadsThrough (p.child name) := by
    have hspelled : Spelled (p.components ++ [.name name]) := by
      rw [← components_child_name p hname]
      exact spelled_components _
    rw [← down_name]
    exact h.here.down hspelled
  refine ⟨hhere, ?_⟩
  have htrimmed : (p.child name).trimmed = p.child name := trimmed_child p (c := .name name) hname
  have hparent : (p.child name).parent? = some p.trimmed :=
    parent?_child p (c := .name name) hname
  intro q hq
  rw [htrimmed, ancestors_eq, hparent] at hq
  rcases List.mem_cons.mp hq with rfl | hq
  · exact hhere
  · exact h.above q hq

end Disk

theorem Path.Tidy.readsThrough {p : Path} (hp : p.Tidy) (d : Disk) : d.ReadsThrough p := by
  intro cs _ e
  rw [hp.down_eq]

theorem Path.tidy_of_mem_ancestors {p q : Path} (hp : p.Tidy) (hq : q ∈ p.ancestors) : q.Tidy :=
  of_mem_ancestors (fun _ _ hparent hbelow => hbelow.parent hparent) hp hq

theorem Path.Tidy.readsAlong {p : Path} (hp : p.Tidy) (d : Disk) : d.ReadsAlong p := by
  refine ⟨hp.readsThrough d, fun q hq => ?_⟩
  rw [hp.trimmed] at hq
  exact (tidy_of_mem_ancestors hp hq).readsThrough d

/-! ### Spellings that are too long -/

namespace Path

def padded (p : Path) (n : Nat) : Path :=
  p.withSuffix (String.ofList (List.replicate n '/'))

theorem components_slash {t : String} (ht : t ≠ "") :
    components ⟨t ++ "/"⟩ = components ⟨t⟩ := by
  have hseg : segments ⟨t ++ "/"⟩ = segments ⟨t⟩ ++ [""] := segments_of_slash_end rfl
  obtain ⟨first, rest, hfirst⟩ := List.exists_cons_of_ne_nil (segments_ne_nil ⟨t⟩)
  have hlist : t.toList ≠ [] := by simpa using ht
  have habs : isAbsolute ⟨t ++ "/"⟩ = isAbsolute ⟨t⟩ := by
    obtain ⟨c, cs, hc⟩ := List.exists_cons_of_ne_nil hlist
    simp [isAbsolute, hc]
  rw [components_eq, components_eq, lead, lead, habs, hseg, steps_append, hfirst]
  simp [steps, ofSegment]

theorem padded_succ (p : Path) (n : Nat) : p.padded (n + 1) = ⟨(p.padded n).text ++ "/"⟩ := by
  rw [padded, padded, withSuffix, withSuffix, List.replicate_succ', String.ofList_append,
    String.append_assoc]

/-- Slashes behind a path do not change its components. -/
theorem components_padded {p : Path} (hp : p.text ≠ "") (n : Nat) :
    (p.padded n).components = p.components := by
  induction n with
  | zero => simp [padded, withSuffix]
  | succ n ih =>
    rw [padded_succ, components_slash, ih]
    simp [padded, withSuffix, hp]

/-- Slashes behind a path make no difference to what is above what is read from it. -/
theorem trimmed_padded {p : Path} (hp : p.text ≠ "") (n : Nat) :
    (p.padded n).trimmed = p.trimmed := by
  induction n with
  | zero => simp [padded, withSuffix]
  | succ n ih =>
    have hne : (p.padded n).text ≠ "" := by simp [padded, withSuffix, hp]
    have hseg : (p.padded (n + 1)).segments = (p.padded n).segments ++ [""] :=
      segments_of_slash_end (congrArg Path.text (padded_succ p n))
    have habs : (p.padded (n + 1)).isAbsolute = (p.padded n).isAbsolute := by
      obtain ⟨c, cs, hc⟩ := List.exists_cons_of_ne_nil
        (show (p.padded n).text.toList ≠ [] by simpa using hne)
      simp [padded_succ, isAbsolute, hc]
    rw [← ih, trimmed, trimmed, if_neg hne, if_neg (by simp [padded_succ]), habs, hseg,
      dropIdle_concat_empty (segments_ne_nil _)]

theorem size_padded (p : Path) (n : Nat) :
    (p.padded n).text.utf8ByteSize = p.text.utf8ByteSize + n := by
  induction n with
  | zero => simp [padded, withSuffix]
  | succ n ih =>
    have hslash : String.utf8ByteSize "/" = 1 := by decide
    rw [padded_succ, String.utf8ByteSize_append, hslash, ih, Nat.add_assoc]

theorem le_size_padded (p : Path) (n : Nat) : n ≤ (p.padded n).text.utf8ByteSize := by
  rw [size_padded]
  exact Nat.le_add_left _ _

/-- What is read from a path is spelled behind it, with a slash between them or none. -/
theorem size_child (p : Path) {name : String} (h : IsName name) :
    p.text.utf8ByteSize + name.utf8ByteSize ≤ (p.child name).text.utf8ByteSize ∧
      (p.child name).text.utf8ByteSize ≤ p.text.utf8ByteSize + 1 + name.utf8ByteSize := by
  have hrel : isAbsolute ⟨name⟩ = false := isAbsolute_eq_false_of_segment h.2.2.2
  have hslash : String.utf8ByteSize "/" = 1 := by decide
  simp only [child, join, hrel, Bool.false_eq_true, if_false]
  split <;> simp only [String.utf8ByteSize_append, hslash] <;> omega

theorem size_le_size_child (p : Path) {name : String} (h : IsName name) :
    p.text.utf8ByteSize ≤ (p.child name).text.utf8ByteSize :=
  Nat.le_trans (Nat.le_add_right _ _) (size_child p h).1

end Path

namespace Disk

theorem entry?_of_long {p : Path} (d : Disk) (h : pathLimit < p.text.utf8ByteSize) (e : Entry) :
    d.entry? p ≠ .ok e := by
  intro he
  obtain ⟨hcheck, -⟩ := entry?_eq_ok.mp he
  unfold checkPath at hcheck
  split at hcheck
  · simp at hcheck
  · split at hcheck
    · simp at hcheck
    · simp at hcheck

theorem isFile_of_long {p : Path} (d : Disk) (h : pathLimit < p.text.utf8ByteSize) :
    d.isFile p = false := by
  rw [← Bool.not_eq_true, isFile_iff]
  exact fun ⟨_, hc⟩ => entry?_of_long d h _ hc

theorem isDir_of_long {p : Path} (d : Disk) (h : pathLimit < p.text.utf8ByteSize) :
    d.isDir p = false := by
  rw [← Bool.not_eq_true, isDir_iff]
  exact fun ⟨_, hc⟩ => entry?_of_long d h _ hc

end Disk

end SourceWeb
