/-
  The files of a document, and the leaves of its tree.

  A file is never on the way to another one.  So the files of a document have a leaf each as long as
  all of them are shown from the project root, or all of them from that of the file system.  A file
  outside of the project is shown from the latter, but the tree drops the slash in front.  Then its
  leaf may be that of a file of the project, or one of the two may stand where the other has a
  directory: the tree has a leaf for each file exactly if this does not happen, and has fewer
  otherwise.
-/
import SourceWeb.Proofs.Bundle.Displayed
import SourceWeb.Proofs.Bundle.Leaves
import SourceWeb.Proofs.Disk.Proper
import SourceWeb.Proofs.Path.Parent

namespace SourceWeb

open SourceWeb.Path SourceWeb.Text

/-! ### The way to a path -/

/-- The way to a path: from the project root if the path is below that, else from the root of the
    file system. -/
def Path.shown (root p : Path) : List String :=
  match below? root p with
  | some cs => cs.filterMap Component.name?
  | none => p.components.tail.map Component.text

namespace Path

variable {root p q : Path}

theorem shown_of_below {cs : List Component} (h : p.components = root.components ++ cs) :
    shown root p = cs.filterMap Component.name? := by
  rw [shown, below?_eq_some.mpr h]

theorem shown_of_outside (h : p.startsWith root = false) :
    shown root p = p.components.tail.map Component.text := by
  rw [startsWith, Option.isSome_eq_false_iff, Option.isNone_iff_eq_none] at h
  rw [shown, h]

/-- The names of a path below the project root stand behind those of the root. -/
theorem names_of_startsWith (h : p.startsWith root = true) :
    p.names = root.names ++ shown root p := by
  obtain ⟨cs, hcs⟩ := startsWith_iff.mp h
  rw [shown_of_below hcs, names, hcs, List.filterMap_append, names]

theorem IsFull.shown_of_outside (hp : p.IsFull) (h : p.startsWith root = false) :
    ∃ ups : List String, (ups = [] ∨ ups = [".."]) ∧ shown root p = ups ++ p.names := by
  obtain ⟨ups, hups, -, hcomponents⟩ := hp.components
  refine ⟨ups.map Component.text, ?_, ?_⟩
  · rcases hups with rfl | rfl
    · exact .inl rfl
    · exact .inr rfl
  · rw [Path.shown_of_outside h, hcomponents, List.tail_cons, List.map_append,
      map_text_map_name]

theorem IsFull.names_of_outside (hp : p.IsFull) (h : p.startsWith root = false) :
    p.names = (shown root p).filter (· != "..") := by
  obtain ⟨ups, hups, hway⟩ := hp.shown_of_outside h
  have hnames : p.names.filter (· != "..") = p.names := List.filter_eq_self.mpr fun s hs => by
    simpa using (isName_of_mem_names hs).2.2.1
  rw [hway, List.filter_append, hnames]
  rcases hups with rfl | rfl <;> rfl

/-- Of two full paths shown from the same root, the names go on as the ways do. -/
theorem IsFull.names_isPrefix (hp : p.IsFull) (hq : q.IsFull)
    (hside : p.startsWith root = q.startsWith root) (h : shown root p <+: shown root q) :
    p.names <+: q.names := by
  cases hinside : p.startsWith root with
  | true =>
    rw [names_of_startsWith hinside, names_of_startsWith (hside.symm.trans hinside)]
    exact (List.prefix_append_right_inj _).mpr h
  | false =>
    rw [hp.names_of_outside hinside, hq.names_of_outside (hside.symm.trans hinside)]
    exact h.filter _

/-- Nothing is shown of the project root alone. -/
theorem IsFull.shown_eq_nil_iff (hp : p.IsFull) (hne : p.names ≠ []) :
    shown root p = [] ↔ p.same root = true := by
  rw [same_iff]
  constructor
  · intro hnil
    cases hinside : p.startsWith root with
    | true =>
      obtain ⟨cs, hcs⟩ := startsWith_iff.mp hinside
      obtain ⟨ups, -, -, hcomponents⟩ := hp.components
      rw [shown_of_below hcs, List.filterMap_eq_nil_iff] at hnil
      by_contra hdiffer
      have hcsne : cs ≠ [] := by
        rintro rfl
        exact hdiffer (hcs.trans (List.append_nil _))
      -- the last component of a full path is a name
      have hlast := List.getLast?_append_of_ne_nil root.components hcsne
      rw [← hcs, hcomponents, ← List.cons_append,
        List.getLast?_append_of_ne_nil _ (by simpa using hne), List.getLast?_map,
        List.getLast?_eq_some_getLast hne] at hlast
      have hname := hnil _ (List.mem_of_getLast? hlast.symm)
      simp [Component.name?] at hname
    | false =>
      obtain ⟨ups, -, hway⟩ := hp.shown_of_outside hinside
      rw [hway] at hnil
      exact absurd (List.append_eq_nil_iff.mp hnil).2 hne
  · intro hsame
    have hcs : p.components = root.components ++ [] := by rw [hsame, List.append_nil]
    rw [shown_of_below hcs]
    rfl

end Path

/-! ### What the tree is given -/

theorem Tree.segmentsOf_intercalate {names : List String} (h : ∀ s ∈ names, ¬ Holds '/' s) :
    segmentsOf ("/".intercalate names) = names.filter fun s => s != "" && s != "." := by
  cases names with
  | nil => decide
  | cons s names => exact congrArg (List.filter _) (splitChar_intercalate (by simp) h)

theorem Tree.segmentsOf_text (p : Path) :
    segmentsOf p.text = (steps p.segments).map Component.text := by
  rw [map_text_steps]
  refine List.filter_congr fun s _ => ?_
  rw [isIdle, Bool.not_or]
  by_cases h : s = "" <;> by_cases h' : s = "." <;> simp [h, h', bne]

/-- The segments that a path adds to the tree are the way to it. -/
theorem Bundle.segmentsOf_relativeDisplay {p : Path} (hp : p.isAbsolute = true) (root : Path) :
    Tree.segmentsOf (relativeDisplay p root) = shown root p := by
  cases hinside : p.startsWith root with
  | true =>
    obtain ⟨cs, hcs⟩ := startsWith_iff.mp hinside
    have hnames : ∀ s ∈ cs.filterMap Component.name?, IsName s := fun s hs => by
      refine isName_of_mem_names (p := p) ?_
      rw [names, hcs, List.filterMap_append]
      exact List.mem_append_right _ hs
    rw [relativeDisplay_of_below hcs, Tree.segmentsOf_intercalate fun s hs => (hnames s hs).2.2.2,
      shown_of_below hcs, List.filter_eq_self]
    intro s hs
    obtain ⟨hne, hdot, -⟩ := hnames s hs
    simp [hne, hdot]
  | false =>
    rw [relativeDisplay_of_outside hinside, Tree.segmentsOf_text, shown_of_outside hinside,
      components_of_isAbsolute hp, List.tail_cons]

/-! ### Leaves and files -/

namespace Bundle

/-- Do the files keep out of each other's way in the tree?  None is the project root itself, and of
    two that are shown from different roots neither stands on the way to the other. -/
structure Apart (root : Path) (files : List Path) : Prop where
  not_root : ∀ p ∈ files, p.same root = false
  sides : ∀ p ∈ files, ∀ q ∈ files, p.startsWith root = true → q.startsWith root = false →
    ¬ shown root p <+: shown root q ∧ ¬ shown root q <+: shown root p

instance (root : Path) (files : List Path) : Decidable (Apart root files) :=
  decidable_of_iff ((∀ p ∈ files, p.same root = false) ∧
    ∀ p ∈ files, ∀ q ∈ files, p.startsWith root = true → q.startsWith root = false →
      ¬ shown root p <+: shown root q ∧ ¬ shown root q <+: shown root p)
    ⟨fun h => ⟨h.1, h.2⟩, fun h => ⟨h.not_root, h.sides⟩⟩

section Files

variable {disk : Disk} {root : Path} {files : List Path} (hfull : ∀ p ∈ files, p.IsFull)
  (hfile : ∀ p ∈ files, disk.isFile p = true)

include hfull

theorem map_segmentsOf_relativeDisplay :
    (files.map fun p => relativeDisplay p root).map Tree.segmentsOf = files.map (shown root) := by
  rw [List.map_map]
  exact List.map_congr_left fun p hp => segmentsOf_relativeDisplay (hfull p hp).absolute root

include hfile

/-- Files that are shown from the same root are apart, since none is on the way to another. -/
theorem apart_iff (hdistinct : (files.map names).Nodup) :
    ((∀ p ∈ files, shown root p ≠ []) ∧
      files.Pairwise fun p q => ¬ shown root p <+: shown root q ∧ ¬ shown root q <+: shown root p) ↔
    Apart root files := by
  have hroot : ∀ p ∈ files, shown root p = [] ↔ p.same root = true := fun p hp =>
    (hfull p hp).shown_eq_nil_iff (Disk.names_ne_nil_of_isFile (hfull p hp) (hfile p hp))
  constructor
  · rintro ⟨hne, hapart⟩
    refine ⟨fun p hp => Bool.eq_false_iff.mpr ((hroot p hp).not.mp (hne p hp)), ?_⟩
    intro p hp q hq hinside houtside
    have hsymm : Std.Symm fun p q =>
        ¬ shown root p <+: shown root q ∧ ¬ shown root q <+: shown root p := ⟨fun _ _ h => h.symm⟩
    refine hapart.forall hp hq ?_
    rintro rfl
    simp [hinside] at houtside
  · intro h
    refine ⟨fun p hp => (hroot p hp).not.mpr (Bool.eq_false_iff.mp (h.not_root p hp)), ?_⟩
    refine (List.pairwise_map.mp hdistinct).imp_of_mem fun {p q} hp hq hdiffer => ?_
    by_cases hside : p.startsWith root = q.startsWith root
    · refine ⟨fun hpre => hdiffer ?_, fun hpre => hdiffer ?_⟩
      · exact Disk.names_eq_of_isPrefix (hfull p hp) (hfull q hq) (hfile p hp) (hfile q hq)
          ((hfull p hp).names_isPrefix (hfull q hq) hside hpre)
      · exact (Disk.names_eq_of_isPrefix (hfull q hq) (hfull p hp) (hfile q hq) (hfile p hp)
          ((hfull q hq).names_isPrefix (hfull p hp) hside.symm hpre)).symm
    · cases hinside : p.startsWith root with
      | true => exact h.sides p hp q hq hinside (by simpa [hinside] using hside)
      | false => exact (h.sides q hq p hp (by simpa [hinside] using hside) hinside).symm

theorem perm_leaves_iff_apart (hdistinct : (files.map names).Nodup) {name : String} :
    (Tree.ofPaths name (files.map fun p => relativeDisplay p root)).below.leaves.Perm
      (files.map (shown root)) ↔ Apart root files := by
  rw [← apart_iff hfull hfile hdistinct, ← map_segmentsOf_relativeDisplay hfull,
    Tree.perm_leaves_iff, List.forall_mem_map, List.pairwise_map]
  refine and_congr (forall₂_congr fun p hp => ?_) (List.Pairwise.iff_of_mem fun {p q} hp hq => ?_)
  · rw [segmentsOf_relativeDisplay (hfull p hp).absolute]
  · rw [Tree.PathsApart, segmentsOf_relativeDisplay (hfull p hp).absolute,
      segmentsOf_relativeDisplay (hfull q hq).absolute]

end Files

namespace Document

/-- **The leaf lines of the tree stand for the files, one for one, exactly if these are apart**;
    otherwise there are fewer of them.  Files are given by full paths; such paths with the same
    names lead to the same place, so files that differ are told apart by their names. -/
theorem exists_leafLines_iff (disk : Disk) (root : Path) (files : List Path) (o : Options)
    (hfull : ∀ p ∈ files, p.IsFull) (hfile : ∀ p ∈ files, disk.isFile p = true)
    (hdistinct : (files.map names).Nodup) (htree : o.includeTree = true) :
    ∃ lines, (build disk root files o).tree = some lines ∧
      let leafLines := lines.tail.filter fun l => !endsWith "/" l
      ((∃ drawn, drawn.Perm leafLines ∧
          List.Forall₂ (fun p l => Forest.DrawsLeaf "" (shown root p) l) files drawn) ↔
        Apart root files) ∧
      (¬ Apart root files → leafLines.length < files.length) := by
  let t := Tree.ofPaths o.projectName (files.map fun p => relativeDisplay p root)
  refine ⟨t.lines, ?_, ?_⟩
  · rw [build, if_pos htree, Tree.ofSorted_eq]
  have hdraws : List.Forall₂ (Forest.DrawsLeaf "") t.below.leaves
      (t.lines.tail.filter fun l => !endsWith "/" l) := by
    exact Forest.forall₂_leaves fun way hway s hs => Tree.not_holds_of_mem_nodes hway s hs
  have hsubperm : t.below.leaves.Subperm (files.map (shown root)) :=
    map_segmentsOf_relativeDisplay hfull ▸ Tree.subperm_leaves
  have hperm : t.below.leaves.Perm (files.map (shown root)) ↔ Apart root files :=
    perm_leaves_iff_apart hfull hfile hdistinct
  have hcount : files.length ≤ t.below.leaves.length → Apart root files := fun hle =>
    hperm.mp (hsubperm.perm_of_length_le (by rwa [List.length_map]))
  refine ⟨⟨?_, fun hapart => ?_⟩, fun hclash => ?_⟩
  · rintro ⟨drawn, hdrawn, hfiles⟩
    refine hcount ?_
    rw [hfiles.length_eq, hdrawn.length_eq, hdraws.length_eq]
  · obtain ⟨drawn, hfiles, hdrawn⟩ := List.perm_comp_forall₂ (hperm.mpr hapart).symm hdraws
    exact ⟨drawn, hdrawn, List.forall₂_map_left_iff.mp hfiles⟩
  · rw [← hdraws.length_eq]
    exact Nat.lt_of_not_le fun hle => hclash (hcount hle)

/-- A project beside a file that has the name of one of its own. -/
def mixedDisk : Disk where
  root := .file "a.txt" .empty
    (.folder "p" (.file "a.txt" .empty (.file "b.txt" .empty .empty)) .empty)
  here := []
  unreadable := []

def mixedOptions : Options := ⟨"p", true, false, none⟩

/-- Beside `b.txt` the file outside has a leaf; beside `a.txt` it has none. -/
theorem mixed_leafLines :
    (∀ p ∈ [(⟨"/p/b.txt"⟩ : Path), ⟨"/a.txt"⟩], p.IsFull ∧ mixedDisk.isFile p = true) ∧
    (∀ p ∈ [(⟨"/p/a.txt"⟩ : Path), ⟨"/a.txt"⟩], p.IsFull ∧ mixedDisk.isFile p = true) ∧
    (∃ lines, (build mixedDisk ⟨"/p"⟩ [⟨"/p/b.txt"⟩, ⟨"/a.txt"⟩] mixedOptions).tree = some lines ∧
      ∃ drawn, drawn.Perm (lines.tail.filter fun l => !endsWith "/" l) ∧
        List.Forall₂ (fun p l => Forest.DrawsLeaf "" (shown ⟨"/p"⟩ p) l)
          [⟨"/p/b.txt"⟩, ⟨"/a.txt"⟩] drawn) ∧
    ∃ lines, (build mixedDisk ⟨"/p"⟩ [⟨"/p/a.txt"⟩, ⟨"/a.txt"⟩] mixedOptions).tree = some lines ∧
      (lines.tail.filter fun l => !endsWith "/" l).length < 2 := by
  have happly (files : List Path) (hfiles : ∀ p ∈ files, p.IsFull ∧ mixedDisk.isFile p = true)
      (hdistinct : (files.map names).Nodup) :=
    exists_leafLines_iff mixedDisk ⟨"/p"⟩ files mixedOptions (fun p hp => (hfiles p hp).1)
      (fun p hp => (hfiles p hp).2) hdistinct rfl
  have hfull {p : Path} (habs : p.isAbsolute = true) (hnormal : p.normal = p)
      (hfile : mixedDisk.isFile p = true) : p.IsFull ∧ mixedDisk.isFile p = true :=
    ⟨⟨habs, hnormal⟩, hfile⟩
  have hout := hfull (p := ⟨"/a.txt"⟩) (by decide) (by decide +kernel) (by decide +kernel)
  have ha := hfull (p := ⟨"/p/a.txt"⟩) (by decide) (by decide +kernel) (by decide +kernel)
  have hb := hfull (p := ⟨"/p/b.txt"⟩) (by decide) (by decide +kernel) (by decide +kernel)
  have hbOut : ∀ p ∈ [(⟨"/p/b.txt"⟩ : Path), ⟨"/a.txt"⟩],
      p.IsFull ∧ mixedDisk.isFile p = true := by simp [hb, hout]
  have haOut : ∀ p ∈ [(⟨"/p/a.txt"⟩ : Path), ⟨"/a.txt"⟩],
      p.IsFull ∧ mixedDisk.isFile p = true := by simp [ha, hout]
  obtain ⟨lines, htree, hdrawn, -⟩ := happly _ hbOut (by decide +kernel)
  obtain ⟨lines', htree', -, hfewer⟩ := happly _ haOut (by decide +kernel)
  exact ⟨hbOut, haOut, ⟨lines, htree, hdrawn.mpr (by decide +kernel)⟩,
    ⟨lines', htree', hfewer (by decide +kernel)⟩⟩

end Document
end Bundle
end SourceWeb
