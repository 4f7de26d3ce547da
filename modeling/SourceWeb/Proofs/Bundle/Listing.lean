/-
  What a document holds of a list of files.

  Each path of the list whose file can be read as text has an entry, and the entries stand in the
  order of the bytes that are shown of their paths.  Different paths are shown differently, so there
  is one such order only, and the document does not tell in which order the paths were given.  The
  tree is that of all paths, whether or not their files can be read.
-/
import Mathlib.Data.List.Pairwise
import Mathlib.Data.List.Perm.Basic
import SourceWeb.Proofs.Bundle.Shown
import SourceWeb.Proofs.Path.Apart
import SourceWeb.Proofs.Text.Bytes

namespace SourceWeb

open SourceWeb.Path SourceWeb.Text

/-! ### Reading a file -/

theorem Disk.readText_eq_ok {disk : Disk} {p : Path} {s : String} :
    disk.readText p = .ok s ↔ disk.read p = .ok s.toUTF8 := by
  cases hread : disk.read p with
  | error e => simp [readText, hread, bind, Except.bind]
  | ok bytes =>
    simp only [readText, hread, bind, Except.bind, Except.ok.injEq, ← decode?_eq_some]
    cases decode? bytes <;> simp

namespace Bundle

variable {disk : Disk} {root p : Path} {files : List Path} {f g : File}

/-- Is the entry that of a path: what is shown of the path, its mark, and the text of its file? -/
structure IsEntry (disk : Disk) (root p : Path) (f : File) : Prop where
  path : f.path = relativeDisplay p root
  language : f.language = languageMark p
  content : disk.read p = .ok f.content.toUTF8

/-- Can the file of a path be read as text? -/
def Readable (disk : Disk) (p : Path) : Prop :=
  ∃ s : String, disk.read p = .ok s.toUTF8

namespace Document

theorem readFile_eq_some : readFile disk root p = some f ↔ IsEntry disk root p f := by
  constructor
  · intro h
    cases htext : disk.readText p with
    | error e => simp [readFile, htext] at h
    | ok s =>
      simp only [readFile, htext, Option.some.injEq] at h
      subst h
      exact ⟨rfl, rfl, Disk.readText_eq_ok.mp htext⟩
  · rintro ⟨hpath, hlanguage, hcontent⟩
    rw [readFile, Disk.readText_eq_ok.mpr hcontent, ← hpath, ← hlanguage]

theorem readFile_eq_none : readFile disk root p = none ↔ ¬ Readable disk p := by
  rw [← Option.not_isSome_iff_eq_none, Option.isSome_iff_exists, not_iff_not]
  constructor
  · rintro ⟨f, hf⟩
    exact ⟨f.content, (readFile_eq_some.mp hf).content⟩
  · rintro ⟨s, hs⟩
    exact ⟨⟨relativeDisplay p root, languageMark p, s⟩, readFile_eq_some.mpr ⟨rfl, rfl, hs⟩⟩

/-! ### The entries -/

/-- The paths of a list have an entry each, but for those that are left over. -/
theorem exists_entries (disk : Disk) (root : Path) (files : List Path) :
    ∃ read left, (read ++ left).Perm files ∧
      List.Forall₂ (IsEntry disk root) read (files.filterMap (readFile disk root)) ∧
      ∀ p ∈ left, ¬ Readable disk p := by
  induction files with
  | nil => exact ⟨[], [], .nil, .nil, by simp⟩
  | cons p files ih =>
    obtain ⟨read, left, hperm, hentries, hleft⟩ := ih
    cases hread : readFile disk root p with
    | none =>
      refine ⟨read, p :: left, List.perm_middle.trans (hperm.cons p), ?_, ?_⟩
      · rwa [List.filterMap_cons_none hread]
      · rintro q (_ | ⟨_, hq⟩)
        · exact readFile_eq_none.mp hread
        · exact hleft q hq
    | some f =>
      refine ⟨p :: read, left, hperm.cons p, ?_, hleft⟩
      rw [List.filterMap_cons_some hread]
      exact .cons (readFile_eq_some.mp hread) hentries

theorem exists_entries_build (disk : Disk) (root : Path) (files : List Path) (o : Options) :
    ∃ read left, (read ++ left).Perm files ∧
      List.Forall₂ (IsEntry disk root) read (build disk root files o).files ∧
      ∀ p ∈ left, ¬ Readable disk p := by
  obtain ⟨read, left, hperm, hentries, hleft⟩ := exists_entries disk root files
  obtain ⟨sorted, hsorted, hread⟩ :=
    List.perm_comp_forall₂ (List.mergeSort_perm _ _) hentries.flip
  exact ⟨sorted, left, (hread.append_right left).trans hperm, hsorted.flip, hleft⟩

/-! ### The order of the entries -/

/-- Do the entries stand in the order of the bytes of their paths, each path once? -/
def Increasing (entries : List File) : Prop :=
  entries.Pairwise fun f g => bytesOf f.path < bytesOf g.path

theorem increasing_of_sorted {entries : List File}
    (hsorted : entries.Pairwise fun f g => bytesOf f.path ≤ bytesOf g.path)
    (hne : entries.Pairwise fun f g => f.path ≠ g.path) : Increasing entries := by
  apply (hsorted.and hne).imp
  rintro f g ⟨hle, hne⟩
  rw [← precedes_iff]
  rw [← precedes_eq_false_iff] at hle
  exact (precedes_or hne).resolve_right (by simp [hle])

/-- Entries of different paths can be sorted in one way only. -/
theorem Increasing.eq_of_sorted {entries entries' : List File} (h : Increasing entries)
    (hperm : entries'.Perm entries)
    (hsorted : entries'.Pairwise fun f g => bytesOf f.path ≤ bytesOf g.path) :
    entries' = entries := by
  have hne : entries.Pairwise fun f g => f.path ≠ g.path := h.imp fun {f g} hlt heq => by
    rw [heq] at hlt
    exact List.lt_irrefl _ hlt
  have h' : Increasing entries' := increasing_of_sorted hsorted (hperm.symm.pairwise hne Ne.symm)
  exact hperm.eq_of_pairwise (fun _ _ _ _ hfg hgf => absurd hgf (List.lt_asymm hfg)) h' h

theorem pairwise_sort_path (entries : List File) :
    (entries.mergeSort fun f g => !precedes g.path f.path).Pairwise
      fun f g => bytesOf f.path ≤ bytesOf g.path := by
  refine (List.pairwise_mergeSort ?_ ?_ entries).imp ?_
  · intro f g h hfg hgh
    rw [Bool.not_eq_true', precedes_eq_false_iff] at hfg hgh ⊢
    exact List.le_trans hfg hgh
  · intro f g
    simp only [Bool.or_eq_true, Bool.not_eq_true', precedes_eq_false_iff]
    exact List.le_total _ _
  · intro f g h
    rwa [Bool.not_eq_true', precedes_eq_false_iff] at h

section Straight

variable (hroot : root.Straight) (hfiles : ∀ p ∈ files, p.Straight) (hapart : Path.Apart files)

include hroot hfiles hapart

theorem pairwise_path_ne :
    (files.filterMap (readFile disk root)).Pairwise fun f g => f.path ≠ g.path := by
  rw [List.pairwise_filterMap]
  apply hapart.imp_of_mem
  intro p q hp hq hdiffer f hf g hg heq
  -- entries with one path are those of one path
  have hsame : p.same q = true := by
    refine same_of_relativeDisplay_eq hroot (hfiles p hp) (hfiles q hq) ?_
    rw [← (readFile_eq_some.mp hf).path, ← (readFile_eq_some.mp hg).path, heq]
  simp [hsame] at hdiffer

theorem increasing_build (o : Options) : Increasing (build disk root files o).files := by
  have hne : (build disk root files o).files.Pairwise fun f g => f.path ≠ g.path :=
    (List.mergeSort_perm _ _).symm.pairwise (pairwise_path_ne hroot hfiles hapart) Ne.symm
  exact increasing_of_sorted (pairwise_sort_path _) hne

theorem files_build_eq_of_perm {files' : List Path} (hperm : files'.Perm files) (o : Options) :
    (build disk root files' o).files = (build disk root files o).files := by
  refine (increasing_build hroot hfiles hapart o).eq_of_sorted ?_ (pairwise_sort_path _)
  exact (List.mergeSort_perm _ _).trans ((hperm.filterMap _).trans (List.mergeSort_perm _ _).symm)

end Straight

/-! ### The tree -/

def treeOf (root : Path) (files : List Path) (name : String) : Tree :=
  Tree.ofPaths name (files.map fun p => relativeDisplay p root)

theorem tree_build (disk : Disk) (root : Path) (files : List Path) (o : Options) :
    (build disk root files o).tree =
      if o.includeTree then some (treeOf root files o.projectName).lines else none := by
  rw [build, Tree.ofSorted_eq, treeOf]

theorem treeOf_eq_of_perm {files' : List Path} (hperm : files'.Perm files) (name : String) :
    treeOf root files' name = treeOf root files name := by
  refine Tree.ofPaths_eq_iff.mpr ⟨rfl, fun way => ?_⟩
  simp only [(hperm.map _).mem_iff]

theorem mem_nodes_treeOf (hfiles : ∀ p ∈ files, p.isAbsolute = true) {name : String}
    {way : List String} :
    way ∈ (treeOf root files name).below.nodes ↔ ∃ p ∈ files, Begins way (shown root p) := by
  rw [treeOf, Tree.mem_nodes_ofPaths]
  constructor
  · rintro ⟨_, ht, hbegins⟩
    obtain ⟨p, hp, rfl⟩ := List.mem_map.mp ht
    rw [segmentsOf_relativeDisplay (hfiles p hp)] at hbegins
    exact ⟨p, hp, hbegins⟩
  · rintro ⟨p, hp, hbegins⟩
    rw [← segmentsOf_relativeDisplay (hfiles p hp)] at hbegins
    exact ⟨_, List.mem_map_of_mem hp, hbegins⟩

/-! ### The document -/

theorem build_eq_of_perm (hroot : root.Straight) (hfiles : ∀ p ∈ files, p.Straight)
    (hapart : Path.Apart files) {files' : List Path} (hperm : files'.Perm files) (o : Options) :
    build disk root files' o = build disk root files o := by
  have htree : (build disk root files' o).tree = (build disk root files o).tree := by
    rw [tree_build, tree_build, treeOf_eq_of_perm hperm]
  have hentries : (build disk root files' o).files = (build disk root files o).files :=
    files_build_eq_of_perm hroot hfiles hapart hperm o
  calc build disk root files' o
    _ = { build disk root files o with
          tree := (build disk root files' o).tree, files := (build disk root files' o).files } := rfl
    _ = build disk root files o := by rw [htree, hentries]

/-- **A document is told by the set of its files.**  The order in which paths are given makes no
    difference.  Of each path whose file can be read as text there is one entry, with that text, and
    the entries stand in the order of the bytes that are shown of their paths; since no two of these
    are equal, it is of no account how the entries are sorted.  The tree has the nodes of all paths,
    also of those without an entry, and no others. -/
theorem build_ofSet (disk : Disk) (root : Path) (files : List Path) (o : Options)
    (hroot : root.Straight) (hfiles : ∀ p ∈ files, p.Straight) (hapart : Path.Apart files) :
    (∀ files' : List Path, files'.Perm files →
        build disk root files' o = build disk root files o) ∧
      (∃ read left, (read ++ left).Perm files ∧
        List.Forall₂ (IsEntry disk root) read (build disk root files o).files ∧
        ∀ p ∈ left, ¬ Readable disk p) ∧
      Increasing (build disk root files o).files ∧
      (∀ entries : List File, entries.Perm (build disk root files o).files →
        entries.Pairwise (fun f g => bytesOf f.path ≤ bytesOf g.path) →
        entries = (build disk root files o).files) ∧
      ∃ t : Tree, (build disk root files o).tree = (if o.includeTree then some t.lines else none) ∧
        t.name = o.projectName ∧ t.below.Sorted ∧
        ∀ way, way ∈ t.below.nodes ↔ ∃ p ∈ files, Begins way (shown root p) := by
  have habs : ∀ p ∈ files, p.isAbsolute = true := fun p hp => (hfiles p hp).absolute
  have hincreasing : Increasing (build disk root files o).files :=
    increasing_build hroot hfiles hapart o
  refine ⟨?_, exists_entries_build disk root files o, hincreasing, ?_, ?_⟩
  · intro files' hperm
    exact build_eq_of_perm hroot hfiles hapart hperm o
  · intro entries hperm hsorted
    exact hincreasing.eq_of_sorted hperm hsorted
  · refine ⟨treeOf root files o.projectName, tree_build disk root files o, ?_, ?_, ?_⟩
    · exact Tree.name_ofPaths _ _
    · exact Tree.sorted_ofPaths _ _
    · intro way
      exact mem_nodes_treeOf habs

/-- A project with a file that is no text, beside another file. -/
def partlyReadable : Disk where
  root := .file "b.md" "b".toUTF8
    (.folder "p" (.file "a.rs" "a".toUTF8 (.file "x.png" ⟨#[0xFF]⟩ .empty)) .empty)
  here := []
  unreadable := []

/-- Of four paths two have entries, and the tree has all four of them. -/
theorem partlyReadable_build :
    let root : Path := ⟨"/p"⟩
    let files : List Path := [⟨"/p/x.png"⟩, ⟨"/p/a.rs"⟩, ⟨"/b.md"⟩, ⟨"/p/missing"⟩]
    let doc := build partlyReadable root files ⟨"p", true, false, none⟩
    root.Straight ∧ (∀ p ∈ files, p.Straight) ∧ Path.Apart files ∧
      doc.files = [⟨"/b.md", "markdown", "b"⟩, ⟨"a.rs", "rust", "a"⟩] ∧
      build partlyReadable root files.reverse ⟨"p", true, false, none⟩ = doc ∧
      ∃ t : Tree, doc.tree = some t.lines ∧
        ["x.png"] ∈ t.below.nodes ∧ ["b.md"] ∈ t.below.nodes ∧ ["missing"] ∈ t.below.nodes := by
  intro root files doc
  have hroot : root.Straight := by decide +kernel
  have hfiles : ∀ p ∈ files, p.Straight := by decide +kernel
  have hapart : Path.Apart files := by
    unfold Path.Apart
    decide +kernel
  obtain ⟨hsame, -, -, hsorted, t, htree, -, -, hnodes⟩ :=
    build_ofSet partlyReadable root files ⟨"p", true, false, none⟩ hroot hfiles hapart
  have hentries : files.filterMap (readFile partlyReadable root) =
      [⟨"a.rs", "rust", "a"⟩, ⟨"/b.md", "markdown", "b"⟩] := by decide +kernel
  have hperm : doc.files.Perm [⟨"a.rs", "rust", "a"⟩, ⟨"/b.md", "markdown", "b"⟩] :=
    hentries ▸ List.mergeSort_perm _ _
  have hlisted : doc.files = [⟨"/b.md", "markdown", "b"⟩, ⟨"a.rs", "rust", "a"⟩] :=
    (hsorted _ ((List.Perm.swap _ _ _).trans hperm.symm) (by decide +kernel)).symm
  refine ⟨hroot, hfiles, hapart, hlisted, hsame _ files.reverse_perm, t, htree, ?_⟩
  simp only [hnodes]
  unfold Begins
  decide +kernel

end Document
end Bundle
end SourceWeb
