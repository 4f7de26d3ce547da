/-
  The leaves of a tree, and the lines that draw them.

  The leaves are the nodes from which no way goes on, and they are drawn on the lines without a
  slash at the end, one each.  So every path of a tree has a leaf of its own exactly if none of them
  goes on from another one and each of them names something.

  The files of a tree are counted by its leaves.  Only a tree without paths counts otherwise than it
  is drawn: it has no leaf, but its root has nothing below it and counts as a file.
-/
import Mathlib.Data.Finset.Card
import Mathlib.Data.List.Nodup
import Mathlib.Data.List.Pairwise
import Mathlib.Data.List.Perm.Basic
import Mathlib.Data.List.Perm.Subperm
import SourceWeb.Proofs.Bundle.Drawing

namespace SourceWeb

open SourceWeb.Text

namespace Forest

/-! ### Leaves -/

/-- The ways down to the nodes with nothing below them, in the order in which these are drawn. -/
def leaves : Forest → List (List String)
  | empty => []
  | node name below others =>
    (if below.isEmpty then [[name]] else below.leaves.map (name :: ·)) ++ others.leaves

theorem mem_leaves_node {name : String} {below others : Forest} {way : List String} :
    way ∈ (node name below others).leaves ↔
      (∃ rest, way = name :: rest ∧
        (rest = [] ∧ below = empty ∨ below ≠ empty ∧ rest ∈ below.leaves)) ∨
      way ∈ others.leaves := by
  cases below with
  | empty => simp [leaves, isEmpty]
  | node s below siblings =>
    simp only [leaves, isEmpty, Bool.false_eq_true, if_false, List.mem_append, List.mem_map]
    grind

theorem exists_mem_nodes {f : Forest} (h : f ≠ empty) : ∃ way, way ∈ f.nodes := by
  cases f with
  | empty => exact absurd rfl h
  | node name below others => exact ⟨[name], mem_nodes_node.mpr (.inl ⟨[], rfl, .inl rfl⟩)⟩

/-- A leaf is a node from which no way goes on. -/
theorem mem_leaves_iff {f : Forest} (h : f.Sorted) {way : List String} :
    way ∈ f.leaves ↔ way ∈ f.nodes ∧ ∀ way' ∈ f.nodes, way <+: way' → way' = way := by
  induction f generalizing way with
  | empty => simp [leaves, nodes]
  | node name below others ihBelow ihOthers =>
    rw [mem_leaves_node, ihOthers h.2.1]
    constructor
    · rintro (⟨rest, rfl, ⟨rfl, rfl⟩ | ⟨-, hrest⟩⟩ | ⟨hway, hlast⟩)
      · refine ⟨mem_nodes_node.mpr (.inl ⟨[], rfl, .inl rfl⟩), fun way' hway' hpre => ?_⟩
        rcases mem_nodes_node.mp hway' with ⟨rest, rfl, rfl | hrest⟩ | hother
        · rfl
        · simp [nodes] at hrest
        · obtain ⟨rest, rfl⟩ := hpre
          exact absurd hother (h.not_mem_others rest)
      · obtain ⟨hnode, hlast⟩ := (ihBelow h.1).mp hrest
        have hne := ne_nil_of_mem_nodes hnode
        refine ⟨(h.mem_below_iff hne).mp hnode, fun way' hway' hpre => ?_⟩
        obtain ⟨more, rfl⟩ := hpre
        have hmore := (h.mem_below_iff (by simp [hne])).mpr hway'
        exact congrArg (name :: ·) (hlast _ hmore (List.prefix_append rest more))
      · refine ⟨mem_nodes_node.mpr (.inr hway), fun way' hway' hpre => ?_⟩
        refine hlast way' (h.mem_others_iff.mpr ⟨hway', ?_⟩) hpre
        obtain ⟨more, rfl⟩ := hpre
        rw [List.head?_append_of_ne_nil _ (ne_nil_of_mem_nodes hway)]
        exact (h.mem_others_iff.mp hway).2
    · rintro ⟨hway, hlast⟩
      rcases mem_nodes_node.mp hway with ⟨rest, rfl, rfl | hrest⟩ | hother
      · -- a node below would be one that the way goes on to
        refine .inl ⟨[], rfl, .inl ⟨rfl, ?_⟩⟩
        by_contra hbelow
        obtain ⟨more, hmore⟩ := exists_mem_nodes hbelow
        have hne := ne_nil_of_mem_nodes hmore
        have heq := hlast _ ((h.mem_below_iff hne).mp hmore) (by simp)
        exact hne (List.cons.inj heq).2
      · refine .inl ⟨rest, rfl, .inr ⟨?_, (ihBelow h.1).mpr ⟨hrest, fun more hmore hpre => ?_⟩⟩⟩
        · rintro rfl
          simp [nodes] at hrest
        · have hne := ne_nil_of_mem_nodes hmore
          have heq := hlast _ ((h.mem_below_iff hne).mp hmore)
            (List.cons_prefix_cons.mpr ⟨rfl, hpre⟩)
          exact (List.cons.inj heq).2
      · exact .inr ⟨hother, fun way' hway' => hlast way' (mem_nodes_node.mpr (.inr hway'))⟩

theorem nodup_leaves {f : Forest} (h : f.Sorted) : f.leaves.Nodup := by
  induction f with
  | empty => exact List.nodup_nil
  | node name below others ihBelow ihOthers =>
    rw [leaves]
    refine List.Nodup.append ?_ (ihOthers h.2.1) ?_
    · split
      · exact List.nodup_singleton _
      · exact (ihBelow h.1).map fun _ _ heq => (List.cons.inj heq).2
    · intro way hway hother
      have hfirst : ∃ rest, way = name :: rest := by
        split at hway
        · exact ⟨[], List.mem_singleton.mp hway⟩
        · obtain ⟨rest, -, rfl⟩ := List.mem_map.mp hway
          exact ⟨rest, rfl⟩
      obtain ⟨rest, rfl⟩ := hfirst
      exact h.not_mem_others rest ((mem_leaves_iff h.2.1).mp hother).1

/-! ### Their lines -/

/-- Does the line draw a leaf at the end of the way, with a piece for every node passed on it? -/
def DrawsLeaf (above : String) (way : List String) (l : String) : Prop :=
  ∃ (passed : List Bool) (name : String) (last : Bool), way.length = passed.length + 1 ∧
    way.getLast? = some name ∧ l = line (above ++ String.join (passed.map cell)) name last true

theorem DrawsLeaf.cons {above name : String} {last : Bool} {way : List String} {l : String}
    (h : DrawsLeaf (above ++ cell last) way l) : DrawsLeaf above (name :: way) l := by
  obtain ⟨passed, s, last', hlength, hlast, rfl⟩ := h
  refine ⟨last :: passed, s, last', by simp [hlength], ?_, ?_⟩
  · rw [List.getLast?_cons, hlast]
    rfl
  · rw [List.map_cons, String.join_cons, String.append_assoc]

/-- A line ends with a slash if there is anything below its node. -/
theorem endsWith_slash_line {above name : String} {last leaf : Bool} (h : ¬ Holds '/' name) :
    endsWith "/" (line above name last leaf) = !leaf := by
  cases leaf with
  | false =>
    exact endsWith_iff.mpr ⟨above ++ connector last ++ name, rfl⟩
  | true =>
    rw [Bool.not_true, ← Bool.not_eq_true, endsWith_iff]
    rintro ⟨start, heq⟩
    -- behind the connector stands the name alone
    have hlast := congrArg (fun s : String => s.toList.getLast?) heq
    simp only [line, if_true, String.append_empty, String.toList_append] at hlast
    rcases List.eq_nil_or_concat name.toList with hname | ⟨cs, c, hname⟩
    · cases last <;> simp [hname, connector] at hlast
    · rw [List.concat_eq_append] at hname
      rw [hname, ← List.append_assoc, List.getLast?_concat] at hlast
      have hc : c = '/' := by simpa using hlast
      exact h (by simp [Holds, hname, hc])

/-- The leaves are drawn on the lines without a slash at the end. -/
theorem forall₂_leaves {f : Forest} {above : String}
    (hf : ∀ way ∈ f.nodes, ∀ s ∈ way, ¬ Holds '/' s) :
    List.Forall₂ (DrawsLeaf above) f.leaves
      ((f.lines above).filter fun l => !endsWith "/" l) := by
  induction f generalizing above with
  | empty => exact .nil
  | node name below others ihBelow ihOthers =>
    have hname : ¬ Holds '/' name :=
      hf [name] (mem_nodes_node.mpr (.inl ⟨[], rfl, .inl rfl⟩)) name (by simp)
    have hbelow := @ihBelow (above ++ cell others.isEmpty) fun way hway s hs =>
      hf (name :: way) (mem_nodes_node.mpr (.inl ⟨way, rfl, .inr hway⟩)) s (by simp [hs])
    have hothers := @ihOthers above fun way hway =>
      hf way (mem_nodes_node.mpr (.inr hway))
    rw [lines_node, List.cons_append, List.filter_cons, endsWith_slash_line hname, Bool.not_not,
      List.filter_append, leaves]
    cases hleaf : below.isEmpty with
    | true =>
      have hempty : below = empty := by
        cases below <;> simp [isEmpty] at hleaf ⊢
      subst hempty
      refine .cons ⟨[], name, others.isEmpty, rfl, rfl, ?_⟩ hothers
      rw [List.map_nil, String.join_nil, String.append_empty]
    | false =>
      refine List.rel_append ?_ hothers
      rw [if_neg Bool.false_ne_true, List.forall₂_map_left_iff]
      exact hbelow.imp fun way l => DrawsLeaf.cons

theorem length_leaves (f : Forest) : f.leaves.length = f.leafCount := by
  induction f with
  | empty => rfl
  | node name below others ihBelow ihOthers =>
    rw [leaves, List.length_append, ihOthers]
    cases below with
    | empty => rfl
    | node s below siblings =>
      rw [leafCount, ← ihBelow, isEmpty, if_neg Bool.false_ne_true, List.length_map]
      simp

end Forest

/-! ### The leaves of a tree of paths -/

namespace Tree

/-- The leaves are the paths that no other one goes on from. -/
theorem mem_leaves_ofPaths {name : String} {paths : List String} {way : List String} :
    way ∈ (ofPaths name paths).below.leaves ↔ way ≠ [] ∧ (∃ p ∈ paths, segmentsOf p = way) ∧
      ∀ p ∈ paths, way <+: segmentsOf p → segmentsOf p = way := by
  rw [Forest.mem_leaves_iff (sorted_ofPaths name paths)]
  simp only [mem_nodes_ofPaths]
  constructor
  · rintro ⟨⟨p, hp, hne, hpre⟩, hlast⟩
    have hnode : ∀ q ∈ paths, way <+: segmentsOf q → segmentsOf q = way := fun q hq hway =>
      hlast _ ⟨q, hq, fun hnil => hne (List.prefix_nil.mp (hnil ▸ hway)), List.prefix_rfl⟩ hway
    exact ⟨hne, ⟨p, hp, hnode p hp hpre⟩, hnode⟩
  · rintro ⟨hne, ⟨p, hp, rfl⟩, hlast⟩
    refine ⟨⟨p, hp, hne, List.prefix_rfl⟩, ?_⟩
    rintro way' ⟨q, hq, -, hway'⟩ hpre
    refine hway'.eq_of_length_le ?_ |>.trans (hlast q hq (hpre.trans hway'))
    rw [hlast q hq (hpre.trans hway')]
    exact hpre.length_le

variable {name : String} {paths : List String}

theorem subperm_leaves :
    (ofPaths name paths).below.leaves.Subperm (paths.map segmentsOf) := by
  refine (Forest.nodup_leaves (sorted_ofPaths name paths)).subperm fun way hway => ?_
  obtain ⟨-, ⟨p, hp, rfl⟩, -⟩ := mem_leaves_ofPaths.mp hway
  exact List.mem_map_of_mem hp

/-- Does neither path go on from the other one? -/
def PathsApart (p q : String) : Prop :=
  ¬ segmentsOf p <+: segmentsOf q ∧ ¬ segmentsOf q <+: segmentsOf p

instance : Std.Symm PathsApart :=
  ⟨fun _ _ h => ⟨h.2, h.1⟩⟩

/-- **Every path is a leaf of its own** exactly if each of them names something and none goes on
    from another one. -/
theorem perm_leaves_iff :
    (ofPaths name paths).below.leaves.Perm (paths.map segmentsOf) ↔
      (∀ p ∈ paths, segmentsOf p ≠ []) ∧ paths.Pairwise PathsApart := by
  have hleaves := Forest.nodup_leaves (sorted_ofPaths name paths)
  constructor
  · intro h
    have hleaf : ∀ p ∈ paths, segmentsOf p ∈ (ofPaths name paths).below.leaves := fun p hp =>
      h.mem_iff.mpr (List.mem_map_of_mem hp)
    refine ⟨fun p hp => (mem_leaves_ofPaths.mp (hleaf p hp)).1, ?_⟩
    have hdiffer := List.pairwise_map.mp (h.nodup hleaves)
    refine hdiffer.imp_of_mem fun {p q} hp hq hne => ⟨fun hpre => ?_, fun hpre => ?_⟩
    · exact hne ((mem_leaves_ofPaths.mp (hleaf p hp)).2.2 q hq hpre).symm
    · exact hne ((mem_leaves_ofPaths.mp (hleaf q hq)).2.2 p hp hpre)
  · rintro ⟨hne, hapart⟩
    have hmap : (paths.map segmentsOf).Nodup := by
      refine List.pairwise_map.mpr (hapart.imp fun {p q} h heq => h.1 ?_)
      exact heq ▸ List.prefix_rfl
    refine (List.perm_ext_iff_of_nodup hleaves hmap).mpr fun way => ?_
    rw [mem_leaves_ofPaths, List.mem_map]
    constructor
    · exact fun h => h.2.1
    · rintro ⟨p, hp, rfl⟩
      refine ⟨hne p hp, ⟨p, hp, rfl⟩, fun q hq hpre => ?_⟩
      by_contra hdiffer
      have hpq : p ≠ q := by
        rintro rfl
        exact hdiffer rfl
      exact (hapart.forall hp hq hpq).1 hpre

/-! ### Counting -/

theorem isLeaf_ofPaths_iff :
    (ofPaths name paths).isLeaf = true ↔ ∀ p ∈ paths, segmentsOf p = [] := by
  have hempty : (ofPaths name paths).isLeaf = true ↔ (ofPaths name paths).below = .empty := by
    rw [isLeaf]
    cases (ofPaths name paths).below <;> simp [Forest.isEmpty]
  rw [hempty]
  constructor
  · intro hnone p hp
    by_contra hne
    have hnode : segmentsOf p ∈ (ofPaths name paths).below.nodes :=
      mem_nodes_ofPaths.mpr ⟨p, hp, hne, List.prefix_rfl⟩
    simp [hnone, Forest.nodes] at hnode
  · intro hnil
    by_contra hne
    obtain ⟨way, hway⟩ := Forest.exists_mem_nodes hne
    obtain ⟨p, hp, hbegins⟩ := mem_nodes_ofPaths.mp hway
    rw [hnil p hp] at hbegins
    exact not_begins_nil hbegins

theorem length_leafLines :
    ((ofPaths name paths).lines.tail.filter fun l => !endsWith "/" l).length =
      (ofPaths name paths).below.leafCount := by
  have hdraws : List.Forall₂ (Forest.DrawsLeaf "") (ofPaths name paths).below.leaves
      ((ofPaths name paths).lines.tail.filter fun l => !endsWith "/" l) :=
    Forest.forall₂_leaves fun _ => not_holds_of_mem_nodes
  rw [← hdraws.length_eq, Forest.length_leaves]

section

variable (hne : ∀ p ∈ paths, segmentsOf p ≠ [])
  (hends : ∀ p ∈ paths, ∀ q ∈ paths, segmentsOf p <+: segmentsOf q → segmentsOf p = segmentsOf q)

include hne hends

theorem mem_leaves_iff_of_apart {way : List String} :
    way ∈ (ofPaths name paths).below.leaves ↔ way ∈ paths.map segmentsOf := by
  rw [mem_leaves_ofPaths, List.mem_map]
  constructor
  · exact fun h => h.2.1
  · rintro ⟨p, hp, rfl⟩
    exact ⟨hne p hp, ⟨p, hp, rfl⟩, fun q hq hpre => (hends p hp q hq hpre).symm⟩

theorem leafCount_ofPaths :
    (ofPaths name paths).below.leafCount = (paths.map segmentsOf).toFinset.card := by
  have hleaves := Forest.nodup_leaves (sorted_ofPaths name paths)
  rw [← Forest.length_leaves, ← List.toFinset_card_of_nodup hleaves]
  congr 1
  ext way
  rw [List.mem_toFinset, List.mem_toFinset, mem_leaves_iff_of_apart hne hends]

/-- **A tree counts its different paths**, and draws one leaf for each of them, if every path names
    something and none goes on from another one.  Without any paths it counts its root. -/
theorem fileCount_ofPaths :
    (ofPaths name paths).fileCount =
        (if paths = [] then 1 else (paths.map segmentsOf).toFinset.card) ∧
      ((ofPaths name paths).lines.tail.filter fun l => !endsWith "/" l).length =
        (paths.map segmentsOf).toFinset.card := by
  refine ⟨?_, length_leafLines.trans (leafCount_ofPaths hne hends)⟩
  have hleaf : (ofPaths name paths).isLeaf = true ↔ paths = [] := by
    rw [isLeaf_ofPaths_iff]
    constructor
    · exact fun hnil => List.eq_nil_iff_forall_not_mem.mpr fun p hp => hne p hp (hnil p hp)
    · rintro rfl
      simp
  simp only [fileCount, hleaf, leafCount_ofPaths hne hends]

end

/-- A path in three spellings is one file; no path at all is one file too, on no line. -/
theorem fileCount_respelled :
    let paths := ["src//a.js", "./src/a.js", "b.js", "src/a.js"]
    ((∀ p ∈ paths, segmentsOf p ≠ []) ∧
      ∀ p ∈ paths, ∀ q ∈ paths, segmentsOf p <+: segmentsOf q → segmentsOf p = segmentsOf q) ∧
    (ofPaths "p" paths).fileCount = 2 ∧
    (ofPaths "p" []).fileCount = 1 ∧ (ofPaths "p" []).lines = ["p/"] := by
  intro paths
  have hne : ∀ p ∈ paths, segmentsOf p ≠ [] := by decide +kernel
  have hends : ∀ p ∈ paths, ∀ q ∈ paths, segmentsOf p <+: segmentsOf q →
      segmentsOf p = segmentsOf q := by decide +kernel
  have hnone : ∀ p ∈ ([] : List String), segmentsOf p ≠ [] := by simp
  refine ⟨⟨hne, hends⟩, (fileCount_ofPaths hne hends).1.trans (by decide +kernel), ?_, by decide⟩
  exact (fileCount_ofPaths hnone (by simp)).1

end Tree
end SourceWeb
