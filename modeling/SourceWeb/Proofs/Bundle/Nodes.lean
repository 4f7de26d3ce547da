/-
  The nodes of a tree.

  A node is told by the names on the way down to it.  Adding a path adds the nodes for its
  beginnings and no others, and siblings stand in the order of their names, so a tree is told by the
  set of its nodes: neither the order in which paths are added nor a path added twice makes a
  difference.
-/
import Mathlib.Data.List.Induction
import SourceWeb.Bundle.Tree
import SourceWeb.Proofs.Text.Order
import SourceWeb.Proofs.Text.Split

namespace SourceWeb

open SourceWeb.Text

/-! ### Beginnings of a path -/

/-- Is the list a beginning of the path, and not the empty one? -/
def Begins (way path : List String) : Prop :=
  way ≠ [] ∧ way <+: path

theorem not_begins_nil {way : List String} : ¬ Begins way [] :=
  fun h => h.1 (List.prefix_nil.mp h.2)

theorem begins_cons {way path : List String} {s : String} :
    Begins way (s :: path) ↔ ∃ rest, way = s :: rest ∧ (rest = [] ∨ Begins rest path) := by
  constructor
  · rintro ⟨hne, hpre⟩
    obtain ⟨t, rest, rfl⟩ := List.exists_cons_of_ne_nil hne
    obtain ⟨rfl, hrest⟩ := List.cons_prefix_cons.mp hpre
    refine ⟨rest, rfl, ?_⟩
    by_cases hnil : rest = []
    · exact .inl hnil
    · exact .inr ⟨hnil, hrest⟩
  · rintro ⟨rest, rfl, rfl | hrest⟩
    · exact ⟨by simp, List.cons_prefix_cons.mpr ⟨rfl, List.nil_prefix⟩⟩
    · exact ⟨by simp, List.cons_prefix_cons.mpr ⟨rfl, hrest.2⟩⟩

namespace Forest

/-! ### The ways down -/

/-- The ways down to the nodes, in the order in which the nodes are drawn. -/
def nodes : Forest → List (List String)
  | empty => []
  | node name below others => [name] :: below.nodes.map (name :: ·) ++ others.nodes

theorem mem_nodes_node {name : String} {below others : Forest} {way : List String} :
    way ∈ (node name below others).nodes ↔
      (∃ rest, way = name :: rest ∧ (rest = [] ∨ rest ∈ below.nodes)) ∨ way ∈ others.nodes := by
  simp only [nodes, List.cons_append, List.mem_cons, List.mem_append, List.mem_map]
  constructor
  · rintro (rfl | ⟨rest, hrest, rfl⟩ | h)
    · exact .inl ⟨[], rfl, .inl rfl⟩
    · exact .inl ⟨rest, rfl, .inr hrest⟩
    · exact .inr h
  · rintro (⟨rest, rfl, rfl | hrest⟩ | h)
    · exact .inl rfl
    · exact .inr (.inl ⟨rest, hrest, rfl⟩)
    · exact .inr (.inr h)

theorem mem_nodes_of_begins {f : Forest} {way way' : List String} (h : way ∈ f.nodes)
    (hbegins : Begins way' way) : way' ∈ f.nodes := by
  induction f generalizing way way' with
  | empty => simp [nodes] at h
  | node name below others ihBelow ihOthers =>
    rw [mem_nodes_node]
    rcases mem_nodes_node.mp h with ⟨rest, rfl, hrest⟩ | h
    · obtain ⟨rest', rfl, hrest'⟩ := begins_cons.mp hbegins
      refine .inl ⟨rest', rfl, hrest'.imp_right fun hbegins => ?_⟩
      rcases hrest with rfl | hrest
      · exact absurd hbegins not_begins_nil
      · exact ihBelow hrest hbegins
    · exact .inr (ihOthers h hbegins)

theorem ne_nil_of_mem_nodes {f : Forest} {way : List String} (h : way ∈ f.nodes) : way ≠ [] := by
  induction f generalizing way with
  | empty => simp [nodes] at h
  | node name below others _ ihOthers =>
    rcases mem_nodes_node.mp h with ⟨rest, rfl, -⟩ | h
    · simp
    · exact ihOthers h

/-! ### Adding paths -/

theorem mem_nodes_ofPath {path way : List String} :
    way ∈ (ofPath path).nodes ↔ Begins way path := by
  induction path generalizing way with
  | nil => simp [ofPath, nodes, not_begins_nil]
  | cons s path ih =>
    rw [ofPath, mem_nodes_node, begins_cons]
    simp only [ih, nodes, List.not_mem_nil, or_false]

/-- **Adding a path** adds the nodes for its beginnings. -/
theorem mem_nodes_insert {f : Forest} {path way : List String} :
    way ∈ (f.insert path).nodes ↔ way ∈ f.nodes ∨ Begins way path := by
  fun_induction insert f path generalizing way with
  | case1 f => simp [not_begins_nil]
  | case2 s ss => simp [mem_nodes_ofPath, nodes]
  | case3 below others s ss ih =>
    simp only [mem_nodes_node, begins_cons, ih]
    grind
  | case4 name below others s ss hne hprecedes =>
    simp only [@mem_nodes_node s, mem_nodes_ofPath, begins_cons]
    grind
  | case5 name below others s ss hne hprecedes ih =>
    simp only [mem_nodes_node, ih]
    grind

/-! ### The order of siblings -/

/-- Do siblings stand in the order of their names, each name once? -/
def Sorted : Forest → Prop
  | empty => True
  | node name below others =>
    below.Sorted ∧ others.Sorted ∧ ∀ s, [s] ∈ others.nodes → precedes name s = true

theorem sorted_ofPath (path : List String) : (ofPath path).Sorted := by
  induction path with
  | nil => trivial
  | cons s path ih => exact ⟨ih, trivial, by simp [nodes]⟩

theorem Sorted.insert {f : Forest} (h : f.Sorted) (path : List String) :
    (f.insert path).Sorted := by
  fun_induction Forest.insert f path with
  | case1 f => exact h
  | case2 s ss => exact sorted_ofPath _
  | case3 below others s ss ih => exact ⟨ih h.1, h.2⟩
  | case4 name below others s ss hne hprecedes =>
    refine ⟨sorted_ofPath ss, h, fun t ht => ?_⟩
    rcases mem_nodes_node.mp ht with ⟨rest, heq, -⟩ | ht
    · cases heq
      exact hprecedes
    · exact precedes_trans hprecedes (h.2.2 t ht)
  | case5 name below others s ss hne hprecedes ih =>
    refine ⟨h.1, ih h.2.1, fun t ht => ?_⟩
    rcases mem_nodes_insert.mp ht with ht | ht
    · exact h.2.2 t ht
    · obtain ⟨rest, heq, -⟩ := begins_cons.mp ht
      cases heq
      exact (precedes_or hne).resolve_left hprecedes

section

variable {name : String} {below others : Forest} (h : (node name below others).Sorted)

include h

/-- The first of the siblings has a name of its own. -/
theorem Sorted.not_mem_others (rest : List String) : name :: rest ∉ others.nodes := by
  intro hmem
  have hfirst : [name] ∈ others.nodes :=
    mem_nodes_of_begins hmem (begins_cons.mpr ⟨[], rfl, .inl rfl⟩)
  have hself := h.2.2 name hfirst
  rw [precedes_asymm hself] at hself
  simp at hself

theorem Sorted.mem_below_iff {rest : List String} (hne : rest ≠ []) :
    rest ∈ below.nodes ↔ name :: rest ∈ (node name below others).nodes := by
  rw [mem_nodes_node]
  constructor
  · exact fun hrest => .inl ⟨rest, rfl, .inr hrest⟩
  · rintro (⟨rest', heq, hrest⟩ | hmem)
    · cases heq
      exact hrest.resolve_left hne
    · exact absurd hmem (h.not_mem_others rest)

theorem Sorted.mem_others_iff {way : List String} :
    way ∈ others.nodes ↔ way ∈ (node name below others).nodes ∧ way.head? ≠ some name := by
  rw [mem_nodes_node]
  constructor
  · refine fun hway => ⟨.inr hway, fun hhead => ?_⟩
    obtain ⟨rest, rfl⟩ := List.head?_eq_some_iff.mp hhead
    exact h.not_mem_others rest hway
  · rintro ⟨⟨rest, rfl, -⟩ | hway, hhead⟩
    · simp at hhead
    · exact hway

end

/-- **A tree is told by its nodes.** -/
theorem eq_of_mem_nodes_iff {f g : Forest} (hf : f.Sorted) (hg : g.Sorted)
    (h : ∀ way, way ∈ f.nodes ↔ way ∈ g.nodes) : f = g := by
  induction f generalizing g with
  | empty =>
    cases g with
    | empty => rfl
    | node name below others =>
      have hmem := (h [name]).mpr (mem_nodes_node.mpr (.inl ⟨[], rfl, .inl rfl⟩))
      simp [nodes] at hmem
  | node name below others ihBelow ihOthers =>
    cases g with
    | empty =>
      have hmem := (h [name]).mp (mem_nodes_node.mpr (.inl ⟨[], rfl, .inl rfl⟩))
      simp [nodes] at hmem
    | node name' below' others' =>
      -- the first sibling of each is the least of the names, which are the same
      have hname : name = name' := by
        by_contra hne
        have hfirst := (h [name]).mp (mem_nodes_node.mpr (.inl ⟨[], rfl, .inl rfl⟩))
        have hfirst' := (h [name']).mpr (mem_nodes_node.mpr (.inl ⟨[], rfl, .inl rfl⟩))
        have hlt := hg.2.2 name (hg.mem_others_iff.mpr ⟨hfirst, by simpa using hne⟩)
        have hlt' := hf.2.2 name' (hf.mem_others_iff.mpr ⟨hfirst', by simpa using Ne.symm hne⟩)
        rw [precedes_asymm hlt] at hlt'
        simp at hlt'
      subst hname
      have hbelow : below = below' := by
        refine ihBelow hf.1 hg.1 fun way => ?_
        by_cases hne : way = []
        · exact iff_of_false (fun hway => ne_nil_of_mem_nodes hway hne)
            fun hway => ne_nil_of_mem_nodes hway hne
        · rw [hf.mem_below_iff hne, hg.mem_below_iff hne, h]
      have hothers : others = others' :=
        ihOthers hf.2.1 hg.2.1 fun way => by rw [hf.mem_others_iff, hg.mem_others_iff, h]
      rw [hbelow, hothers]

end Forest

/-! ### Trees of paths -/

namespace Tree

theorem ofPaths_concat (name : String) (paths : List String) (path : String) :
    ofPaths name (paths ++ [path]) = (ofPaths name paths).insert path := by
  simp [ofPaths]

theorem name_ofPaths (name : String) (paths : List String) : (ofPaths name paths).name = name := by
  induction paths using List.reverseRecOn with
  | nil => rfl
  | append_singleton paths path ih => rw [ofPaths_concat, insert, ih]

theorem sorted_ofPaths (name : String) (paths : List String) :
    (ofPaths name paths).below.Sorted := by
  induction paths using List.reverseRecOn with
  | nil => trivial
  | append_singleton paths path ih =>
    rw [ofPaths_concat]
    exact ih.insert (segmentsOf path)

/-- The nodes of a tree are the beginnings of its paths. -/
theorem mem_nodes_ofPaths {name : String} {paths : List String} {way : List String} :
    way ∈ (ofPaths name paths).below.nodes ↔ ∃ p ∈ paths, Begins way (segmentsOf p) := by
  induction paths using List.reverseRecOn with
  | nil => simp [ofPaths, Forest.nodes]
  | append_singleton paths path ih =>
    rw [ofPaths_concat, insert, Forest.mem_nodes_insert, ih]
    simp [or_and_right, exists_or]

/-- The name of a node holds no slash, and is neither empty nor a dot. -/
theorem of_mem_segmentsOf {path s : String} (h : s ∈ segmentsOf path) :
    ¬ Holds '/' s ∧ s ≠ "" ∧ s ≠ "." := by
  obtain ⟨hs, hkept⟩ := List.mem_filter.mp h
  exact ⟨not_holds_of_mem_splitChar hs, by simpa using hkept⟩

theorem not_holds_of_mem_nodes {name : String} {paths : List String} {way : List String}
    (h : way ∈ (ofPaths name paths).below.nodes) : ∀ s ∈ way, ¬ Holds '/' s := by
  obtain ⟨p, -, -, hpre⟩ := mem_nodes_ofPaths.mp h
  exact fun s hs => (of_mem_segmentsOf (hpre.subset hs)).1

/-- Trees of paths are equal if their names are and their paths have the same beginnings. -/
theorem ofPaths_eq_iff {name name' : String} {paths paths' : List String} :
    ofPaths name paths = ofPaths name' paths' ↔ name = name' ∧ ∀ way,
      (∃ p ∈ paths, Begins way (segmentsOf p)) ↔ ∃ p ∈ paths', Begins way (segmentsOf p) := by
  have hnodes : ∀ name paths way, (∃ p ∈ paths, Begins way (segmentsOf p)) ↔
      way ∈ (ofPaths name paths).below.nodes := fun _ _ _ => mem_nodes_ofPaths.symm
  constructor
  · intro h
    refine ⟨?_, fun way => by rw [hnodes name paths, h, ← hnodes name' paths']⟩
    rw [← name_ofPaths name paths, h, name_ofPaths]
  · rintro ⟨rfl, h⟩
    have hname : (ofPaths name paths).name = (ofPaths name paths').name := by
      rw [name_ofPaths, name_ofPaths]
    have hbelow : (ofPaths name paths).below = (ofPaths name paths').below :=
      Forest.eq_of_mem_nodes_iff (sorted_ofPaths _ _) (sorted_ofPaths _ _) fun way => by
        rw [← hnodes, ← hnodes, h]
    calc ofPaths name paths
      _ = ⟨(ofPaths name paths).name, (ofPaths name paths).below⟩ := rfl
      _ = ⟨(ofPaths name paths').name, (ofPaths name paths').below⟩ := by rw [hname, hbelow]
      _ = ofPaths name paths' := rfl

end Tree

end SourceWeb
