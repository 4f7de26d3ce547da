/-
  Drawings of trees.

  In the line of a node there stand, behind what is drawn for the nodes above it, a connector, the
  name, and a slash if there is anything below.  Each of the four pieces that are drawn in front of
  a name has four characters and another first one, and no name holds a slash, so a line tells what
  it was put together from, whatever the name looks like; and the lines below a node are those up to
  the next one that does not begin as they do.
-/
import SourceWeb.Proofs.Bundle.Nodes

namespace SourceWeb

open SourceWeb.Text

namespace Forest

/-! ### Lines -/

/-- What is drawn for a node in the lines below it; `last` tells whether siblings follow it. -/
def cell (last : Bool) : String :=
  if last then "    " else "│   "

/-- What is drawn in front of the name of a node. -/
def connector (last : Bool) : String :=
  if last then "└── " else "├── "

def line (above name : String) (last leaf : Bool) : String :=
  above ++ connector last ++ name ++ (if leaf then "" else "/")

theorem lines_node (above name : String) (below others : Forest) :
    (node name below others).lines above =
      line above name others.isEmpty below.isEmpty ::
        below.lines (above ++ cell others.isEmpty) ++ others.lines above :=
  rfl

theorem length_connector (last : Bool) : (connector last).toList.length = 4 := by
  cases last <;> rfl

theorem connector_inj {last last' : Bool}
    (h : (connector last).toList = (connector last').toList) : last = last' := by
  cases last <;> cases last' <;> simp [connector] at h ⊢

/-- A name without a slash can be told from the slash behind it. -/
theorem name_slash_inj {name name' : String} {leaf leaf' : Bool} (h : ¬ Holds '/' name)
    (h' : ¬ Holds '/' name')
    (heq : name ++ (if leaf then "" else "/") = name' ++ (if leaf' then "" else "/")) :
    name = name' ∧ leaf = leaf' := by
  cases leaf <;> cases leaf' <;> simp at heq ⊢
  · exact heq
  · exact h' (by simp [Holds, ← heq])
  · exact h (by simp [Holds, heq])
  · exact heq

/-- A line tells what it was put together from. -/
theorem line_inj {above name name' : String} {last last' leaf leaf' : Bool}
    (h : ¬ Holds '/' name) (h' : ¬ Holds '/' name')
    (heq : line above name last leaf = line above name' last' leaf') :
    name = name' ∧ last = last' ∧ leaf = leaf' := by
  have hlists := congrArg String.toList heq
  simp only [line, String.append_assoc, String.toList_append (s := above),
    List.append_cancel_left_eq, String.toList_append (s := connector _)] at hlists
  obtain ⟨hconnector, hname⟩ :=
    List.append_inj hlists (by rw [length_connector, length_connector])
  obtain ⟨hname, hleaf⟩ := name_slash_inj h h' (String.toList_inj.mp hname)
  exact ⟨hname, connector_inj hconnector, hleaf⟩

/-! ### The lines below a node -/

/-- What is drawn for the nodes above stands in front of every line. -/
theorem startsWith_of_mem_lines {f : Forest} {above l : String} (h : l ∈ f.lines above) :
    startsWith above l = true := by
  induction f generalizing above with
  | empty => simp [lines] at h
  | node name below others ihBelow ihOthers =>
    rw [lines_node, List.cons_append, List.mem_cons, List.mem_append] at h
    rcases h with rfl | h | h
    · rw [line, String.append_assoc, String.append_assoc]
      exact startsWith_iff_append.mpr ⟨_, rfl⟩
    · obtain ⟨rest, rfl⟩ := startsWith_iff_append.mp (ihBelow h)
      rw [String.append_assoc]
      exact startsWith_iff_append.mpr ⟨_, rfl⟩
    · exact ihOthers h

/-- A connector is none of the pieces that are drawn for nodes further up. -/
theorem startsWith_cell_line (above name : String) (up last leaf : Bool) :
    startsWith (above ++ cell up) (line above name last leaf) = false := by
  rw [← Bool.not_eq_true, startsWith_iff_append]
  rintro ⟨rest, hrest⟩
  have hlists := congrArg String.toList hrest
  simp only [line, String.append_assoc, String.toList_append, List.append_cancel_left_eq] at hlists
  cases up <;> cases last <;> simp [cell, connector] at hlists

/-- The lines below a node are those up to the next one that does not begin as they do. -/
theorem takeWhile_below (below others : Forest) (above : String) (last : Bool) :
    (below.lines (above ++ cell last) ++ others.lines above).takeWhile
      (startsWith (above ++ cell last)) = below.lines (above ++ cell last) := by
  have hothers : (others.lines above).takeWhile (startsWith (above ++ cell last)) = [] := by
    cases others with
    | empty => rfl
    | node name below others =>
      rw [lines_node, List.cons_append,
        List.takeWhile_cons_of_neg (by simp [startsWith_cell_line])]
  rw [List.takeWhile_append_of_pos fun l hl => startsWith_of_mem_lines hl, hothers,
    List.append_nil]

/-! ### What a drawing tells -/

/-- **A drawing tells its nodes**, whatever their names look like, as long as they hold no slash. -/
theorem eq_of_lines_eq {f g : Forest} {above : String}
    (hf : ∀ way ∈ f.nodes, ∀ s ∈ way, ¬ Holds '/' s)
    (hg : ∀ way ∈ g.nodes, ∀ s ∈ way, ¬ Holds '/' s) (h : f.lines above = g.lines above) :
    f = g := by
  induction f generalizing g above with
  | empty =>
    cases g with
    | empty => rfl
    | node name below others => simp [lines] at h
  | node name below others ihBelow ihOthers =>
    cases g with
    | empty => simp [lines] at h
    | node name' below' others' =>
      rw [lines_node, lines_node, List.cons_append, List.cons_append, List.cons.injEq] at h
      obtain ⟨hline, hrest⟩ := h
      obtain ⟨rfl, hlast, hleaf⟩ := line_inj
        (hf [name] (mem_nodes_node.mpr (.inl ⟨[], rfl, .inl rfl⟩)) name (by simp))
        (hg [name'] (mem_nodes_node.mpr (.inl ⟨[], rfl, .inl rfl⟩)) name' (by simp)) hline
      rw [← hlast] at hrest
      -- both drawings go on with the lines that begin as those below the first node do
      have hbelow : below.lines (above ++ cell others.isEmpty) =
          below'.lines (above ++ cell others.isEmpty) := by
        rw [← takeWhile_below below others, hrest, takeWhile_below]
      rw [hbelow, List.append_cancel_left_eq] at hrest
      rw [ihBelow (fun way hway s hs => ?_) (fun way hway s hs => ?_) hbelow,
        ihOthers (fun way hway => ?_) (fun way hway => ?_) hrest]
      · exact hf way (mem_nodes_node.mpr (.inr hway))
      · exact hg way (mem_nodes_node.mpr (.inr hway))
      · exact hf (name :: way) (mem_nodes_node.mpr (.inl ⟨way, rfl, .inr hway⟩)) s (by simp [hs])
      · exact hg (name :: way) (mem_nodes_node.mpr (.inl ⟨way, rfl, .inr hway⟩)) s (by simp [hs])

end Forest

namespace Tree

theorem lines_ofPaths (name : String) (paths : List String) :
    (ofPaths name paths).lines = (name ++ "/") :: (ofPaths name paths).below.lines "" := by
  rw [lines, name_ofPaths]

/-- A drawing tells the tree. -/
theorem lines_eq_iff_eq {name name' : String} {paths paths' : List String} :
    (ofPaths name paths).lines = (ofPaths name' paths').lines ↔
      ofPaths name paths = ofPaths name' paths' := by
  constructor
  · intro h
    rw [lines_ofPaths, lines_ofPaths, List.cons.injEq, String.append_left_inj] at h
    obtain ⟨rfl, hlines⟩ := h
    have hbelow := Forest.eq_of_lines_eq (fun _ => not_holds_of_mem_nodes)
      (fun _ => not_holds_of_mem_nodes) hlines
    rw [ofPaths_eq_iff]
    refine ⟨rfl, fun way => ?_⟩
    calc (∃ p ∈ paths, Begins way (segmentsOf p))
      _ ↔ way ∈ (ofPaths name paths).below.nodes := mem_nodes_ofPaths.symm
      _ ↔ way ∈ (ofPaths name paths').below.nodes := by rw [hbelow]
      _ ↔ ∃ p ∈ paths', Begins way (segmentsOf p) := mem_nodes_ofPaths
  · exact fun h => by rw [h]

/-- Sorting the paths before they are added makes no difference. -/
theorem ofSorted_eq (name : String) (paths : List String) :
    ofSorted name paths = ofPaths name paths := by
  refine ofPaths_eq_iff.mpr ⟨rfl, fun way => ?_⟩
  simp only [List.mem_mergeSort]

/-- **A drawing tells which paths were drawn, and nothing else does.**  Two drawings are the same
    exactly if the roots have one name and the paths, cut at their slashes and without empty
    segments and dots, have the same beginnings.  Then the trees are the same.  It is of no account
    in which order the paths are added, how often, or whether they are sorted before. -/
theorem lines_eq_iff (name name' : String) (paths paths' : List String) :
    ((ofPaths name paths).lines = (ofPaths name' paths').lines ↔
      name = name' ∧ ∀ way, (∃ p ∈ paths, Begins way (segmentsOf p)) ↔
        ∃ p ∈ paths', Begins way (segmentsOf p)) ∧
    ((ofPaths name paths).lines = (ofPaths name' paths').lines ↔
      ofPaths name paths = ofPaths name' paths') ∧
    ((∀ p, p ∈ paths ↔ p ∈ paths') → (ofPaths name paths).lines = (ofPaths name paths').lines) ∧
    (ofSorted name paths).lines = (ofPaths name paths).lines := by
  refine ⟨lines_eq_iff_eq.trans ofPaths_eq_iff, lines_eq_iff_eq, fun h => ?_, ?_⟩
  · exact lines_eq_iff_eq.mpr (ofPaths_eq_iff.mpr ⟨rfl, fun way => by simp only [h]⟩)
  · rw [ofSorted_eq]

end Tree

end SourceWeb
