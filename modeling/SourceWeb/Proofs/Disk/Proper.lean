/-
  Disks as they are: the entries of a folder have names, and different ones.

  The place of a file, spelled as a path, leads back to that place, unless it is too long.
-/
import Mathlib.Data.List.Induction
import SourceWeb.Proofs.Discovery.Identity

namespace SourceWeb

open SourceWeb.Path SourceWeb.Text

namespace Folder

/-- Do the entries of the folder, and of all folders below it, have different names? -/
def Proper : Folder → Prop
  | .empty => True
  | .file name _ others => IsName name ∧ others.get? name = none ∧ others.Proper
  | .link name _ others | .special name others =>
    IsName name ∧ others.get? name = none ∧ others.Proper
  | .folder name inside others =>
    IsName name ∧ others.get? name = none ∧ inside.Proper ∧ others.Proper

theorem get?_cons (name n : String) (e : Entry) (others : Folder) :
    (cons name e others).get? n = if n = name then some e else others.get? n := by
  rw [get?, entries_cons, List.lookup_cons]
  by_cases h : n = name
  · simp [h]
  · have hne : (n == name) = false := by simpa using h
    rw [hne, if_neg h]
    rfl

/-- The names in a proper folder are names, and the folders in it are proper. -/
theorem Proper.of_mem {f : Folder} (hf : f.Proper) {name : String} {e : Entry}
    (h : (name, e) ∈ f.entries) : IsName name ∧ ∀ inside, e = .folder inside → inside.Proper := by
  induction f with
  | empty => simp [entries] at h
  | file n content others ih | link n content others ih | special n others ih =>
    rcases List.mem_cons.mp h with heq | h
    · cases heq
      exact ⟨hf.1, by simp⟩
    · exact ih hf.2.2 h
  | folder n inside others _ ih =>
    rcases List.mem_cons.mp h with heq | h
    · cases heq
      refine ⟨hf.1, ?_⟩
      rintro f ⟨⟩
      exact hf.2.2.1
    · exact ih hf.2.2.2 h

/-- The folders of a proper one are proper, and stand at places of names. -/
theorem Proper.of_at? {f : Folder} (hf : f.Proper) {names : List String} {e : Entry}
    (h : f.at? names = some e) :
    (∀ s ∈ names, IsName s) ∧ ∀ inside, e = .folder inside → inside.Proper := by
  refine at?_keeps (P := fun names e =>
    (∀ s ∈ names, IsName s) ∧ ∀ inside, e = .folder inside → inside.Proper) ?_ ?_ h
  · refine ⟨by simp, ?_⟩
    rintro g ⟨⟩
    exact hf
  · rintro names inside name e ⟨hnames, hproper⟩ hget
    obtain ⟨hname, hentry⟩ := (hproper inside rfl).of_mem (mem_entries_of_get? hget)
    refine ⟨fun s hs => ?_, hentry⟩
    rcases List.mem_append.mp hs with hs | hs
    · exact hnames s hs
    · exact List.mem_singleton.mp hs ▸ hname

/-- Below something that is no folder stands nothing. -/
theorem eq_nil_of_at?_append {f : Folder} {names below : List String} {e : Entry}
    (h : f.at? names = some e) (he : ∀ inside, e ≠ .folder inside)
    (hbelow : (f.at? (names ++ below)).isSome = true) : below = [] := by
  induction below using List.reverseRecOn with
  | nil => rfl
  | append_singleton below last ih =>
    rw [← List.append_assoc, at?_append_singleton] at hbelow
    have hmid : (f.at? (names ++ below)).isSome = true := by
      cases hat : f.at? (names ++ below) with
      | none => simp [hat] at hbelow
      | some mid => rfl
    rw [ih hmid, List.append_nil, h] at hbelow
    cases e with
    | folder inside => exact absurd rfl (he inside)
    | file content | link target | special => simp at hbelow

end Folder

/-- A disk whose folders have entries of different names, and whose current directory is a place of
    names. -/
structure Disk.Proper (d : Disk) : Prop where
  root : d.root.Proper
  here : d.HereNamed

namespace Disk

/-! ### Segment after segment -/

/-- A look-up of segments that some further ones stand behind passes the place that the first ones
    lead to. -/
theorem exists_resolve_of_append {root : Folder} {limit : Nat} {at_ loc : Location}
    {todo rest : List String} (h : resolve root .find limit at_ (todo ++ rest) = .ok loc) :
    ∃ mid jump, resolve root .find limit at_ todo = .ok mid ∧
      walk root .find jump mid rest = .ok loc := by
  induction limit generalizing at_ todo with
  | zero =>
    rcases walk_append h with ⟨mid, hmid, hrest⟩ | ⟨at', todo', -, hjump⟩
    · exact ⟨mid, _, hmid, hrest⟩
    · simp at hjump
  | succ limit ih =>
    rcases walk_append h with ⟨mid, hmid, hrest⟩ | ⟨at', todo', htodo, hjump⟩
    · exact ⟨mid, _, hmid, hrest⟩
    · obtain ⟨mid, jump, hmid, hrest⟩ := ih hjump
      exact ⟨mid, jump, htodo.trans hmid, hrest⟩

/-! ### Full paths -/

theorem resolve_root_cons {root : Folder} {limit : Nat} {s : String} (hs : s = "" ∨ s = "..")
    (todo : List String) :
    resolve root .find limit [] (s :: todo) = resolve root .find limit [] todo := by
  have hwalk (jump : Location → List String → Except OsError Location) :
      walk root .find jump [] (s :: todo) = walk root .find jump [] todo := by
    rcases hs with rfl | rfl <;> simp [walk, Folder.at?]
  cases limit <;> exact hwalk _

/-- The names of a full path lead from the root to its place: from there `..` leads nowhere. -/
theorem follow_of_isFull (d : Disk) {p : Path} (hp : p.IsFull) :
    d.follow .find p = resolve d.root .find linkLimit [] p.names := by
  obtain ⟨ups, hups, htidy, hcomponents⟩ := hp.components
  rw [follow, if_pos hp.absolute]
  by_cases hne : ups ++ p.names.map .name = []
  · -- the root
    obtain ⟨rfl, hnames⟩ := List.append_eq_nil_iff.mp hne
    have hroot : p.segments = ["", ""] := by
      rw [← htidy, hcomponents, hnames]
      decide
    rw [hroot, List.map_eq_nil_iff.mp hnames, resolve_root_cons (.inl rfl),
      resolve_root_cons (.inl rfl)]
  · rw [segments_of_components_root htidy hne hcomponents, resolve_root_cons (.inl rfl),
      List.map_append, map_text_map_name]
    rcases hups with rfl | rfl
    · rfl
    · exact resolve_root_cons (.inr rfl) _

/-- A regular file is not on the way to another one. -/
theorem names_eq_of_isPrefix {d : Disk} {p q : Path} (hp : p.IsFull) (hq : q.IsFull)
    (hpFile : d.isFile p = true) (hqFile : d.isFile q = true) (h : p.names <+: q.names) :
    p.names = q.names := by
  obtain ⟨rest, hrest⟩ := h
  cases rest with
  | nil => rw [← hrest, List.append_nil]
  | cons s rest =>
    obtain ⟨content, hcontent⟩ := isFile_iff.mp hpFile
    obtain ⟨content', hcontent'⟩ := isFile_iff.mp hqFile
    obtain ⟨-, loc, hloc, hat⟩ := entry?_eq_ok.mp hcontent
    obtain ⟨-, loc', hloc', -⟩ := entry?_eq_ok.mp hcontent'
    rw [follow_of_isFull d hq, ← hrest] at hloc'
    obtain ⟨mid, jump, hmid, hwalk⟩ := exists_resolve_of_append hloc'
    rw [follow_of_isFull d hp, hmid] at hloc
    cases hloc
    obtain ⟨f, hf⟩ := exists_folder_of_walk_cons hwalk
    rw [hat] at hf
    simp at hf

theorem names_ne_nil_of_isFile {d : Disk} {p : Path} (hp : p.IsFull) (h : d.isFile p = true) :
    p.names ≠ [] := by
  intro hnil
  obtain ⟨content, hcontent⟩ := isFile_iff.mp h
  obtain ⟨-, loc, hloc, hat⟩ := entry?_eq_ok.mp hcontent
  rw [follow_of_isFull d hp, hnil] at hloc
  cases hloc
  simp [Folder.at?] at hat

/-! ### The entries of a folder -/

/-- What is followed to a place is followed there without a slash at its end. -/
theorem resolve_base_of_follow {d : Disk} {p : Path} {loc : Location}
    (h : d.follow .find p = .ok loc) :
    resolve d.root .find linkLimit (if p.isAbsolute then [] else d.here) p.base = .ok loc := by
  rw [follow] at h
  rcases segments_eq_base_or p with hbase | hbase
  · rw [← hbase]
    exact h
  · rw [hbase] at h
    obtain ⟨mid, jump, hmid, hrest⟩ := exists_resolve_of_append h
    obtain ⟨f, hf⟩ := exists_folder_of_walk_cons hrest
    rw [walk_cons_to (stride_idle hf rfl)] at hrest
    cases hrest
    exact hmid

/-- What stands at the end of the path, if it can be followed. -/
def Stands (d : Disk) (p : Path) (e : Entry) : Prop :=
  ∀ loc, resolve d.root .find linkLimit (if p.isAbsolute then [] else d.here) p.base = .ok loc →
    d.root.at? loc = some e

variable {d : Disk}

theorem stands_of_entry? {p : Path} {e : Entry} (h : d.entry? p = .ok e) : d.Stands p e := by
  obtain ⟨-, loc, hloc, hat⟩ := entry?_eq_ok.mp h
  intro loc' hloc'
  rw [resolve_base_of_follow hloc] at hloc'
  cases hloc'
  exact hat

theorem Stands.child {p : Path} {f : Folder} {name : String} {e : Entry} (hp : p.text ≠ "")
    (h : d.Stands p (.folder f)) (hname : IsName name) (he : f.get? name = some e)
    (hlink : ∀ target, e ≠ .link target) : d.Stands (p.child name) e := by
  have hrel : isAbsolute ⟨name⟩ = false := isAbsolute_eq_false_of_segment hname.2.2.2
  have habs : (p.child name).isAbsolute = p.isAbsolute := by
    rw [isAbsolute, isAbsolute, Path.child, text_join_head hp hrel]
  have hbase : (p.child name).base = p.base ++ [name] := by
    have hsegments : (p.child name).base = (p.child name).segments :=
      base_child p (c := .name name) hname
    rw [hsegments, Path.child, segments_join hrel, segments_of_not_holds hname.2.2.2]
  intro loc hloc
  rw [habs, hbase] at hloc
  obtain ⟨mid, jump, hmid, hrest⟩ := exists_resolve_of_append hloc
  have hat := h mid hmid
  have hbelow : d.root.at? (mid ++ [name]) = some e := by
    rwa [Folder.at?_append_singleton, hat]
  rcases walk_cons.mp hrest with ⟨next, hstride, hdone⟩ | ⟨start, target, hstride, -⟩
  · obtain ⟨rfl, -⟩ := stride_name hname hstride
    cases hdone
    exact hbelow
  · rw [(stride_link hstride).1] at hbelow
    exact absurd (Option.some.inj hbelow).symm (hlink target)

/-- What stands at the end of a step down is not a directory if it is no folder. -/
theorem Stands.isDir_eq_false {p : Path} {c : Component} (hc : c.IsStep) {e : Entry}
    (h : d.Stands (p.child c.text) e) (he : ∀ f, e ≠ .folder f) :
    d.isDir (p.child c.text) = false := by
  rw [← Bool.not_eq_true, isDir_iff]
  rintro ⟨f, hf⟩
  obtain ⟨-, loc, hloc, hat⟩ := entry?_eq_ok.mp hf
  rw [follow, ← base_child p hc] at hloc
  rw [h loc hloc] at hat
  exact he f (Option.some.inj hat)

/-! ### Plain paths -/

/-- Does the path spell the place of a file or a folder, so that no link stands on the way? -/
def Plain (d : Disk) (p : Path) : Prop :=
  ∃ loc e, p = pathOf loc ∧ d.root.at? loc = some e ∧ ∀ target, e ≠ .link target

theorem walk_names {root : Folder} {jump : Location → List String → Except OsError Location}
    {at_ loc : Location} {names : List String} {e : Entry} (hnames : ∀ s ∈ names, IsName s)
    (hat : root.at? (at_ ++ names) = some e) (he : ∀ target, e ≠ .link target)
    (h : walk root .find jump at_ names = .ok loc) : loc = at_ ++ names := by
  induction names generalizing at_ with
  | nil =>
    cases h
    simp
  | cons s names ih =>
    have hsplit : at_ ++ s :: names = (at_ ++ [s]) ++ names := by simp
    rw [hsplit] at hat ⊢
    rcases walk_cons.mp h with ⟨mid, hstride, h⟩ | ⟨start, target, hstride, -⟩
    · obtain ⟨rfl, -⟩ := stride_name (hnames s (by simp)) hstride
      exact ih (fun t ht => hnames t (by simp [ht])) hat h
    · -- a link has nothing below it
      have hlink := (stride_link hstride).1
      have hnil : names = [] := Folder.eq_nil_of_at?_append hlink (by simp) (by rw [hat]; rfl)
      rw [hnil, List.append_nil, hlink] at hat
      exact absurd (Option.some.inj hat).symm (he target)

theorem segments_pathOf {loc : Location} (hne : loc ≠ []) (h : ∀ s ∈ loc, IsName s) :
    (pathOf loc).segments = "" :: loc := by
  rw [pathOf, slash_append_intercalate hne, segments_mk_intercalate (by simp)]
  intro t ht
  rcases List.mem_cons.mp ht with rfl | ht
  · exact not_holds_empty
  · exact (h t ht).2.2.2

/-- A plain path leads to the place that it spells. -/
theorem follow_pathOf {loc loc' : Location} {e : Entry} (hnames : ∀ s ∈ loc, IsName s)
    (hat : d.root.at? loc = some e) (he : ∀ target, e ≠ .link target)
    (h : d.follow .find (pathOf loc) = .ok loc') : loc' = loc := by
  have habs : (pathOf loc).isAbsolute = true := isAbsolute_pathOf loc
  have hresolve : ∃ jump, walk d.root .find jump [] (pathOf loc).segments = .ok loc' := by
    rw [follow, if_pos habs] at h
    exact ⟨_, h⟩
  obtain ⟨jump, hwalk⟩ := hresolve
  cases loc with
  | nil =>
    have hseg : (pathOf []).segments = ["", ""] := by decide
    rw [hseg] at hwalk
    simpa [walk, Folder.at?] using hwalk.symm
  | cons s names =>
    rw [segments_pathOf (List.cons_ne_nil s names) hnames] at hwalk
    have hroot : walk d.root .find jump [] (s :: names) = .ok loc' := by
      rw [walk] at hwalk
      simpa [Folder.at?] using hwalk
    exact walk_names hnames (hat : d.root.at? ([] ++ s :: names) = some e) he hroot

end Disk

/-- A file or a folder is known under its place. -/
theorem Discovery.Setting.identity_of_plain {s : Setting} (hd : s.disk.Proper) {p : Path}
    (h : s.disk.Plain p) : s.identity p = p := by
  obtain ⟨loc, e, rfl, hat, he⟩ := h
  have hnames : ∀ n ∈ loc, IsName n := (hd.root.of_at? hat).1
  have habs : (Disk.pathOf loc).isAbsolute = true := Disk.isAbsolute_pathOf loc
  have habsolute : s.absoluteOf (Disk.pathOf loc) = Disk.pathOf loc := by
    rw [absoluteOf, if_pos habs]
  rcases s.identity_cases (Disk.pathOf loc) with ⟨loc', hloc', hid⟩ | hid
  · rw [habsolute] at hloc'
    rw [hid, Disk.follow_pathOf hnames hat he hloc']
  · rw [hid, habsolute]
    exact (Disk.isFull_pathOf hnames).normal

end SourceWeb
