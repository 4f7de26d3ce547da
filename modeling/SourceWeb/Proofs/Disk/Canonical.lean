/-
  Canonical paths.

  A look-up never ends at a link, and the path of the place where it ends leads to that place again.
  Spelling out where it is, it ends at the same place, unless a path on its way is too long; so
  where no place has a long path, whatever leads somewhere has a canonical path, files as well as
  what real directories lead to below them.  There are no more canonical paths of files than files.
-/
import SourceWeb.Disk.Edit
import SourceWeb.Proofs.Disk.Names
import SourceWeb.Proofs.Disk.Way

namespace SourceWeb

open SourceWeb.Path SourceWeb.Text

/-- Can a folder hold the names in this one and below it?  They are short enough and have no null
    byte. -/
def Folder.Fits (f : Folder) : Prop :=
  ∀ name ∈ f.allNames, ¬ Holds '\x00' name ∧ Disk.isLongName name = false

namespace Folder

/-- Where something stands, a folder stands above it. -/
theorem exists_folder_of_at?_append {f : Folder} {names : List String} {name : String}
    {rest : List String} (h : (f.at? (names ++ name :: rest)).isSome = true) :
    ∃ g e, f.at? names = some (.folder g) ∧ g.get? name = some e := by
  induction rest using List.reverseRecOn with
  | nil =>
    rw [at?_append_singleton] at h
    cases hat : f.at? names with
    | none => simp [hat] at h
    | some e =>
      cases e with
      | folder g =>
        rw [hat] at h
        obtain ⟨e, he⟩ := Option.isSome_iff_exists.mp h
        exact ⟨g, e, rfl, he⟩
      | file content | link target | special => simp [hat] at h
  | append_singleton rest last ih =>
    refine ih ?_
    have hdrop := at?_dropLast h
    rwa [← List.cons_append, ← List.append_assoc, List.dropLast_concat] at hdrop

/-- Above what is no link stands no link either. -/
theorem exists_at?_of_prefix {f : Folder} {above names : List String} (h : above <+: names)
    {e : Entry} (hat : f.at? names = some e) (hlink : ∀ target, e ≠ .link target) :
    ∃ e', f.at? above = some e' ∧ ∀ target, e' ≠ .link target := by
  obtain ⟨rest, rfl⟩ := h
  cases rest with
  | nil =>
    rw [List.append_nil] at hat
    exact ⟨e, hat, hlink⟩
  | cons name rest =>
    obtain ⟨g, -, hg, -⟩ := exists_folder_of_at?_append (Option.isSome_iff_exists.mpr ⟨e, hat⟩)
    exact ⟨_, hg, by simp⟩

/-- Names lead on from the folder that other names lead to. -/
theorem at?_append {f g : Folder} {names : List String} (h : f.at? names = some (.folder g))
    (below : List String) : f.at? (names ++ below) = g.at? below := by
  induction below using List.reverseRecOn with
  | nil => rw [List.append_nil, h]; rfl
  | append_singleton below last ih =>
    rw [← List.append_assoc, at?_append_singleton, at?_append_singleton, ih]

/-! ### The files of a tree -/

/-- What stands in a folder stands at or below its first entry, or among the others. -/
theorem at?_of_cons {name : String} {e e' : Entry} {others : Folder} {names : List String}
    (h : (cons name e others).at? names = some e') (he' : ∀ f, e' ≠ .folder f) :
    (∃ rest, names = name :: rest ∧ e.at? rest = some e') ∨ others.at? names = some e' := by
  cases names with
  | nil =>
    cases h
    exact absurd rfl (he' _)
  | cons n rest =>
    rw [at?_cons_eq, get?_cons] at h
    split at h
    · rename_i hn
      exact .inl ⟨rest, by rw [hn], h⟩
    · exact .inr (by rw [at?_cons_eq, h])

theorem mem_filesIn_of_at? {f : Folder} {names : List String} {content : ByteArray}
    (h : f.at? names = some (.file content)) : (names, content) ∈ Disk.filesIn f := by
  induction f generalizing names with
  | empty => cases names <;> simp [at?_cons_eq, at?, get?, entries] at h
  | file name held others ih =>
    have h : (cons name (.file held) others).at? names = some (.file content) := h
    rw [Disk.filesIn, List.mem_cons]
    rcases at?_of_cons h (by simp) with ⟨rest, rfl, hat⟩ | hat
    · obtain ⟨rfl, heq⟩ := (Entry.at?_eq_some (by simp)).mp hat
      cases heq
      exact .inl rfl
    · exact .inr (ih hat)
  | link name target others ih =>
    have h : (cons name (.link target) others).at? names = some (.file content) := h
    rw [Disk.filesIn]
    rcases at?_of_cons h (by simp) with ⟨rest, rfl, hat⟩ | hat
    · obtain ⟨-, heq⟩ := (Entry.at?_eq_some (by simp)).mp hat
      simp at heq
    · exact ih hat
  | special name others ih =>
    have h : (cons name .special others).at? names = some (.file content) := h
    rw [Disk.filesIn]
    rcases at?_of_cons h (by simp) with ⟨rest, rfl, hat⟩ | hat
    · obtain ⟨-, heq⟩ := (Entry.at?_eq_some (by simp)).mp hat
      simp at heq
    · exact ih hat
  | folder name inside others ihInside ih =>
    have h : (cons name (.folder inside) others).at? names = some (.file content) := h
    rw [Disk.filesIn, List.mem_append]
    rcases at?_of_cons h (by simp) with ⟨rest, rfl, hat⟩ | hat
    · exact .inl (List.mem_map.mpr ⟨_, ihInside hat, rfl⟩)
    · exact .inr (ih hat)

/-- There are no more places of files than files. -/
theorem length_le_files {f : Folder} {places : List Location} (hnodup : places.Nodup)
    (h : ∀ at_ ∈ places, ∃ content, f.at? at_ = some (.file content)) :
    places.length ≤ (Disk.filesIn f).length := by
  have hsub : places ⊆ (Disk.filesIn f).map Prod.fst := by
    intro at_ hat
    obtain ⟨content, hcontent⟩ := h at_ hat
    exact List.mem_map.mpr ⟨_, mem_filesIn_of_at? hcontent, rfl⟩
  have hle := (List.Nodup.subperm hnodup hsub).length_le
  rwa [List.length_map] at hle

end Folder

namespace Disk

/-! ### Where look-ups end -/

/-- A look-up from a folder does not end at a link. -/
theorem exists_entry_of_resolve {root : Folder} {limit : Nat} {at_ loc : Location} {f : Folder}
    {todo : List String} (hat : root.at? at_ = some (.folder f)) (htodo : ∀ s ∈ todo, ¬ Holds '/' s)
    (h : resolve root .find limit at_ todo = .ok loc) :
    ∃ e, root.at? loc = some e ∧ ∀ target, e ≠ .link target := by
  refine resolve_keeps (P := fun l => ∃ e, root.at? l = some e ∧ ∀ target, e ≠ .link target)
    ⟨_, rfl, by simp⟩ ?_ ?_ ⟨_, hat, by simp⟩ htodo h
  · rintro at_ ⟨e, he, hlink⟩
    rcases List.eq_nil_or_concat at_ with rfl | ⟨init, last, rfl⟩
    · exact ⟨e, he, hlink⟩
    · rw [List.concat_eq_append] at he ⊢
      obtain ⟨g, -, hg, -⟩ := Folder.exists_folder_of_at?_append
        (h := Option.isSome_iff_exists.mpr ⟨e, he⟩)
      exact ⟨_, by rw [List.dropLast_concat, hg], by simp⟩
  · intro at_ f s e _ hf _ hget hlink
    refine ⟨e, ?_, hlink⟩
    rw [Folder.at?_append_singleton, hf]
    exact hget

/-- One name more leads one step further down. -/
theorem walk_concat {root : Folder} {jump : Location → List String → Except OsError Location}
    {at_ loc : Location} {todo : List String} {f : Folder} {name : String} {e : Entry}
    (hjump : ∀ at' todo', jump at' todo' = .ok loc →
      jump at' (todo' ++ [name]) = .ok (loc ++ [name]))
    (hat : root.at? loc = some (.folder f)) (hname : IsName name) (hlong : isLongName name = false)
    (hget : f.get? name = some e) (hlink : ∀ target, e ≠ .link target)
    (h : walk root .find jump at_ todo = .ok loc) :
    walk root .find jump at_ (todo ++ [name]) = .ok (loc ++ [name]) := by
  induction todo generalizing at_ with
  | nil =>
    cases h
    rw [List.nil_append, walk_cons_to (stride_down hat hname hlong hget hlink)]
    rfl
  | cons s todo ih =>
    rw [List.cons_append]
    rcases walk_cons.mp h with ⟨mid, hstride, h⟩ | ⟨start, target, hstride, h⟩
    · rw [walk_cons_to hstride]
      exact ih h
    · rw [walk_cons_link hstride, ← List.append_assoc]
      exact hjump _ _ h

theorem resolve_concat {root : Folder} {limit : Nat} {at_ loc : Location} {todo : List String}
    {f : Folder} {name : String} {e : Entry} (hat : root.at? loc = some (.folder f))
    (hname : IsName name) (hlong : isLongName name = false) (hget : f.get? name = some e)
    (hlink : ∀ target, e ≠ .link target) (h : resolve root .find limit at_ todo = .ok loc) :
    resolve root .find limit at_ (todo ++ [name]) = .ok (loc ++ [name]) := by
  induction limit generalizing at_ todo with
  | zero => exact walk_concat (fun _ _ h => by simp at h) hat hname hlong hget hlink h
  | succ limit ih => exact walk_concat (fun _ _ h => ih h) hat hname hlong hget hlink h

/-! ### Which path leads to which place -/

/-- Does the path lead to the place?  It may be too long to be looked up as a whole. -/
structure LeadsTo (d : Disk) (p : Path) (loc : Location) : Prop where
  null : ¬ Holds '\x00' p.text
  text : p.text ≠ ""
  follow : d.follow .find p = .ok loc

variable {d : Disk} {p q : Path} {loc : Location}

/-- A path may be asked for if it is not empty and has no null byte. -/
theorem checkPath_eq_iff : (checkPath p = .ok () ∨ checkPath p = .error .nameTooLong) ↔
    ¬ Holds '\x00' p.text ∧ p.text ≠ "" := by
  by_cases hnull : '\x00' ∈ p.text.toList
  · simp [checkPath, Holds, hnull]
  · by_cases htext : p.text = ""
    · simp [checkPath, htext]
    · by_cases hlong : pathLimit < p.text.utf8ByteSize <;>
        simp [checkPath, Holds, hnull, htext, hlong]

/-- A canonical path is that of the place that the path leads to. -/
theorem exists_leadsTo_of_canonical (h : d.canonical p = .ok q) :
    ∃ loc, d.LeadsTo p loc ∧ q = pathOf loc := by
  obtain ⟨hcheck, loc, hfollow, hq⟩ := canonical_eq_ok_iff.mp h
  obtain ⟨hnull, htext⟩ := checkPath_eq_iff.mp hcheck
  exact ⟨loc, ⟨hnull, htext, resolve_find_of_spell hfollow⟩, hq⟩

theorem LeadsTo.eq_pathOf (h : d.LeadsTo p loc) (hq : d.canonical p = .ok q) : q = pathOf loc := by
  obtain ⟨loc', h', rfl⟩ := exists_leadsTo_of_canonical hq
  rw [Except.ok.inj (h.follow.symm.trans h'.follow)]

theorem LeadsTo.canonical_of_spelled (h : d.LeadsTo p loc) (hfollow : d.follow .spell p = .ok loc) :
    d.canonical p = .ok (pathOf loc) :=
  canonical_eq_ok_iff.mpr ⟨checkPath_eq_iff.mpr ⟨h.null, h.text⟩, loc, hfollow, rfl⟩

theorem leadsTo_of_entry? {e : Entry} (h : d.entry? p = .ok e) :
    ∃ loc, d.LeadsTo p loc ∧ d.root.at? loc = some e := by
  obtain ⟨hcheck, loc, hfollow, hat⟩ := entry?_eq_ok.mp h
  obtain ⟨hnull, htext⟩ := checkPath_eq_iff.mp (.inl hcheck)
  exact ⟨loc, ⟨hnull, htext, hfollow⟩, hat⟩

/-- What a path leads to is found under it, if it is not too long to be looked up. -/
theorem LeadsTo.entry?_eq_ok (h : d.LeadsTo p loc) {e : Entry} (hat : d.root.at? loc = some e)
    (hsize : p.text.utf8ByteSize ≤ pathLimit) : d.entry? p = .ok e := by
  refine Disk.entry?_eq_ok.mpr ⟨?_, loc, h.follow, hat⟩
  have hnull : ¬ '\x00' ∈ p.text.toList := h.null
  simp [checkPath, hnull, h.text, Nat.not_lt.mpr hsize]

/-- No path leads to a link. -/
theorem LeadsTo.exists_entry (h : d.LeadsTo p loc) :
    ∃ e, d.root.at? loc = some e ∧ ∀ target, e ≠ .link target := by
  obtain ⟨f, hf⟩ := exists_start_of_follow h.follow
  exact exists_entry_of_resolve hf (fun _ => not_holds_of_mem_segments) h.follow

theorem LeadsTo.child (h : d.LeadsTo p loc) {f : Folder} {name : String} {e : Entry}
    (hat : d.root.at? loc = some (.folder f)) (hname : IsName name)
    (hnull : ¬ Holds '\x00' name) (hlong : isLongName name = false) (hget : f.get? name = some e)
    (hlink : ∀ target, e ≠ .link target) : d.LeadsTo (p.child name) (loc ++ [name]) := by
  have hrel : isAbsolute ⟨name⟩ = false := isAbsolute_eq_false_of_segment hname.2.2.2
  refine ⟨?_, p.text_child_ne_empty hname, ?_⟩
  · have hp := h.null
    simp only [Path.child, join, hrel, Bool.false_eq_true, if_false]
    split <;> simp_all [Holds]
  · have habs : (p.child name).isAbsolute = p.isAbsolute := by
      rw [isAbsolute, isAbsolute, Path.child, text_join_head h.text hrel]
    have hsegments : (p.child name).segments = p.base ++ [name] := by
      rw [Path.child, segments_join hrel, segments_of_not_holds hname.2.2.2]
    rw [Disk.follow, habs, hsegments]
    exact resolve_concat hat hname hlong hget hlink (resolve_base_of_follow h.follow)

/-- Names that a folder can hold lead down from the place that a path leads to. -/
theorem LeadsTo.downNames (h : d.LeadsTo p loc) {f : Folder}
    (hat : d.root.at? loc = some (.folder f)) {names : List String}
    (hnames : ∀ s ∈ names, IsName s ∧ ¬ Holds '\x00' s ∧ isLongName s = false) {e : Entry}
    (he : f.at? names = some e) (hlink : ∀ target, e ≠ .link target) :
    d.LeadsTo (p.downNames names) (loc ++ names) := by
  induction names generalizing p loc f with
  | nil =>
    rw [List.append_nil]
    exact h
  | cons name names ih =>
    obtain ⟨hname, hnull, hlong⟩ := hnames name (by simp)
    rw [Folder.at?_cons_eq, Option.bind_eq_some_iff] at he
    obtain ⟨e', hget, he⟩ := he
    have hlink' : ∀ target, e' ≠ .link target := by
      rintro target rfl
      obtain ⟨-, rfl⟩ := (Entry.at?_eq_some (by simp)).mp he
      exact hlink target rfl
    have hchild := h.child hat hname hnull hlong hget hlink'
    have hat' : d.root.at? (loc ++ [name]) = some e' := by
      rw [Folder.at?_append hat]
      exact hget
    have hsplit : loc ++ name :: names = (loc ++ [name]) ++ names := by simp
    rw [downNames_cons, hsplit]
    cases e' with
    | folder inside => exact ih hchild hat' (fun s hs => hnames s (by simp [hs])) he
    | file content | special =>
      obtain ⟨rfl, rfl⟩ := (Entry.at?_eq_some (by simp)).mp he
      rw [List.append_nil]
      exact hchild
    | link target => exact absurd rfl (hlink' target)

/-! ### The paths of places -/

/-- One place further down is one step further down. -/
theorem pathOf_concat {at_ : Location} {name : String} (h : ∀ s ∈ at_ ++ [name], IsName s) :
    pathOf (at_ ++ [name]) = (pathOf at_).child name := by
  rw [pathOf_eq h, pathOf_eq fun s hs => h s (List.mem_append_left _ hs), List.map_append,
    ← List.cons_append]
  exact ofComponents_append_singleton _ _

/-- Above the path of a place are the paths of the places above it. -/
theorem exists_prefix_of_mem_ancestors {at_ : Location} (h : ∀ s ∈ at_, IsName s) {p : Path}
    (hp : p ∈ (pathOf at_).ancestors) : ∃ above, above <+: at_ ∧ p = pathOf above := by
  induction at_ using List.reverseRecOn with
  | nil =>
    have hroot : parent? (pathOf []) = none := by decide
    rw [ancestors_eq, hroot] at hp
    exact ⟨[], List.prefix_refl _, List.mem_singleton.mp hp⟩
  | append_singleton at_ name ih =>
    have hat : ∀ s ∈ at_, IsName s := fun s hs => h s (List.mem_append_left _ hs)
    have hname : IsName name := h name (by simp)
    have hparent : (pathOf (at_ ++ [name])).parent? = some (pathOf at_) := by
      rw [pathOf_concat h]
      exact (tidy_pathOf hat).parent?_child (c := .name name) hname
    rw [ancestors_eq, hparent] at hp
    rcases List.mem_cons.mp hp with rfl | hp
    · exact ⟨_, List.prefix_refl _, rfl⟩
    · obtain ⟨above, habove, rfl⟩ := ih hat hp
      exact ⟨above, habove.trans (List.prefix_append _ _), rfl⟩

theorem leadsTo_root (d : Disk) : d.LeadsTo ⟨"/"⟩ [] := by
  have hseg : segments ⟨"/"⟩ = ["", ""] := by decide
  refine ⟨by simp [Holds], by decide, ?_⟩
  rw [Disk.follow, hseg]
  rfl

/-- The path of a place leads there. -/
theorem leadsTo_pathOf (hd : d.Proper) (hfits : d.root.Fits) {e : Entry}
    (hat : d.root.at? loc = some e) (hlink : ∀ target, e ≠ .link target) :
    d.LeadsTo (pathOf loc) loc := by
  have hnames : ∀ s ∈ loc, IsName s := (hd.root.of_at? hat).1
  have hin := (Folder.names_of_at? (Option.isSome_iff_exists.mpr ⟨e, hat⟩)).1
  have hdown : pathOf loc = downNames ⟨"/"⟩ loc := by
    rw [pathOf_eq hnames]
    rfl
  rw [hdown]
  have h := (leadsTo_root d).downNames rfl (fun s hs => ⟨hnames s hs, hfits s (hin s hs)⟩) hat hlink
  rwa [List.nil_append] at h

/-- The path that spells a way leads where the way does. -/
theorem leadsTo_of_way {names : List String} {n : Nat} (hne : names ≠ [])
    (hnames : ∀ s ∈ names, IsName s ∧ ¬ Holds '\x00' s) (hn : n ≤ linkLimit)
    (h : Way d.root [] names n loc) : d.LeadsTo (pathOf names) loc := by
  have hroot : d.root.at? [] = some (.folder d.root) := rfl
  have hchars : (pathOf names).text.toList = names.flatMap fun s => '/' :: s.toList :=
    toList_slash_intercalate hne
  refine ⟨?_, ?_, ?_⟩
  · rw [Holds, hchars, List.mem_flatMap]
    rintro ⟨s, hs, hnull⟩
    exact (hnames s hs).2 ((List.mem_cons.mp hnull).resolve_left (by decide))
  · obtain ⟨s, rest, rfl⟩ := List.exists_cons_of_ne_nil hne
    rw [Ne, ← String.toList_eq_nil_iff, hchars]
    simp
  · rw [follow, if_pos (isAbsolute_pathOf names), segments_pathOf hne fun s hs => (hnames s hs).1,
      resolve_eq_ok_iff]
    exact ⟨n, hn, .step (stride_idle hroot (by decide)) h⟩

/-! ### Which places can be spelled out -/

section Spelled

variable {root : Folder} {at_ : Location} {names todo : List String}

theorem sizeAskedNext_le_of_names (hnames : ∀ s ∈ names, IsName s) :
    sizeAskedNext at_ names ≤ (pathOf (at_ ++ names)).text.utf8ByteSize := by
  cases names with
  | nil => simp [sizeAskedNext]
  | cons s names =>
    obtain ⟨hne, hdot, hup, -⟩ := hnames s List.mem_cons_self
    have hsplit : at_ ++ s :: names = (at_ ++ [s]) ++ names := by simp
    rw [hsplit]
    simpa [sizeAskedNext, hne, hdot, hup] using size_pathOf_le_append (at_ ++ [s]) names

/-- A look-up can spell out the names that lead down to a place whose path is not too long. -/
theorem walk_spell_down {jump : Location → List String → Except OsError Location} {f : Folder}
    {e : Entry} (hat : root.at? at_ = some (.folder f))
    (hnames : ∀ s ∈ names, IsName s ∧ isLongName s = false) (he : f.at? names = some e)
    (hlink : ∀ target, e ≠ .link target)
    (hsize : (pathOf (at_ ++ names)).text.utf8ByteSize ≤ pathLimit) :
    walk root .spell jump at_ names = .ok (at_ ++ names) := by
  induction names generalizing at_ f with
  | nil => rw [List.append_nil, walk]
  | cons name names ih =>
    obtain ⟨hname, hshort⟩ := hnames name List.mem_cons_self
    have hbelow : ∀ s ∈ names, IsName s ∧ isLongName s = false :=
      fun s hs => hnames s (List.mem_cons_of_mem name hs)
    have hsplit : at_ ++ name :: names = (at_ ++ [name]) ++ names := by simp
    rw [hsplit] at hsize ⊢
    have hnext : sizeAskedNext (at_ ++ [name]) names ≤ pathLimit :=
      (sizeAskedNext_le_of_names fun s hs => (hbelow s hs).1).trans hsize
    rw [Folder.at?_cons_eq, Option.bind_eq_some_iff] at he
    obtain ⟨e', hget, he⟩ := he
    have hlink' : ∀ target, e' ≠ .link target := by
      rintro target rfl
      obtain ⟨-, rfl⟩ := (Entry.at?_eq_some (by simp)).mp he
      exact hlink target rfl
    refine walk_spell_cons.mpr (.inl ⟨_, stride_down hat hname hshort hget hlink',
      fun _ => hnext, ?_⟩)
    by_cases hfolder : ∃ inside, e' = .folder inside
    · obtain ⟨inside, rfl⟩ := hfolder
      refine ih ?_ hbelow he hsize
      rw [Folder.at?_append_singleton, hat]
      exact hget
    · obtain ⟨rfl, -⟩ := (Entry.at?_eq_some fun inside h => hfolder ⟨inside, h⟩).mp he
      rw [List.append_nil, walk]

/-- A place that is no link, and whose path is not too long, has that path for its canonical one. -/
theorem canonical_pathOf (hd : d.Proper) (hfits : d.root.Fits) {e : Entry}
    (hat : d.root.at? loc = some e) (hlink : ∀ target, e ≠ .link target)
    (hsize : (pathOf loc).text.utf8ByteSize ≤ pathLimit) :
    d.canonical (pathOf loc) = .ok (pathOf loc) := by
  have hnames : ∀ s ∈ loc, IsName s := (hd.root.of_at? hat).1
  have hin := (Folder.names_of_at? (Option.isSome_iff_exists.mpr ⟨e, hat⟩)).1
  have hdown (jump : Location → List String → Except OsError Location) :
      walk d.root .spell jump [] loc = .ok loc :=
    walk_spell_down rfl (fun s hs => ⟨hnames s hs, (hfits s (hin s hs)).2⟩) hat hlink hsize
  have hidle (jump : Location → List String → Except OsError Location) :
      walk d.root .spell jump [] (pathOf loc).segments = .ok loc := by
    by_cases hne : loc = []
    · have hseg : (pathOf []).segments = ["", ""] := by decide
      subst hne
      rw [hseg]
      simp [walk, Folder.at?]
    · rw [segments_pathOf hne hnames, ← hdown jump, walk]
      simp [Folder.at?]
  refine (leadsTo_pathOf hd hfits hat hlink).canonical_of_spelled ?_
  rw [follow, if_pos (isAbsolute_pathOf loc)]
  exact hidle _

/-! ### Trees without long paths -/

/-- The next name of a look-up that ends somewhere stands in the folder where the look-up is. -/
theorem exists_next_of_walk {jump : Location → List String → Except OsError Location}
    (htodo : ∀ s ∈ todo, ¬ Holds '/' s) (h : walk root .find jump at_ todo = .ok loc) {s : String}
    (hs : todo.find? (fun s => s != "" && s != ".") = some s) (hup : s ≠ "..") :
    ∃ e, root.at? (at_ ++ [s]) = some e := by
  induction todo with
  | nil => simp at hs
  | cons t todo ih =>
    obtain ⟨f, hf⟩ := exists_folder_of_walk_cons h
    by_cases hidle : isIdle t = true
    · have hskip : (t != "" && t != ".") = false := by
        have htext : t = "" ∨ t = "." := by simpa [isIdle] using hidle
        rcases htext with rfl | rfl <;> rfl
      rw [List.find?_cons, hskip] at hs
      rw [walk_cons_to (stride_idle hf hidle)] at h
      exact ih (fun t ht => htodo t (List.mem_cons_of_mem _ ht)) h hs
    · obtain ⟨hne, hdot⟩ : t ≠ "" ∧ t ≠ "." := by simpa [isIdle] using hidle
      obtain rfl : t = s := by simpa [hne, hdot] using hs
      rcases walk_cons.mp h with ⟨mid, hstride, -⟩ | ⟨start, target, hstride, -⟩
      · obtain ⟨-, e, he, -⟩ := stride_name ⟨hne, hdot, hup, htodo t List.mem_cons_self⟩ hstride
        exact ⟨e, he⟩
      · exact ⟨_, (stride_link hstride).1⟩

end Spelled

end Disk

/-- Are the paths of all places in the tree so short that even a slash may stand behind them? -/
def Folder.ShortPlaces (root : Folder) : Prop :=
  ∀ at_ e, root.at? at_ = some e → (Disk.pathOf at_).text.utf8ByteSize < Disk.pathLimit

/-- They are, where there are few names and these are short. -/
theorem Folder.shortPlaces_of_names {root : Folder} {bound : Nat}
    (hnames : ∀ name ∈ root.allNames, name.utf8ByteSize ≤ bound)
    (hbound : root.allNames.length * (bound + 1) < Disk.pathLimit) :
    root.ShortPlaces := by
  intro at_ e hat
  obtain ⟨hmem, hlen⟩ := names_of_at? (Option.isSome_iff_exists.mpr ⟨e, hat⟩)
  by_cases hroot : at_ = []
  · subst hroot
    decide
  · rw [Disk.size_pathOf hroot]
    calc Disk.spelledSize at_
        ≤ at_.length * (bound + 1) := Disk.spelledSize_le fun s hs => hnames s (hmem s hs)
      _ ≤ root.allNames.length * (bound + 1) := Nat.mul_le_mul_right _ hlen
      _ < Disk.pathLimit := hbound

namespace Disk

section ShortPlaces

variable {d : Disk} {p : Path} {root : Folder} {at_ loc : Location} {todo : List String}

theorem sizeAskedNext_le_of_walk {jump : Location → List String → Except OsError Location}
    (hshort : root.ShortPlaces) (htodo : ∀ s ∈ todo, ¬ Holds '/' s) {e : Entry}
    (hat : root.at? at_ = some e) (h : walk root .find jump at_ todo = .ok loc) :
    sizeAskedNext at_ todo ≤ pathLimit := by
  have hhere := hshort at_ e hat
  unfold sizeAskedNext
  split
  · rename_i s hs
    split
    · exact hhere
    · rename_i hup
      obtain ⟨e', he'⟩ := exists_next_of_walk htodo h hs hup
      exact (hshort _ e' he').le
  · split
    · exact hhere.le
    · exact hhere

theorem walk_spell_of_find {jump jump' : Location → List String → Except OsError Location}
    (hshort : root.ShortPlaces)
    (hjump : ∀ start todo, (∀ s ∈ todo, ¬ Holds '/' s) → jump start todo = .ok loc →
      jump' start todo = .ok loc)
    (htodo : ∀ s ∈ todo, ¬ Holds '/' s) (h : walk root .find jump at_ todo = .ok loc) :
    walk root .spell jump' at_ todo = .ok loc := by
  induction todo generalizing at_ with
  | nil => exact h
  | cons s todo ih =>
    have hrest : ∀ t ∈ todo, ¬ Holds '/' t := fun t ht => htodo t (List.mem_cons_of_mem _ ht)
    rw [walk_spell_cons]
    rcases walk_cons.mp h with ⟨mid, hstride, h⟩ | ⟨start, target, hstride, h⟩
    · refine .inl ⟨mid, hstride, fun _ => ?_, ih hrest h⟩
      obtain ⟨e, he⟩ := exists_of_stride_to (htodo s List.mem_cons_self) hstride
      exact sizeAskedNext_le_of_walk hshort hrest he h
    · refine .inr ⟨start, target, hstride, (hshort _ _ (stride_link hstride).1).le,
        hjump _ _ (fun t ht => ?_) h⟩
      rcases List.mem_append.mp ht with ht | ht
      · exact not_holds_of_mem_splitChar ht
      · exact hrest t ht

/-- Where no path is too long, a look-up can spell out where it is. -/
theorem resolve_spell_of_find (hshort : root.ShortPlaces) {limit : Nat}
    (htodo : ∀ s ∈ todo, ¬ Holds '/' s) (h : resolve root .find limit at_ todo = .ok loc) :
    resolve root .spell limit at_ todo = .ok loc := by
  induction limit generalizing at_ todo with
  | zero => exact walk_spell_of_find hshort (fun _ _ _ h => by simp at h) htodo h
  | succ limit ih => exact walk_spell_of_find hshort (fun _ _ htodo h => ih htodo h) htodo h

theorem LeadsTo.canonical (h : d.LeadsTo p loc) (hshort : d.root.ShortPlaces) :
    d.canonical p = .ok (pathOf loc) :=
  h.canonical_of_spelled
    (resolve_spell_of_find hshort (fun _ => not_holds_of_mem_segments) h.follow)

end ShortPlaces

end Disk

end SourceWeb
