/-
  Disks that differ only in the order in which their folders list their entries.

  A look-up ends at the same place on both, and what it finds there differs only if it is a folder,
  and then again only in order.  So whatever asks for files, texts or canonical paths cannot tell
  the two apart.
-/
import SourceWeb.Proofs.Disk.Proper

namespace SourceWeb

open SourceWeb.Path

/-- The same entries, listed in another order, here and in all folders below. -/
inductive Folder.Shuffle : Folder → Folder → Prop
  | empty : Shuffle .empty .empty
  | file (name : String) (content : ByteArray) {f f' : Folder} (h : Shuffle f f') :
      Shuffle (.file name content f) (.file name content f')
  | link (name target : String) {f f' : Folder} (h : Shuffle f f') :
      Shuffle (.link name target f) (.link name target f')
  | special (name : String) {f f' : Folder} (h : Shuffle f f') :
      Shuffle (.special name f) (.special name f')
  | folder (name : String) {inside inside' f f' : Folder} (hinside : Shuffle inside inside')
      (h : Shuffle f f') : Shuffle (.folder name inside f) (.folder name inside' f')
  | swap {n n' : String} (hne : n ≠ n') (e e' : Entry) (f : Folder) :
      Shuffle (.cons n e (.cons n' e' f)) (.cons n' e' (.cons n e f))
  | trans {f g h : Folder} (hfg : Shuffle f g) (hgh : Shuffle g h) : Shuffle f h

/-- The same entry, or folders that differ only in order. -/
inductive Entry.Shuffle : Entry → Entry → Prop
  | same (e : Entry) : Shuffle e e
  | folder {f f' : Folder} (h : f.Shuffle f') : Shuffle (.folder f) (.folder f')

theorem Entry.Shuffle.trans {e e' e'' : Entry} (h : e.Shuffle e') (h' : e'.Shuffle e'') :
    e.Shuffle e'' := by
  cases h with
  | same => exact h'
  | folder hf =>
    cases h' with
    | same => exact .folder hf
    | folder hf' => exact .folder (hf.trans hf')

/-- Both are none, or entries that differ only in order. -/
abbrev Entry.Alike : Option Entry → Option Entry → Prop :=
  Option.Rel Entry.Shuffle

namespace Folder

theorem alike_refl (o : Option Entry) : Entry.Alike o o := by
  cases o with
  | none => exact .none
  | some e => exact .some (.same e)

theorem alike_trans {o o' o'' : Option Entry} (h : Entry.Alike o o') (h' : Entry.Alike o' o'') :
    Entry.Alike o o'' := by
  cases h with
  | none => exact h'
  | some he =>
    cases h' with
    | some he' => exact .some (he.trans he')

/-- A name stands for the same entry, whatever the order. -/
theorem Shuffle.get? {f g : Folder} (h : f.Shuffle g) (n : String) :
    Entry.Alike (f.get? n) (g.get? n) := by
  have hcons : ∀ {name : String} {e e' : Entry} {f f' : Folder}, e.Shuffle e' →
      Entry.Alike (f.get? n) (f'.get? n) →
      Entry.Alike ((cons name e f).get? n) ((cons name e' f').get? n) := by
    intro name e e' f f' he hf
    rw [get?_cons, get?_cons]
    split
    · exact .some he
    · exact hf
  induction h with
  | empty => exact .none
  | file name content _ ih => exact hcons (.same (.file content)) ih
  | link name target _ ih => exact hcons (.same (.link target)) ih
  | special name _ ih => exact hcons (.same .special) ih
  | folder name hinside _ _ ih => exact hcons (.folder hinside) ih
  | swap hne e e' f =>
    simp only [get?_cons]
    split
    · rename_i hn
      rw [if_neg (by rintro rfl; exact hne hn.symm)]
      exact .some (.same e)
    · split
      · exact .some (.same e')
      · exact alike_refl _
  | trans _ _ ih ih' => exact alike_trans ih ih'

theorem Shuffle.at? {f g : Folder} (h : f.Shuffle g) (names : List String) :
    Entry.Alike (f.at? names) (g.at? names) := by
  induction names using List.reverseRecOn with
  | nil => exact .some (.folder h)
  | append_singleton names name ih =>
    rw [at?_append_singleton, at?_append_singleton]
    generalize f.at? names = o at ih
    generalize g.at? names = o' at ih
    cases ih with
    | none => exact .none
    | some he =>
      cases he with
      | same e => exact alike_refl _
      | folder hinside => exact hinside.get? name

/-- The names of a folder, in whatever order. -/
theorem Shuffle.perm {f g : Folder} (h : f.Shuffle g) :
    (f.entries.map Prod.fst).Perm (g.entries.map Prod.fst) := by
  induction h with
  | empty => exact .nil
  | file name content _ ih => exact ih.cons name
  | link name target _ ih => exact ih.cons name
  | special name _ ih => exact ih.cons name
  | folder name _ _ _ ih => exact ih.cons name
  | swap hne e e' f =>
    simp only [entries_cons, List.map_cons]
    exact .swap _ _ _
  | trans _ _ ih ih' => exact ih.trans ih'

theorem proper_cons {name : String} {e : Entry} {f : Folder} :
    (cons name e f).Proper ↔ IsName name ∧ f.get? name = none ∧
      (∀ inside, e = .folder inside → inside.Proper) ∧ f.Proper := by
  cases e <;> simp [cons, Proper]

theorem Shuffle.get?_eq_none {f g : Folder} (h : f.Shuffle g) {n : String} (hf : f.get? n = none) :
    g.get? n = none := by
  have := h.get? n
  rw [hf] at this
  cases hg : g.get? n with
  | none => rfl
  | some e => rw [hg] at this; cases this

theorem Shuffle.proper {f g : Folder} (h : f.Shuffle g) (hf : f.Proper) : g.Proper := by
  induction h with
  | empty => exact hf
  | file name content h ih => exact ⟨hf.1, h.get?_eq_none hf.2.1, ih hf.2.2⟩
  | link name target h ih => exact ⟨hf.1, h.get?_eq_none hf.2.1, ih hf.2.2⟩
  | special name h ih => exact ⟨hf.1, h.get?_eq_none hf.2.1, ih hf.2.2⟩
  | folder name _ h ihInside ih =>
    exact ⟨hf.1, h.get?_eq_none hf.2.1, ihInside hf.2.2.1, ih hf.2.2.2⟩
  | swap hne e e' f =>
    simp only [proper_cons, get?_cons, hne, Ne.symm hne, if_false] at hf ⊢
    obtain ⟨hn, hnone, he, hn', hnone', he', hf⟩ := hf
    exact ⟨hn', hnone', he', hn, hnone, he, hf⟩
  | trans _ _ ih ih' => exact ih' (ih hf)

end Folder

/-- The same disk, with entries listed in another order. -/
structure Disk.Shuffle (d d' : Disk) : Prop where
  root : d.root.Shuffle d'.root
  here : d.here = d'.here
  unreadable : d.unreadable = d'.unreadable

namespace Disk

/-! ### Looking up -/

theorem walk_shuffle {root root' : Folder} (h : root.Shuffle root') (aim : Aim)
    (jump : Location → List String → Except OsError Location) (at_ : Location)
    (todo : List String) : walk root aim jump at_ todo = walk root' aim jump at_ todo := by
  induction todo generalizing at_ with
  | nil => rfl
  | cons s todo ih =>
    have hat := h.at? at_
    rw [walk, walk]
    generalize root.at? at_ = o at hat
    generalize root'.at? at_ = o' at hat
    cases hat with
    | none => rfl
    | some he =>
      cases he with
      | same e => simp only [ih]
      | @folder f f' hf =>
        have hget := hf.get? s
        simp only [ih]
        generalize f.get? s = o at hget
        generalize f'.get? s = o' at hget
        cases hget with
        | none => rfl
        | some he =>
          cases he with
          | same e => rfl
          | folder _ => rfl

theorem resolve_shuffle {root root' : Folder} (h : root.Shuffle root') (aim : Aim)
    (limit : Nat) (at_ : Location) (todo : List String) :
    resolve root aim limit at_ todo = resolve root' aim limit at_ todo := by
  induction limit generalizing at_ todo with
  | zero => exact walk_shuffle h aim _ at_ todo
  | succ limit ih =>
    have hjump : resolve root aim limit = resolve root' aim limit := by
      funext at_ todo
      exact ih at_ todo
    rw [resolve, resolve, hjump]
    exact walk_shuffle h aim _ at_ todo

namespace Shuffle

variable {d d' : Disk}

theorem proper (h : d.Shuffle d') (hd : d.Proper) : d'.Proper :=
  ⟨h.root.proper hd.root, fun s hs => hd.here s (h.here ▸ hs)⟩

theorem follow (h : d.Shuffle d') (aim : Aim) : d.follow aim = d'.follow aim := by
  funext p
  rw [Disk.follow, Disk.follow, h.here, resolve_shuffle h.root]

theorem canonical (h : d.Shuffle d') : d.canonical = d'.canonical := by
  funext p
  rw [Disk.canonical, Disk.canonical, h.follow]

theorem absolute (h : d.Shuffle d') : d.absolute = d'.absolute := by
  funext p
  rw [Disk.absolute, Disk.absolute, herePath, herePath, h.here]

/-- What a path leads to is the same, or folders that differ only in order. -/
theorem entry? (h : d.Shuffle d') (p : Path) : d.entry? p = d'.entry? p ∨
    ∃ f f', d.entry? p = .ok (.folder f) ∧ d'.entry? p = .ok (.folder f') ∧ f.Shuffle f' := by
  simp only [locate, locateWith, Disk.entry?, h.follow, bind, Except.bind]
  cases checkPath p with
  | error e => exact .inl rfl
  | ok u =>
    cases d'.follow .find p with
    | error e => exact .inl rfl
    | ok loc =>
      have hat := h.root.at? loc
      dsimp only
      generalize d.root.at? loc = o at hat
      generalize d'.root.at? loc = o' at hat
      cases hat with
      | none => exact .inl rfl
      | some he =>
        cases he with
        | same e => exact .inl rfl
        | folder hf => exact .inr ⟨_, _, rfl, rfl, hf⟩

theorem «exists» (h : d.Shuffle d') : d.exists = d'.exists := by
  funext p
  rw [Disk.exists, Disk.exists]
  rcases h.entry? p with heq | ⟨f, f', hf, hf', -⟩
  · rw [heq]
  · rw [hf, hf']
    rfl

theorem isFile (h : d.Shuffle d') : d.isFile = d'.isFile := by
  funext p
  rw [Disk.isFile, Disk.isFile]
  rcases h.entry? p with heq | ⟨f, f', hf, hf', -⟩
  · rw [heq]
  · rw [hf, hf']

theorem isDir (h : d.Shuffle d') : d.isDir = d'.isDir := by
  funext p
  rw [Disk.isDir, Disk.isDir]
  rcases h.entry? p with heq | ⟨f, f', hf, hf', -⟩
  · rw [heq]
  · rw [hf, hf']

theorem isReadable (h : d.Shuffle d') : d.isReadable = d'.isReadable := by
  funext p
  rw [Disk.isReadable, Disk.isReadable, locate, locate, locateWith, locateWith, h.follow,
    h.unreadable]

theorem read (h : d.Shuffle d') : d.read = d'.read := by
  funext p
  rw [Disk.read, Disk.read, h.isReadable]
  rcases h.entry? p with heq | ⟨f, f', hf, hf', -⟩
  · rw [heq]
  · rw [hf, hf']
    rfl

theorem readText (h : d.Shuffle d') : d.readText = d'.readText := by
  funext p
  rw [Disk.readText, Disk.readText, h.read]

theorem existingFile (h : d.Shuffle d') : d.existingFile = d'.existingFile := by
  funext p
  rw [Disk.existingFile, Disk.existingFile, h.isFile]

theorem tryExtensions (h : d.Shuffle d') : d.tryExtensions = d'.tryExtensions := by
  funext base endings
  rw [Disk.tryExtensions, Disk.tryExtensions, h.existingFile]

/-- A directory lists the same paths, in whatever order. -/
theorem list (h : d.Shuffle d') (p : Path) : d.list p = d'.list p ∨
    ∃ ps ps', d.list p = .ok ps ∧ d'.list p = .ok ps' ∧ ps.Perm ps' := by
  rw [Disk.list, Disk.list, h.isReadable]
  rcases h.entry? p with heq | ⟨f, f', hf, hf', hshuffle⟩
  · rw [heq]
    exact .inl rfl
  · rw [hf, hf']
    cases hreadable : d'.isReadable p with
    | false => exact .inl rfl
    | true =>
      refine .inr ⟨_, _, rfl, rfl, ?_⟩
      have := hshuffle.perm.map p.child
      simpa [List.map_map, Function.comp_def] using this

theorem canList (h : d.Shuffle d') : d.canList = d'.canList := by
  funext p
  rw [Disk.canList, Disk.canList]
  rcases h.list p with heq | ⟨ps, ps', hps, hps', -⟩
  · rw [heq]
  · rw [hps, hps']
    rfl

end Shuffle

end Disk

end SourceWeb
