/-
  Looking up paths: what one segment does, and which places a look-up can end at.

  A look-up moves by three steps only, down to an entry of a folder, up to the folder above, and to
  the start of a link's target, so what these steps keep holds of wherever it ends.  Everything else
  about look-ups rests on these steps, and none of it opens the walk again.
-/
import Mathlib.Data.List.Induction
import SourceWeb.Disk.Basic
import SourceWeb.Proofs.Path.Place

namespace SourceWeb

open SourceWeb.Path SourceWeb.Text

/-! ### Places in a tree -/

namespace Folder

theorem at?_cons (f : Folder) (name : String) (names : List String) :
    f.at? (name :: names) = match f.get? name, names with
      | some e, [] => some e
      | some (.folder inside), n :: ns => inside.at? (n :: ns)
      | _, _ => none := by
  cases names with
  | nil => cases h : f.get? name <;> simp [at?, h]
  | cons n ns =>
    cases h : f.get? name with
    | none => simp [at?, h]
    | some e => cases e <;> simp [at?, h]

/-- What stands one name further down. -/
theorem at?_append_singleton (f : Folder) (names : List String) (name : String) :
    f.at? (names ++ [name]) = match f.at? names with
      | some (.folder inside) => inside.get? name
      | _ => none := by
  induction names generalizing f with
  | nil => simp [at?]
  | cons n ns ih =>
    cases h : f.get? n with
    | none => rw [List.cons_append, at?_cons, at?_cons, h]
    | some e =>
      cases e with
      | folder inside =>
        cases ns with
        | nil => simp [at?, h]
        | cons n' ns => simpa [at?, h] using ih inside
      | file content | link target | special => cases ns <;> simp [at?, h]

/-- What holds at the top, and passes from folders to their entries, holds wherever something
    stands. -/
theorem at?_keeps {P : List String → Entry → Prop} {f : Folder} (top : P [] (.folder f))
    (down : ∀ names inside name e, P names (.folder inside) → inside.get? name = some e →
      P (names ++ [name]) e)
    {names : List String} {e : Entry} (h : f.at? names = some e) : P names e := by
  induction names using List.reverseRecOn generalizing e with
  | nil =>
    cases h
    exact top
  | append_singleton names name ih =>
    rw [at?_append_singleton] at h
    split at h
    · rename_i inside hinside
      exact down names inside name e (ih hinside) h
    · simp at h

/-- Above whatever stands in a tree stands a folder. -/
theorem at?_dropLast {f : Folder} {names : List String} (h : (f.at? names).isSome) :
    (f.at? names.dropLast).isSome := by
  rcases List.eq_nil_or_concat names with rfl | ⟨init, last, rfl⟩
  · exact h
  · rw [List.concat_eq_append, at?_append_singleton] at h
    rw [List.concat_eq_append, List.dropLast_concat]
    cases hinit : f.at? init with
    | none => simp [hinit] at h
    | some e => rfl

end Folder

namespace Disk

/-! ### How long the paths of places are -/

/-- How many bytes names take up, each with the slash in front of it. -/
def spelledSize : Location → Nat
  | [] => 0
  | s :: names => s.utf8ByteSize + 1 + spelledSize names

theorem spelledSize_append (at_ more : Location) :
    spelledSize (at_ ++ more) = spelledSize at_ + spelledSize more := by
  induction at_ with
  | nil => simp [spelledSize]
  | cons s at_ ih => simp [spelledSize, ih, Nat.add_assoc]

theorem spelledSize_replicate (n : Nat) (s : String) :
    spelledSize (List.replicate n s) = n * (s.utf8ByteSize + 1) := by
  induction n with
  | zero => simp [spelledSize]
  | succ n ih => rw [List.replicate_succ, spelledSize, ih, Nat.succ_mul, Nat.add_comm]

theorem spelledSize_le {names : Location} {bound : Nat}
    (h : ∀ s ∈ names, s.utf8ByteSize ≤ bound) :
    spelledSize names ≤ names.length * (bound + 1) := by
  induction names with
  | nil => exact Nat.zero_le _
  | cons s names ih =>
    obtain ⟨hs, hnames⟩ := List.forall_mem_cons.mp h
    rw [spelledSize, List.length_cons, Nat.succ_mul, Nat.add_comm]
    exact Nat.add_le_add (ih hnames) (Nat.succ_le_succ hs)

theorem size_pathOf {at_ : Location} (h : at_ ≠ []) :
    (pathOf at_).text.utf8ByteSize = spelledSize at_ := by
  have hslash : String.utf8ByteSize "/" = 1 := by decide
  induction at_ with
  | nil => exact absurd rfl h
  | cons s at_ ih =>
    cases at_ with
    | nil => simp [pathOf, spelledSize, hslash, Nat.add_comm]
    | cons t at_ =>
      have hrest := ih (List.cons_ne_nil t at_)
      rw [pathOf, String.utf8ByteSize_append] at hrest ⊢
      rw [String.intercalate_cons_cons, String.utf8ByteSize_append, String.utf8ByteSize_append,
        spelledSize, ← hrest, hslash]
      omega

theorem size_pathOf_le_append (at_ more : Location) :
    (pathOf at_).text.utf8ByteSize ≤ (pathOf (at_ ++ more)).text.utf8ByteSize := by
  by_cases hat : at_ = []
  · subst hat
    have hslash : (pathOf []).text.utf8ByteSize = 1 := by decide
    rw [hslash, pathOf, String.utf8ByteSize_append]
    exact Nat.le_add_right _ _
  · rw [size_pathOf hat, size_pathOf (by simp [hat]), spelledSize_append]
    exact Nat.le_add_right _ _

theorem size_pathOf_dropLast_le (at_ : Location) :
    (pathOf at_.dropLast).text.utf8ByteSize ≤ (pathOf at_).text.utf8ByteSize := by
  obtain ⟨more, hmore⟩ := List.dropLast_prefix at_
  calc (pathOf at_.dropLast).text.utf8ByteSize
      ≤ (pathOf (at_.dropLast ++ more)).text.utf8ByteSize := size_pathOf_le_append _ more
    _ = (pathOf at_).text.utf8ByteSize := by rw [hmore]

theorem size_le_sizeAskedNext (at_ : Location) (todo : List String) :
    (pathOf at_).text.utf8ByteSize ≤ sizeAskedNext at_ todo := by
  unfold sizeAskedNext
  split
  · split
    · exact Nat.le_add_right _ _
    · exact size_pathOf_le_append at_ _
  · exact Nat.le_add_right _ _

@[simp] theorem Aim.bars_find (size : Nat) : Aim.find.bars size = false :=
  rfl

theorem Aim.bars_mono (aim : Aim) {m n : Nat} (h : m ≤ n) (hm : aim.bars m = true) :
    aim.bars n = true := by
  simp only [bars, Bool.and_eq_true, decide_eq_true_eq] at hm ⊢
  exact ⟨hm.1, hm.2.trans_le h⟩

theorem Aim.bars_spell_eq_false {size : Nat} : Aim.spell.bars size = false ↔ size ≤ pathLimit := by
  simp [bars]

/-! ### What one segment does -/

/-- Where one segment leads. -/
inductive Stride
  /-- On, to another place. -/
  | to (at_ : Location)
  /-- To a link, whose target is read from `start`. -/
  | link (start : Location) (target : String)

/-- Where a segment leads from a place, if anywhere. -/
def stride (root : Folder) (at_ : Location) (s : String) : Option Stride :=
  match root.at? at_ with
  | some (.folder f) =>
    if s = "" ∨ s = "." then some (.to at_)
    else if s = ".." then some (.to at_.dropLast)
    else if isLongName s then none
    else match f.get? s with
      | some (.link target) => some (.link (if Path.isAbsolute ⟨target⟩ then [] else at_) target)
      | some _ => some (.to (at_ ++ [s]))
      | none => none
  | _ => none

section Strides

variable {root : Folder} {at_ mid start loc : Location} {s target : String} {todo : List String}
  {jump : Location → List String → Except OsError Location}

theorem exists_folder_of_stride {t : Stride} (h : stride root at_ s = some t) :
    ∃ f, root.at? at_ = some (.folder f) := by
  unfold stride at h
  split at h
  · rename_i f hf
    exact ⟨f, hf⟩
  · simp at h

theorem stride_idle {f : Folder} (hf : root.at? at_ = some (.folder f)) (hs : isIdle s = true) :
    stride root at_ s = some (.to at_) := by
  have hidle : s = "" ∨ s = "." := by simpa [isIdle] using hs
  simp [stride, hf, hidle]

theorem stride_up {f : Folder} (hf : root.at? at_ = some (.folder f)) :
    stride root at_ ".." = some (.to at_.dropLast) := by
  simp [stride, hf]

/-- A name that leads on leads down to an entry that is no link. -/
theorem stride_name (hs : IsName s) (h : stride root at_ s = some (.to mid)) :
    mid = at_ ++ [s] ∧ ∃ e, root.at? (at_ ++ [s]) = some e ∧ ∀ target, e ≠ .link target := by
  obtain ⟨hne, hdot, hup, -⟩ := hs
  obtain ⟨f, hf⟩ := exists_folder_of_stride h
  simp only [stride, hf, hne, hdot, hup, or_self, if_false] at h
  rw [Folder.at?_append_singleton, hf]
  split at h
  · simp at h
  · cases hget : f.get? s with
    | none => simp [hget] at h
    | some e =>
      cases e with
      | link target => simp [hget] at h
      | file content | special | folder inside =>
        rw [hget] at h
        cases h
        exact ⟨rfl, _, hget, by simp⟩

/-- A segment that leads on stays where it is, leads up, or is a name. -/
theorem stride_to (hs : ¬ Holds '/' s) (h : stride root at_ s = some (.to mid)) :
    (isIdle s = true ∧ mid = at_) ∨ (s = ".." ∧ mid = at_.dropLast) ∨ IsName s := by
  obtain ⟨f, hf⟩ := exists_folder_of_stride h
  by_cases hidle : isIdle s = true
  · cases h.symm.trans (stride_idle hf hidle)
    exact .inl ⟨hidle, rfl⟩
  · by_cases hup : s = ".."
    · subst hup
      cases h.symm.trans (stride_up hf)
      exact .inr (.inl ⟨rfl, rfl⟩)
    · obtain ⟨hne, hdot⟩ : s ≠ "" ∧ s ≠ "." := by simpa [isIdle] using hidle
      exact .inr (.inr ⟨hne, hdot, hup, hs⟩)

/-- A segment leads only to places where something stands. -/
theorem exists_of_stride_to (hs : ¬ Holds '/' s) (h : stride root at_ s = some (.to mid)) :
    ∃ e, root.at? mid = some e := by
  obtain ⟨f, hf⟩ := exists_folder_of_stride h
  rcases stride_to hs h with ⟨-, rfl⟩ | ⟨-, rfl⟩ | hname
  · exact ⟨_, hf⟩
  · exact Option.isSome_iff_exists.mp
      (Folder.at?_dropLast (Option.isSome_iff_exists.mpr ⟨_, hf⟩))
  · obtain ⟨rfl, e, he, -⟩ := stride_name hname h
    exact ⟨e, he⟩

/-- The target of a link is read from the root, or from where the link stands. -/
theorem stride_link (h : stride root at_ s = some (.link start target)) :
    root.at? (at_ ++ [s]) = some (.link target) ∧ (start = [] ∨ start = at_) := by
  obtain ⟨f, hf⟩ := exists_folder_of_stride h
  rw [Folder.at?_append_singleton, hf]
  simp only [stride, hf] at h
  split at h
  · simp at h
  · split at h
    · simp at h
    · split at h
      · simp at h
      · cases hget : f.get? s with
        | none => simp [hget] at h
        | some e =>
          cases e with
          | file content | special | folder inside => simp [hget] at h
          | link held =>
            rw [hget] at h
            cases h
            refine ⟨hget, ?_⟩
            split
            · exact .inl rfl
            · exact .inr rfl

/-- A short name leads down to an entry that is no link. -/
theorem stride_down {f : Folder} {e : Entry} (hat : root.at? at_ = some (.folder f))
    (hs : IsName s) (hlong : isLongName s = false) (hget : f.get? s = some e)
    (hlink : ∀ target, e ≠ .link target) : stride root at_ s = some (.to (at_ ++ [s])) := by
  obtain ⟨hne, hdot, hup, -⟩ := hs
  cases e with
  | link target => exact absurd rfl (hlink target)
  | file content | special | folder inside => simp [stride, hat, hne, hdot, hup, hlong, hget]

theorem stride_along_link {f : Folder} (hat : root.at? at_ = some (.folder f)) (hs : IsName s)
    (hlong : isLongName s = false) (hget : f.get? s = some (.link target)) : stride root at_ s =
      some (.link (if Path.isAbsolute ⟨target⟩ then [] else at_) target) := by
  obtain ⟨hne, hdot, hup, -⟩ := hs
  simp [stride, hat, hne, hdot, hup, hlong, hget]

/-- A look-up goes on where its first segment leads, or fails. -/
theorem walk_cons_eq (root : Folder) (jump : Location → List String → Except OsError Location)
    (at_ : Location) (s : String) (todo : List String) : match stride root at_ s with
    | some (.to mid) => walk root .find jump at_ (s :: todo) = walk root .find jump mid todo
    | some (.link start target) =>
      walk root .find jump at_ (s :: todo) = jump start (splitChar '/' target ++ todo)
    | none => ∃ err, walk root .find jump at_ (s :: todo) = .error err := by
  rw [walk]
  cases hat : root.at? at_ with
  | none => simp [stride, hat]
  | some e =>
    cases e with
    | file content | link target | special => simp [stride, hat]
    | folder f =>
      by_cases hidle : s = "" ∨ s = "."
      · simp [stride, hat, hidle]
      · by_cases hup : s = ".."
        · simp [stride, hat, hup]
        · cases hlong : isLongName s with
          | true => simp [stride, hat, hidle, hup, hlong]
          | false =>
            cases hget : f.get? s with
            | none => simp [stride, hat, hidle, hup, hlong, hget]
            | some e => cases e <;> simp [stride, hat, hidle, hup, hlong, hget]

theorem walk_cons_to (h : stride root at_ s = some (.to mid)) :
    walk root .find jump at_ (s :: todo) = walk root .find jump mid todo := by
  have heq := walk_cons_eq root jump at_ s todo
  rwa [h] at heq

theorem walk_cons_link (h : stride root at_ s = some (.link start target)) :
    walk root .find jump at_ (s :: todo) = jump start (splitChar '/' target ++ todo) := by
  have heq := walk_cons_eq root jump at_ s todo
  rwa [h] at heq

theorem walk_cons : walk root .find jump at_ (s :: todo) = .ok loc ↔
    (∃ mid, stride root at_ s = some (.to mid) ∧ walk root .find jump mid todo = .ok loc) ∨
      ∃ start target, stride root at_ s = some (.link start target) ∧
        jump start (splitChar '/' target ++ todo) = .ok loc := by
  have heq := walk_cons_eq root jump at_ s todo
  cases hstride : stride root at_ s with
  | none =>
    rw [hstride] at heq
    obtain ⟨err, herr⟩ := heq
    simp [herr]
  | some t =>
    rcases t with mid | ⟨start, target⟩
    · simp [walk_cons_to hstride]
    · simp [walk_cons_link hstride]

/-- A look-up that spells out where it is goes the same way, as long as what it asks about is short
    enough: the path of a link, and whatever comes next behind a name. -/
theorem walk_spell_cons : walk root .spell jump at_ (s :: todo) = .ok loc ↔
    (∃ mid, stride root at_ s = some (.to mid) ∧
        (mid = at_ ++ [s] → sizeAskedNext mid todo ≤ pathLimit) ∧
        walk root .spell jump mid todo = .ok loc) ∨
      ∃ start target, stride root at_ s = some (.link start target) ∧
        (pathOf (at_ ++ [s])).text.utf8ByteSize ≤ pathLimit ∧
        jump start (splitChar '/' target ++ todo) = .ok loc := by
  have hrise : at_.dropLast ≠ at_ ++ [s] := fun h => by
    have hlen := congrArg List.length h
    simp at hlen
  rw [walk]
  cases hat : root.at? at_ with
  | none => simp [stride, hat]
  | some e =>
    cases e with
    | file content | link target | special => simp [stride, hat]
    | folder f =>
      by_cases hidle : s = "" ∨ s = "."
      · simp [stride, hat, hidle]
      · by_cases hup : s = ".."
        · subst hup
          simp [stride, hat, hrise]
        · cases hlong : isLongName s with
          | true => simp [stride, hat, hidle, hup, hlong]
          | false =>
            simp only [← Aim.bars_spell_eq_false]
            cases hget : f.get? s with
            | none =>
              cases Aim.spell.bars (pathOf (at_ ++ [s])).text.utf8ByteSize <;>
                simp [stride, hat, hidle, hup, hlong, hget]
            | some e =>
              have hmono := Aim.bars_mono .spell (size_le_sizeAskedNext (at_ ++ [s]) todo)
              cases hfirst : Aim.spell.bars (pathOf (at_ ++ [s])).text.utf8ByteSize <;>
                cases hnext : Aim.spell.bars (sizeAskedNext (at_ ++ [s]) todo)
              -- what is asked about next is no shorter
              case true.false => simp [hfirst, hnext] at hmono
              all_goals cases e <;> simp [stride, hat, hidle, hup, hlong, hget, hnext]

theorem exists_folder_of_walk_cons (h : walk root .find jump at_ (s :: todo) = .ok loc) :
    ∃ f, root.at? at_ = some (.folder f) := by
  rcases walk_cons.mp h with ⟨_, hstride, -⟩ | ⟨_, _, hstride, -⟩
  · exact exists_folder_of_stride hstride
  · exact exists_folder_of_stride hstride

end Strides

/-! ### What every look-up keeps -/

section Keeps

variable {P : Location → Prop} {root : Folder}

/-- Whatever holds of the root, and is kept by going up and by going down to an entry that is no
    link, is kept by following segments, if the jumps to the targets of links keep it. -/
theorem walk_keeps (hroot : P []) (hup : ∀ at_, P at_ → P at_.dropLast)
    (hdown : ∀ at_ f s e, P at_ → root.at? at_ = some (.folder f) → IsName s →
      f.get? s = some e → (∀ target, e ≠ .link target) → P (at_ ++ [s]))
    {jump : Location → List String → Except OsError Location}
    (hjump : ∀ at_ todo loc, P at_ → (∀ s ∈ todo, ¬ Holds '/' s) → jump at_ todo = .ok loc → P loc)
    {at_ : Location} {todo : List String} {loc : Location} (hat : P at_)
    (htodo : ∀ s ∈ todo, ¬ Holds '/' s) (h : walk root .find jump at_ todo = .ok loc) : P loc := by
  induction todo generalizing at_ with
  | nil =>
    cases h
    exact hat
  | cons s todo ih =>
    have hrest : ∀ t ∈ todo, ¬ Holds '/' t := fun t ht => htodo t (by simp [ht])
    rcases walk_cons.mp h with ⟨mid, hstride, h⟩ | ⟨start, target, hstride, h⟩
    · refine ih ?_ hrest h
      rcases stride_to (htodo s (by simp)) hstride with ⟨-, rfl⟩ | ⟨-, rfl⟩ | hname
      · exact hat
      · exact hup _ hat
      · obtain ⟨f, hf⟩ := exists_folder_of_stride hstride
        obtain ⟨rfl, e, he, hlink⟩ := stride_name hname hstride
        rw [Folder.at?_append_singleton, hf] at he
        exact hdown at_ f s e hat hf hname he hlink
    · refine hjump _ _ _ ?_ ?_ h
      · rcases (stride_link hstride).2 with rfl | rfl
        · exact hroot
        · exact hat
      · intro t ht
        rcases List.mem_append.mp ht with ht | ht
        · exact not_holds_of_mem_splitChar ht
        · exact hrest t ht

theorem resolve_keeps (hroot : P []) (hup : ∀ at_, P at_ → P at_.dropLast)
    (hdown : ∀ at_ f s e, P at_ → root.at? at_ = some (.folder f) → IsName s →
      f.get? s = some e → (∀ target, e ≠ .link target) → P (at_ ++ [s]))
    {limit : Nat} {at_ : Location} {todo : List String} {loc : Location} (hat : P at_)
    (htodo : ∀ s ∈ todo, ¬ Holds '/' s) (h : resolve root .find limit at_ todo = .ok loc) :
    P loc := by
  induction limit generalizing at_ todo loc with
  | zero => exact walk_keeps hroot hup hdown (fun _ _ _ _ _ h => by simp at h) hat htodo h
  | succ limit ih =>
    exact walk_keeps hroot hup hdown (fun _ _ _ hat htodo h => ih hat htodo h) hat htodo h

end Keeps

/-- A look-up from an existing place ends at an existing place. -/
theorem resolve_exists {root : Folder} {limit : Nat} {at_ : Location} {todo : List String}
    {loc : Location} (hat : (root.at? at_).isSome) (htodo : ∀ s ∈ todo, ¬ Holds '/' s)
    (h : resolve root .find limit at_ todo = .ok loc) : (root.at? loc).isSome := by
  refine resolve_keeps (P := fun l => (root.at? l).isSome) rfl (fun _ h => Folder.at?_dropLast h)
    ?_ hat htodo h
  intro l f s e _ hf _ hs _
  rw [Folder.at?_append_singleton, hf]
  simp [hs]

/-- A look-up from a place of names ends at a place of names. -/
theorem isName_of_resolve {root : Folder} {limit : Nat} {at_ : Location} {todo : List String}
    {loc : Location} (hat : ∀ s ∈ at_, IsName s) (htodo : ∀ s ∈ todo, ¬ Holds '/' s)
    (h : resolve root .find limit at_ todo = .ok loc) : ∀ s ∈ loc, IsName s := by
  refine resolve_keeps (P := fun l => ∀ s ∈ l, IsName s) (by simp) ?_ ?_ hat htodo h
  · exact fun l hl s hs => hl s (List.dropLast_subset _ hs)
  · intro l f s e hl _ hs _ _ t ht
    rcases List.mem_append.mp ht with ht | ht
    · exact hl t ht
    · rw [List.mem_singleton.mp ht]
      exact hs

/-! ### Look-ups that spell out where they are -/

section Spelled

variable {root : Folder} {limit : Nat} {at_ loc : Location} {todo : List String}

theorem walk_find_of_spell {jump jump' : Location → List String → Except OsError Location}
    (hjump : ∀ start todo, jump start todo = .ok loc → jump' start todo = .ok loc)
    (h : walk root .spell jump at_ todo = .ok loc) : walk root .find jump' at_ todo = .ok loc := by
  induction todo generalizing at_ with
  | nil => exact h
  | cons s todo ih =>
    rcases walk_spell_cons.mp h with ⟨mid, hstride, -, h⟩ | ⟨start, target, hstride, -, h⟩
    · rw [walk_cons_to hstride]
      exact ih h
    · rw [walk_cons_link hstride]
      exact hjump _ _ h

/-- They end where a look-up does that does not. -/
theorem resolve_find_of_spell (h : resolve root .spell limit at_ todo = .ok loc) :
    resolve root .find limit at_ todo = .ok loc := by
  induction limit generalizing at_ todo with
  | zero => exact walk_find_of_spell (fun _ _ h => by simp at h) h
  | succ limit ih => exact walk_find_of_spell (fun _ _ h => ih h) h

theorem size_le_of_walk_spell {jump : Location → List String → Except OsError Location}
    (hjump : ∀ start todo, (pathOf start).text.utf8ByteSize ≤ pathLimit →
      (∀ s ∈ todo, ¬ Holds '/' s) → jump start todo = .ok loc →
      (pathOf loc).text.utf8ByteSize ≤ pathLimit)
    (hat : (pathOf at_).text.utf8ByteSize ≤ pathLimit) (htodo : ∀ s ∈ todo, ¬ Holds '/' s)
    (h : walk root .spell jump at_ todo = .ok loc) :
    (pathOf loc).text.utf8ByteSize ≤ pathLimit := by
  induction todo generalizing at_ with
  | nil =>
    cases h
    exact hat
  | cons s todo ih =>
    have hrest : ∀ t ∈ todo, ¬ Holds '/' t := fun t ht => htodo t (by simp [ht])
    rcases walk_spell_cons.mp h with ⟨mid, hstride, hnext, h⟩ | ⟨start, target, hstride, -, h⟩
    · refine ih ?_ hrest h
      rcases stride_to (htodo s (by simp)) hstride with ⟨-, rfl⟩ | ⟨-, rfl⟩ | hname
      · exact hat
      · exact (size_pathOf_dropLast_le at_).trans hat
      · exact (size_le_sizeAskedNext mid todo).trans (hnext (stride_name hname hstride).1)
    · refine hjump _ _ ?_ ?_ h
      · rcases (stride_link hstride).2 with rfl | rfl
        · decide
        · exact hat
      · intro t ht
        rcases List.mem_append.mp ht with ht | ht
        · exact not_holds_of_mem_splitChar ht
        · exact hrest t ht

/-- From a place whose path is not too long they end at one whose path is not too long. -/
theorem size_le_of_resolve_spell (hat : (pathOf at_).text.utf8ByteSize ≤ pathLimit)
    (htodo : ∀ s ∈ todo, ¬ Holds '/' s) (h : resolve root .spell limit at_ todo = .ok loc) :
    (pathOf loc).text.utf8ByteSize ≤ pathLimit := by
  induction limit generalizing at_ todo with
  | zero => exact size_le_of_walk_spell (fun _ _ _ _ h => by simp at h) hat htodo h
  | succ limit ih => exact size_le_of_walk_spell (fun _ _ hat htodo h => ih hat htodo h) hat htodo h

end Spelled

/-! ### The look-ups of a disk -/

theorem locate_eq_ok {d : Disk} {p : Path} {loc : Location} :
    d.locate p = .ok loc ↔ checkPath p = .ok () ∧ d.follow .find p = .ok loc := by
  simp only [locate, locateWith, bind, Except.bind]
  cases checkPath p <;> simp

theorem entry?_eq_ok_iff_locate {d : Disk} {p : Path} {e : Entry} :
    d.entry? p = .ok e ↔ ∃ loc, d.locate p = .ok loc ∧ d.root.at? loc = some e := by
  unfold entry?
  simp only [bind, Except.bind]
  cases d.locate p with
  | error err => simp
  | ok loc => cases hat : d.root.at? loc <;> simp [hat]

/-- What a path leads to is what stands at the place that a look-up finds. -/
theorem entry?_eq_ok {d : Disk} {p : Path} {e : Entry} : d.entry? p = .ok e ↔
    checkPath p = .ok () ∧ ∃ loc, d.follow .find p = .ok loc ∧ d.root.at? loc = some e := by
  simp only [entry?_eq_ok_iff_locate, locate_eq_ok, and_assoc, exists_and_left]

/-- A path is canonical if it spells the place that a look-up ends at. -/
theorem canonical_eq_ok_iff {d : Disk} {p q : Path} : d.canonical p = .ok q ↔
    (checkPath p = .ok () ∨ checkPath p = .error .nameTooLong) ∧
      ∃ loc, d.follow .spell p = .ok loc ∧ q = pathOf loc := by
  have hmap : (d.follow .spell p).map pathOf = .ok q ↔
      ∃ loc, d.follow .spell p = .ok loc ∧ q = pathOf loc := by
    cases d.follow .spell p <;> simp [Except.map, eq_comm]
  unfold canonical
  cases hcheck : checkPath p with
  | ok u => simp [hmap]
  | error e => cases e <;> simp [hmap]

theorem canonical_eq_ok {d : Disk} {p q : Path} (h : d.canonical p = .ok q) :
    ∃ loc, d.follow .find p = .ok loc ∧ q = pathOf loc := by
  obtain ⟨-, loc, hfollow, hq⟩ := canonical_eq_ok_iff.mp h
  exact ⟨loc, resolve_find_of_spell hfollow, hq⟩

/-- The canonical path of an absolute one is not too long to be looked up. -/
theorem size_canonical_le {d : Disk} {p q : Path} (habs : p.isAbsolute = true)
    (h : d.canonical p = .ok q) : q.text.utf8ByteSize ≤ pathLimit := by
  obtain ⟨-, loc, hfollow, rfl⟩ := canonical_eq_ok_iff.mp h
  rw [follow, if_pos habs] at hfollow
  exact size_le_of_resolve_spell (by decide) (fun _ => not_holds_of_mem_segments) hfollow

theorem isFile_iff {d : Disk} {p : Path} :
    d.isFile p = true ↔ ∃ content, d.entry? p = .ok (.file content) := by
  unfold isFile
  split
  · rename_i content h
    simp [h]
  · rename_i h
    simp only [Bool.false_eq_true, false_iff, not_exists]
    exact fun content hc => h content hc

theorem isDir_iff {d : Disk} {p : Path} :
    d.isDir p = true ↔ ∃ f, d.entry? p = .ok (.folder f) := by
  unfold isDir
  split
  · rename_i f h
    simp [h]
  · rename_i h
    simp only [Bool.false_eq_true, false_iff, not_exists]
    exact fun f hf => h f hf

/-- Only folders list anything: their entries, each one step further down. -/
theorem list_eq_ok_iff {d : Disk} {p : Path} {ps : List Path} : d.list p = .ok ps ↔
    ∃ f, d.entry? p = .ok (.folder f) ∧ d.isReadable p = true ∧
      ps = f.entries.map fun e => p.child e.1 := by
  simp only [list, bind, Except.bind]
  cases hentry : d.entry? p with
  | error e => simp
  | ok e =>
    cases e with
    | file content | link target | special => simp
    | folder f => cases d.isReadable p <;> simp [eq_comm]

theorem read_eq_ok_iff {d : Disk} {p : Path} {bytes : ByteArray} :
    d.read p = .ok bytes ↔ d.entry? p = .ok (.file bytes) ∧ d.isReadable p = true := by
  simp only [read, bind, Except.bind]
  cases hentry : d.entry? p with
  | error e => simp
  | ok e => cases e <;> cases d.isReadable p <;> simp

theorem isDir_eq_false_of_isFile {d : Disk} {p : Path} (h : d.isFile p = true) :
    d.isDir p = false := by
  obtain ⟨content, hcontent⟩ := isFile_iff.mp h
  rw [isDir, hcontent]

theorem isFile_of_read {d : Disk} {p : Path} {bytes : ByteArray} (h : d.read p = .ok bytes) :
    d.isFile p = true :=
  isFile_iff.mpr ⟨bytes, (read_eq_ok_iff.mp h).1⟩

/-! ### Where files stand -/

theorem isFile_root (d : Disk) : d.isFile ⟨"/"⟩ = false := by
  have hseg : Path.segments ⟨"/"⟩ = ["", ""] := by decide
  have hcheck : checkPath ⟨"/"⟩ = .ok () := by decide
  have hfollow : d.follow .find ⟨"/"⟩ = .ok [] := by
    rw [follow, hseg]
    rfl
  simp [isFile, entry?, locate, locateWith, hcheck, hfollow, Folder.at?, bind, Except.bind]

theorem isFile_empty (d : Disk) : d.isFile ⟨""⟩ = false := by
  have hcheck : checkPath ⟨""⟩ = .error .notFound := by decide
  simp [isFile, entry?, locate, locateWith, hcheck, bind, Except.bind]

theorem text_ne_empty_of_isFile {d : Disk} {p : Path} (h : d.isFile p = true) : p.text ≠ "" := by
  intro hempty
  rw [Path.ext_text (q := ⟨""⟩) hempty, isFile_empty] at h
  simp at h

/-- A file stands in a directory. -/
theorem exists_parent_of_isFile {d : Disk} {f : Path} (hf : f.Tidy) (h : d.isFile f = true) :
    ∃ dir, f.parent? = some dir ∧ dir.Tidy := by
  rcases hf.exists_child with (rfl | rfl | rfl) | ⟨q, c, hq, hc, rfl⟩
  · simp [isFile_empty] at h
  · simp [isFile_root] at h
  · exact ⟨⟨""⟩, by decide, rfl⟩
  · exact ⟨q, hq.parent?_child hc, hq⟩

end Disk

end SourceWeb
