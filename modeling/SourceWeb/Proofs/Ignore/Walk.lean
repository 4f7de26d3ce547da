/-
  What a walk lists.

  A walk asks the matcher about every directory it enters.  For given rules it is a function of the
  folder alone, and the directories that it asks about are another one.  So it lists what those
  rules keep as long as the matcher gives them, whatever else it knows.
-/
import SourceWeb.Ignore.Walk
import SourceWeb.Proofs.Disk.Proper
import SourceWeb.Proofs.Ignore.Asked

namespace SourceWeb.Ignore.Matcher

open SourceWeb.Path

variable {m : Matcher} {disk : Disk} {rules : Path → List Rule} {cache : RuleCache}
  {dirs : List Path}

/-! ### Walks without a cache -/

/-- Is the entry of this name in a directory kept, under the rules for the directory? -/
def keeps (m : Matcher) (rules : Path → List Rule) (dir : Path) (name : String) (isDir : Bool) :
    Bool :=
  !m.covers (dir.child name) isDir (rules dir)

/-- Does a walk enter the directory of this name? -/
def enters (m : Matcher) (disk : Disk) (rules : Path → List Rule) (dir : Path) (name : String) :
    Bool :=
  m.keeps rules dir name true && disk.canList (dir.child name)

/-- The files that a walk lists in a folder that the path `dir` leads to. -/
def listFolder (m : Matcher) (disk : Disk) (rules : Path → List Rule) (dir : Path) :
    Folder → List Path
  | .empty => []
  | .file name _ others =>
    (if m.keeps rules dir name false then [dir.child name] else []) ++
      listFolder m disk rules dir others
  | .link name _ others =>
    (if m.keeps rules dir name false && disk.isFile (dir.child name) then [dir.child name]
      else []) ++
      listFolder m disk rules dir others
  | .special _ others => listFolder m disk rules dir others
  | .folder name inside others =>
    (if m.enters disk rules dir name then listFolder m disk rules (dir.child name) inside else []) ++
      listFolder m disk rules dir others

/-- The directories that a walk asks about in a folder that the path `dir` leads to. -/
def askedIn (m : Matcher) (disk : Disk) (rules : Path → List Rule) (dir : Path) :
    Folder → List Path
  | .empty => []
  | .file _ _ others | .link _ _ others | .special _ others =>
    dir :: askedIn m disk rules dir others
  | .folder name inside others =>
    dir :: ((if m.enters disk rules dir name then askedIn m disk rules (dir.child name) inside
        else []) ++
      askedIn m disk rules dir others)

theorem tidy_of_mem_askedIn {dir : Path} (hdir : dir.Tidy) {f : Folder} (hf : f.Proper) {p : Path}
    (h : p ∈ m.askedIn disk rules dir f) : p.Tidy := by
  induction f generalizing dir with
  | empty => simp [askedIn] at h
  | file name content others ih | link name content others ih | special name others ih =>
    rcases List.mem_cons.mp h with rfl | h
    · exact hdir
    · exact ih hdir hf.2.2 h
  | folder name inside others ihInside ih =>
    rcases List.mem_cons.mp h with rfl | h
    · exact hdir
    · rcases List.mem_append.mp h with h | h
      · split at h
        · exact ihInside (hdir.child_name hf.1) hf.2.2.1 h
        · simp at h
      · exact ih hdir hf.2.2.2 h

/-! ### Walks with a cache -/

/-- The matcher gives the rules `rules` for the entries of all directories that fit.  What it knows
    is told by the directories that it was asked about, in any order. -/
structure Asking (m : Matcher) (disk : Disk) (rules : Path → List Rule) (Fit : Path → Prop)
    (Knows : List Path → RuleCache → Prop) : Prop where
  prunes : ∀ {dirs cache dir name} (isDir : Bool), Knows dirs cache → Fit dir → IsName name →
    ∃ cache', (m.prunes disk (dir.child name) isDir).run cache =
      (!m.keeps rules dir name isDir, cache') ∧ Knows (dir :: dirs) cache'
  child : ∀ {dir name}, Fit dir → IsName name → Fit (dir.child name)
  order : ∀ {dirs dirs' cache}, Knows dirs cache → (∀ dir, dir ∈ dirs ↔ dir ∈ dirs') →
    Knows dirs' cache

section

variable {dir : Path} {name : String} {others : Folder} {pruned : Bool} {rest : List Path}
  {cache₁ cache₂ cache₃ : RuleCache}

theorem walkFolder_file {content : ByteArray}
    (hprunes : (m.prunes disk (dir.child name) false).run cache = (pruned, cache₁))
    (hothers : (m.walkFolder disk dir others).run cache₁ = (rest, cache₂)) :
    (m.walkFolder disk dir (.file name content others)).run cache =
      ((if pruned then [] else [dir.child name]) ++ rest, cache₂) := by
  simp only [walkFolder, StateT.run_bind, hprunes]
  simp only [bind]
  rw [hothers]
  rfl

theorem walkFolder_link {target : String}
    (hprunes : (m.prunes disk (dir.child name) false).run cache = (pruned, cache₁))
    (hothers : (m.walkFolder disk dir others).run cache₁ = (rest, cache₂)) :
    (m.walkFolder disk dir (.link name target others)).run cache =
      ((if pruned then [] else if disk.isFile (dir.child name) then [dir.child name] else []) ++
        rest, cache₂) := by
  simp only [walkFolder, StateT.run_bind, hprunes]
  simp only [bind]
  rw [hothers]
  rfl

theorem walkFolder_special
    (hprunes : (m.prunes disk (dir.child name) false).run cache = (pruned, cache₁))
    (hothers : (m.walkFolder disk dir others).run cache₁ = (rest, cache₂)) :
    (m.walkFolder disk dir (.special name others)).run cache = (rest, cache₂) := by
  simp only [walkFolder, StateT.run_bind, hprunes]
  exact hothers

theorem walkFolder_folder_passed {inside : Folder}
    (hprunes : (m.prunes disk (dir.child name) true).run cache = (pruned, cache₁))
    (hpassed : (!pruned && disk.canList (dir.child name)) = false)
    (hothers : (m.walkFolder disk dir others).run cache₁ = (rest, cache₂)) :
    (m.walkFolder disk dir (.folder name inside others)).run cache = (rest, cache₂) := by
  simp only [walkFolder, StateT.run_bind, hprunes]
  cases pruned with
  | true => exact hothers
  | false =>
    have hlist : disk.canList (dir.child name) = false := hpassed
    simp only [hlist, Bool.false_eq_true, if_false]
    exact hothers

theorem walkFolder_folder_entered {inside : Folder} {here : List Path}
    (hprunes : (m.prunes disk (dir.child name) true).run cache = (false, cache₁))
    (hlist : disk.canList (dir.child name) = true)
    (hinside : (m.walkFolder disk (dir.child name) inside).run cache₁ = (here, cache₂))
    (hothers : (m.walkFolder disk dir others).run cache₂ = (rest, cache₃)) :
    (m.walkFolder disk dir (.folder name inside others)).run cache = (here ++ rest, cache₃) := by
  simp only [walkFolder, StateT.run_bind, hprunes]
  simp only [bind, Bool.false_eq_true, if_false, hlist, if_true]
  simp only [StateT.run, StateT.bind, bind] at hinside hothers ⊢
  rw [hinside]
  dsimp only
  rw [hothers]
  rfl

end

/-- **A walk is a function of the folder.**  Whatever the matcher knew before, it lists what the
    rules keep, and afterwards it was asked about the directories of the walk too. -/
theorem Asking.walkFolder {Fit : Path → Prop} {Knows : List Path → RuleCache → Prop}
    (h : m.Asking disk rules Fit Knows) (dirs : List Path) (hknows : Knows dirs cache) {dir : Path}
    (hdir : Fit dir) {f : Folder} (hf : f.Proper) :
    ∃ cache', (m.walkFolder disk dir f).run cache = (m.listFolder disk rules dir f, cache') ∧
      Knows (m.askedIn disk rules dir f ++ dirs) cache' := by
  induction f generalizing dir dirs cache with
  | empty => exact ⟨cache, rfl, hknows⟩
  | file name content others ih =>
    obtain ⟨cache₁, hprunes, h₁⟩ := h.prunes false hknows hdir hf.1
    obtain ⟨cache₂, hothers, h₂⟩ := ih _ h₁ hdir hf.2.2
    refine ⟨cache₂, ?_, h.order h₂ fun p => ?_⟩
    · rw [walkFolder_file hprunes hothers, listFolder]
      cases m.keeps rules dir name false <;> rfl
    · simp only [askedIn, List.cons_append, List.mem_append, List.mem_cons]
      exact or_left_comm
  | link name target others ih =>
    obtain ⟨cache₁, hprunes, h₁⟩ := h.prunes false hknows hdir hf.1
    obtain ⟨cache₂, hothers, h₂⟩ := ih _ h₁ hdir hf.2.2
    refine ⟨cache₂, ?_, h.order h₂ fun p => ?_⟩
    · rw [walkFolder_link hprunes hothers, listFolder]
      cases m.keeps rules dir name false <;> rfl
    · simp only [askedIn, List.cons_append, List.mem_append, List.mem_cons]
      exact or_left_comm
  | special name others ih =>
    obtain ⟨cache₁, hprunes, h₁⟩ := h.prunes false hknows hdir hf.1
    obtain ⟨cache₂, hothers, h₂⟩ := ih _ h₁ hdir hf.2.2
    refine ⟨cache₂, by rw [walkFolder_special hprunes hothers, listFolder],
      h.order h₂ fun p => ?_⟩
    simp only [askedIn, List.cons_append, List.mem_append, List.mem_cons]
    exact or_left_comm
  | folder name inside others ihInside ih =>
    obtain ⟨cache₁, hprunes, h₁⟩ := h.prunes true hknows hdir hf.1
    cases henters : m.enters disk rules dir name with
    | false =>
      obtain ⟨cache₂, hothers, h₂⟩ := ih _ h₁ hdir hf.2.2.2
      refine ⟨cache₂, ?_, h.order h₂ fun p => ?_⟩
      · rw [walkFolder_folder_passed hprunes (by simpa [enters] using henters) hothers, listFolder,
          henters]
        rfl
      · simp only [askedIn, henters, List.cons_append, List.mem_append, List.mem_cons,
          Bool.false_eq_true, if_false, List.nil_append]
        exact or_left_comm
    | true =>
      obtain ⟨hkeeps, hlist⟩ := (Bool.and_eq_true _ _).mp henters
      rw [hkeeps] at hprunes
      obtain ⟨cache₂, hhere, h₂⟩ := ihInside _ h₁ (h.child hdir hf.1) hf.2.2.1
      obtain ⟨cache₃, hothers, h₃⟩ := ih _ h₂ hdir hf.2.2.2
      refine ⟨cache₃, ?_, h.order h₃ fun p => ?_⟩
      · rw [walkFolder_folder_entered hprunes hlist hhere hothers, listFolder, henters]
        rfl
      · simp only [askedIn, henters, List.cons_append, List.mem_append, List.mem_cons, if_true]
        grind

/-- Asking for the rules of the directory that an entry stands in tells whether it is kept. -/
theorem prunes_child {cache' : RuleCache} {dir : Path} {name : String} (hname : IsName name)
    (h : (m.rulesFor disk dir.trimmed).run cache = (rules dir, cache')) (isDir : Bool) :
    (m.prunes disk (dir.child name) isDir).run cache =
      (!m.keeps rules dir name isDir, cache') := by
  have hparent : (dir.child name).parent? = some dir.trimmed :=
    parent?_child dir (c := .name name) hname
  simp only [Matcher.prunes, hparent, StateT.run_bind, h, keeps, Bool.not_not]
  rfl

/-- A matcher that was asked about tidy directories gives the rules of the ignore files for
    these. -/
theorem asking_asked (m : Matcher) (disk : Disk) :
    m.Asking disk (m.freshRulesUsed disk) Tidy
      fun dirs cache => (∀ dir ∈ dirs, dir.Tidy) ∧ m.Asked disk dirs cache where
  prunes := by
    intro dirs cache dir name isDir hcache hdir hname
    obtain ⟨cache', hrun, hasked⟩ := rulesFor_asked hcache.1 hcache.2 hdir
    refine ⟨cache', prunes_child hname ?_ isDir, List.forall_mem_cons.mpr ⟨hdir, hcache.1⟩, hasked⟩
    rw [hdir.trimmed, hrun]
  child hdir hname := hdir.child_name hname
  order hcache hdirs := ⟨fun dir hdir => hcache.1 dir ((hdirs dir).mpr hdir),
    hcache.2.of_mem_iff hdirs⟩

/-- The files that a walk from a path lists. -/
def listed (m : Matcher) (disk : Disk) (p : Path) : List Path :=
  match disk.entry? p with
  | .ok (.file _) => [p]
  | .ok (.folder f) =>
    if disk.canList p then m.listFolder disk (m.freshRulesUsed disk) p f else []
  | _ => []

/-- The directories that a walk from a path asks about. -/
def askedFrom (m : Matcher) (disk : Disk) (p : Path) : List Path :=
  match disk.entry? p with
  | .ok (.folder f) =>
    if disk.canList p then m.askedIn disk (m.freshRulesUsed disk) p f else []
  | _ => []

theorem proper_of_entry_eq (hd : disk.Proper) {p : Path} {f : Folder}
    (h : disk.entry? p = .ok (.folder f)) : f.Proper := by
  obtain ⟨-, loc, -, hat⟩ := Disk.entry?_eq_ok.mp h
  exact (hd.root.of_at? hat).2 f rfl

theorem tidy_of_mem_askedFrom (hd : disk.Proper) {p q : Path} (hp : p.Tidy)
    (h : q ∈ m.askedFrom disk p) : q.Tidy := by
  unfold askedFrom at h
  split at h
  · rename_i f hf
    split at h
    · exact tidy_of_mem_askedIn hp (proper_of_entry_eq hd hf) h
    · simp at h
  · simp at h

/-- A walk from a path lists the same files whatever the matcher knew before. -/
theorem Asking.walkFrom {Fit : Path → Prop} {Knows : List Path → RuleCache → Prop}
    (h : m.Asking disk (m.freshRulesUsed disk) Fit Knows) (hd : disk.Proper) (dirs : List Path)
    (hknows : Knows dirs cache) {p : Path} (hp : Fit p) :
    ∃ cache', (m.walk disk p).run cache = (m.listed disk p, cache') ∧
      Knows (m.askedFrom disk p ++ dirs) cache' := by
  unfold walk listed askedFrom
  cases hentry : disk.entry? p with
  | error e => exact ⟨cache, rfl, hknows⟩
  | ok e =>
    cases e with
    | file content => exact ⟨cache, rfl, hknows⟩
    | link target => exact ⟨cache, rfl, hknows⟩
    | special => exact ⟨cache, rfl, hknows⟩
    | folder f =>
      dsimp only
      split
      · exact h.walkFolder dirs hknows hp (proper_of_entry_eq hd hentry)
      · exact ⟨cache, rfl, hknows⟩

theorem walk_asked (hd : disk.Proper) (hdirs : ∀ dir ∈ dirs, dir.Tidy)
    (hcache : m.Asked disk dirs cache) {p : Path} (hp : p.Tidy) :
    ∃ cache', (m.walk disk p).run cache = (m.listed disk p, cache') ∧
      m.Asked disk (m.askedFrom disk p ++ dirs) cache' := by
  obtain ⟨cache', hrun, -, hasked⟩ := (m.asking_asked disk).walkFrom hd dirs ⟨hdirs, hcache⟩ hp
  exact ⟨cache', hrun, hasked⟩

end SourceWeb.Ignore.Matcher
