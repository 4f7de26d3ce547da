/-
  What is left out does not depend on the order in which folders list their entries.

  A walk lists the same files and asks about the same directories, in another order; and what a
  matcher that knows the same rules leaves out stays the same.
-/
import SourceWeb.Proofs.Disk.Shuffle
import SourceWeb.Proofs.Ignore.Walk

namespace SourceWeb.Ignore.Matcher

open SourceWeb.Path

variable {d d' : Disk}

/-! ### Rules -/

theorem localRules_shuffle (m : Matcher) (h : d.Shuffle d') : m.localRules d = m.localRules d' := by
  funext dir
  unfold localRules
  rw [h.isFile, h.readText]

theorem freshRules_shuffle (m : Matcher) (h : d.Shuffle d') : m.freshRules d = m.freshRules d' := by
  have halong : ∀ dirs, m.freshAlong d dirs = m.freshAlong d' dirs := by
    intro dirs
    induction dirs with
    | nil => rfl
    | cons dir above ih => rw [freshAlong, freshAlong, ih, m.localRules_shuffle h]
  funext dir
  rw [freshRules, freshRules, halong]

theorem freshRulesUsed_shuffle (m : Matcher) (h : d.Shuffle d') :
    m.freshRulesUsed d = m.freshRulesUsed d' := by
  funext dir
  rw [freshRulesUsed, freshRulesUsed, m.freshRules_shuffle h]

theorem Asked.shuffle {m : Matcher} {dirs : List Path} {cache : RuleCache} (h : d.Shuffle d')
    (hasked : m.Asked d dirs cache) : m.Asked d' dirs cache :=
  ⟨m.freshRules_shuffle h ▸ hasked.right, hasked.known⟩

/-! ### Walks -/

theorem listFolder_cons (m : Matcher) (disk : Disk) (rules : Path → List Rule) (dir : Path)
    (name : String) (e : Entry) (f : Folder) : m.listFolder disk rules dir (.cons name e f) =
      m.listFolder disk rules dir (.cons name e .empty) ++ m.listFolder disk rules dir f := by
  cases e <;> simp [Folder.cons, listFolder]

theorem askedIn_cons (m : Matcher) (disk : Disk) (rules : Path → List Rule) (dir : Path)
    (name : String) (e : Entry) (f : Folder) : m.askedIn disk rules dir (.cons name e f) =
      m.askedIn disk rules dir (.cons name e .empty) ++ m.askedIn disk rules dir f := by
  cases e <;> simp [Folder.cons, askedIn]

theorem enters_disk (m : Matcher) (h : d.Shuffle d') (rules : Path → List Rule) :
    m.enters d rules = m.enters d' rules := by
  funext dir name
  rw [enters, enters, h.canList]

theorem listFolder_disk (m : Matcher) (h : d.Shuffle d') (rules : Path → List Rule) :
    m.listFolder d rules = m.listFolder d' rules := by
  funext dir f
  induction f generalizing dir with
  | empty => rfl
  | file name content others ih => simp only [listFolder, ih]
  | link name target others ih => simp only [listFolder, h.isFile, ih]
  | special name others ih => simp only [listFolder, ih]
  | folder name inside others ihInside ih =>
    simp only [listFolder, m.enters_disk h, ihInside, ih]

theorem askedIn_disk (m : Matcher) (h : d.Shuffle d') (rules : Path → List Rule) :
    m.askedIn d rules = m.askedIn d' rules := by
  funext dir f
  induction f generalizing dir with
  | empty => rfl
  | file name content others ih | link name content others ih | special name others ih =>
    simp only [askedIn, ih]
  | folder name inside others ihInside ih => simp only [askedIn, m.enters_disk h, ihInside, ih]

theorem listFolder_shuffle (m : Matcher) (disk : Disk) (rules : Path → List Rule) {f f' : Folder}
    (hf : f.Shuffle f') (dir : Path) :
    (m.listFolder disk rules dir f).Perm (m.listFolder disk rules dir f') := by
  induction hf generalizing dir with
  | empty => exact .nil
  | file name content _ ih => exact (ih dir).append_left _
  | link name target _ ih => exact (ih dir).append_left _
  | special name _ ih => exact ih dir
  | folder name _ _ ihInside ih =>
    rw [listFolder, listFolder]
    refine .append ?_ (ih dir)
    split
    · exact ihInside _
    · exact .nil
  | swap hne e e' f =>
    rename_i n n'
    rw [listFolder_cons m disk rules dir n e (.cons n' e' f),
      listFolder_cons m disk rules dir n' e' f,
      listFolder_cons m disk rules dir n' e' (.cons n e f),
      listFolder_cons m disk rules dir n e f, ← List.append_assoc, ← List.append_assoc]
    exact .append_right _ List.perm_append_comm
  | trans _ _ ih ih' => exact (ih dir).trans (ih' dir)

theorem askedIn_shuffle (m : Matcher) (disk : Disk) (rules : Path → List Rule) {f f' : Folder}
    (hf : f.Shuffle f') (dir : Path) :
    (m.askedIn disk rules dir f).Perm (m.askedIn disk rules dir f') := by
  induction hf generalizing dir with
  | empty => exact .nil
  | file name content _ ih => exact (ih dir).cons dir
  | link name target _ ih => exact (ih dir).cons dir
  | special name _ ih => exact (ih dir).cons dir
  | folder name _ _ ihInside ih =>
    rw [askedIn, askedIn]
    refine .cons dir (.append ?_ (ih dir))
    split
    · exact ihInside _
    · exact .nil
  | swap hne e e' f =>
    rename_i n n'
    rw [askedIn_cons m disk rules dir n e (.cons n' e' f), askedIn_cons m disk rules dir n' e' f,
      askedIn_cons m disk rules dir n' e' (.cons n e f), askedIn_cons m disk rules dir n e f,
      ← List.append_assoc, ← List.append_assoc]
    exact .append_right _ List.perm_append_comm
  | trans _ _ ih ih' => exact (ih dir).trans (ih' dir)

theorem listed_shuffle (m : Matcher) (h : d.Shuffle d') (p : Path) :
    (m.listed d p).Perm (m.listed d' p) := by
  rw [listed, listed, m.freshRulesUsed_shuffle h, m.listFolder_disk h, h.canList]
  rcases h.entry? p with heq | ⟨f, f', hf, hf', hshuffle⟩
  · rw [heq]
  · rw [hf, hf']
    dsimp only
    split
    · exact m.listFolder_shuffle d' _ hshuffle p
    · exact .nil

theorem askedFrom_shuffle (m : Matcher) (h : d.Shuffle d') (p : Path) :
    (m.askedFrom d p).Perm (m.askedFrom d' p) := by
  rw [askedFrom, askedFrom, m.freshRulesUsed_shuffle h, m.askedIn_disk h, h.canList]
  rcases h.entry? p with heq | ⟨f, f', hf, hf', hshuffle⟩
  · rw [heq]
  · rw [hf, hf']
    dsimp only
    split
    · exact m.askedIn_shuffle d' _ hshuffle p
    · exact .nil

/-! ### Paths -/

section

variable {start start' : RuleCache}

theorem rulesBelow_shuffle (m : Matcher) (h : d.Shuffle d')
    (hstart : ∀ p, start.get? p = start'.get? p) (up : List Component) :
    m.rulesBelow d start up = m.rulesBelow d' start' up := by
  induction up with
  | nil => rw [rulesBelow, rulesBelow, hstart, m.localRules_shuffle h]
  | cons c up ih => rw [rulesBelow, rulesBelow, hstart, ih, m.localRules_shuffle h]

theorem rulesUsed_shuffle (m : Matcher) (h : d.Shuffle d')
    (hstart : ∀ p, start.get? p = start'.get? p) :
    m.rulesUsed d start = m.rulesUsed d' start' := by
  funext dir
  simp only [rulesUsed, rulesIn, m.rulesBelow_shuffle h hstart, hstart]

/-- **What is left out does not depend on the order.**  It is the same for matchers that know the
    same rules at the start. -/
theorem leavesOut_shuffle (m : Matcher) (h : d.Shuffle d')
    (hstart : ∀ p, start.get? p = start'.get? p) (p : Path) :
    m.leavesOut d start p = m.leavesOut d' start' p := by
  have hbelow : ∀ (cs : List Component) (parent : Path),
      m.leavesOutBelow d start parent cs = m.leavesOutBelow d' start' parent cs := by
    intro cs
    induction cs with
    | nil => exact fun _ => rfl
    | cons c cs ih =>
      intro parent
      rw [leavesOutBelow, leavesOutBelow, ih, h.isDir, m.rulesUsed_shuffle h hstart]
  simp only [leavesOut, hbelow, h.isDir]

end

end SourceWeb.Ignore.Matcher
