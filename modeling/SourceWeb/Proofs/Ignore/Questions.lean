/-
  Any questions in any order.

  A matcher remembers what it read for one question and goes by it for the next ones.  Whatever the
  questions are, what it remembers is what the ignore files say, so it answers each of them as a new
  matcher would that was asked nothing else.  A new one goes by the ignore files from the project
  root down to a directory.  Only a spelling that is too long to read an ignore file through can
  spoil this, since what was not found then is remembered for all spellings of the directory.
-/
import SourceWeb.Proofs.Ignore.Listed

namespace SourceWeb.Ignore

open SourceWeb.Path
open RuleCache (Grown Right)

/-! ### Questions -/

/-- What a matcher can be asked: for the rules in force in a directory, whether some rules leave out
    a path, whether a path is left out, and for the files below a path. -/
inductive Question where
  | rules (dir : Path)
  | covers (p : Path) (isDir : Bool) (rules : List Rule)
  | ignored (p : Path)
  | walk (p : Path)
  deriving DecidableEq, Repr

/-- The answer to a question. -/
inductive Reply where
  | rules (found : List Rule)
  | verdict (leftOut : Bool)
  | files (found : List Path)
  deriving DecidableEq, Repr

namespace Matcher

def ask (m : Matcher) (disk : Disk) : Question → StateM RuleCache Reply
  | .rules dir => return .rules (← m.rulesFor disk dir)
  | .covers p isDir rules => return .verdict (m.covers p isDir rules)
  | .ignored p => return .verdict (← m.isIgnored disk p)
  | .walk p => return .files (← m.walk disk p)

def freshAnswer (m : Matcher) (disk : Disk) (q : Question) : Reply :=
  ((m.ask disk q).run []).1

/-- Are the ignore files that count for the answer read through the spellings in the question as
    through tidy ones? -/
def ReadsFor (m : Matcher) (disk : Disk) : Question → Prop
  | .rules dir => ∀ p ∈ m.lineage dir, disk.ReadsThrough p
  | .covers _ _ _ => True
  | .ignored _ => disk.ReadsThrough m.projectRoot
  | .walk dir => disk.ReadsAlong dir

/-- Does a matcher that goes by ignore files remember nothing but what these say? -/
def Sound (m : Matcher) (disk : Disk) (cache : RuleCache) : Prop :=
  m.useIgnoreFiles = true → Right (m.freshRules disk) cache

variable {m : Matcher} {disk : Disk} {cache : RuleCache}

theorem sound_nil : m.Sound disk [] :=
  fun _ => (m.asked_nil disk).right

/-! ### One question -/

theorem ask_rules {dir : Path} {found : List Rule} {cache' : RuleCache}
    (h : (m.rulesFor disk dir).run cache = (found, cache')) :
    (m.ask disk (.rules dir)).run cache = (.rules found, cache') := by
  rw [ask, StateT.run_bind, h]
  rfl

theorem grown_nil_iff {rules : Path → List Rule} : Grown [] rules cache ↔ Right rules cache :=
  ⟨fun h => h.right, fun h => ⟨h, fun _ _ => rfl⟩⟩

/-- Asking for the rules of a directory, in a spelling that does not show. -/
theorem rulesFor_sound {dir : Path}
    (hdir : m.useIgnoreFiles = true → ∀ p ∈ m.lineage dir, disk.ReadsThrough p)
    (hcache : m.Sound disk cache) :
    ∃ cache', (m.rulesFor disk dir).run cache = (m.freshRulesUsed disk dir, cache') ∧
      m.Sound disk cache' := by
  unfold rulesFor freshRulesUsed
  split
  · rename_i huse
    obtain ⟨cache', hrun, hgrown⟩ := rulesAlong_grown
      (fun _ _ => freshRules_eq_of_same m disk) (fun p hp _ => freshRules_eq (hdir huse p hp))
      (grown_nil_iff.mpr (hcache huse))
    exact ⟨cache', hrun, fun _ => hgrown.right⟩
  · exact ⟨cache, rfl, hcache⟩

theorem mem_ancestors_of_mem_lineage {dir p : Path} (h : p ∈ m.lineage dir) :
    p ∈ dir.ancestors := by
  unfold lineage at h
  split at h
  · exact (List.mem_filter.mp h).1
  · rw [List.mem_singleton.mp h, ancestors_eq]
    exact List.mem_cons_self

theorem asking_sound (m : Matcher) (disk : Disk) :
    m.Asking disk (m.freshRulesUsed disk)
      (fun dir => m.useIgnoreFiles = true → disk.ReadsAlong dir)
      fun _ cache => m.Sound disk cache where
  prunes := by
    intro _ cache dir name isDir hcache hdir hname
    have hsame : dir.trimmed.same dir = true := by simp [same]
    have habove : m.useIgnoreFiles = true → ∀ p ∈ m.lineage dir.trimmed, disk.ReadsThrough p :=
      fun huse p hp => (hdir huse).above p (mem_ancestors_of_mem_lineage hp)
    obtain ⟨cache', hrun, hsound⟩ := rulesFor_sound habove hcache
    rw [freshRulesUsed, freshRules_eq_of_same m disk hsame, ← freshRulesUsed] at hrun
    exact ⟨cache', prunes_child hname hrun isDir, hsound⟩
  child hdir hname huse := (hdir huse).child hname
  order hcache _ := hcache

theorem walk_sound (hd : disk.Proper) {p : Path}
    (hp : m.useIgnoreFiles = true → disk.ReadsAlong p)
    (hcache : m.Sound disk cache) :
    ∃ cache', (m.walk disk p).run cache = (m.listed disk p, cache') ∧
      m.Sound disk cache' :=
  (m.asking_sound disk).walkFrom hd [] hcache hp

/-- The rules of the ignore files are those in force below the project root, for a matcher that
    knows nothing. -/
theorem inForce_freshRules (hroot : disk.ReadsThrough m.projectRoot) :
    m.InForce disk [] (m.freshRules disk) := by
  refine ⟨fun _ _ => freshRules_eq_of_same m disk, fun dir hbelow => ?_⟩
  obtain ⟨cs, hcs⟩ := startsWith_iff.mp hbelow
  have hspelled : Spelled (m.projectRoot.components ++ cs) := hcs ▸ spelled_components dir
  have hsame : dir.same (m.projectRoot.down cs) = true := by
    rw [same_iff, hcs, components_down hspelled]
  rw [freshRules_eq_of_same m disk hsame, rulesIn_eq_of_same m disk [] hsame,
    rulesIn_eq_freshRules hroot (m.asked_nil disk).right hspelled]

theorem isIgnored_sound (hroot : m.useIgnoreFiles = true → disk.ReadsThrough m.projectRoot)
    (hcache : m.Sound disk cache) (p : Path) :
    ∃ cache', (m.isIgnored disk p).run cache = (m.leavesOut disk [] p, cache') ∧
      m.Sound disk cache' := by
  by_cases huse : m.useIgnoreFiles = true
  · obtain ⟨cache', hrun, hgrown⟩ := isIgnored_inForce (inForce_freshRules (hroot huse))
      (grown_nil_iff.mpr (hcache huse)) p
    exact ⟨cache', hrun, fun _ => hgrown.right⟩
  · -- without ignore files nothing that is remembered counts
    obtain ⟨cache', hrun, -⟩ := isIgnored_run (m.grown_start disk cache) p
    have heq : m.leavesOut disk cache p = m.leavesOut disk [] p := by
      refine leavesOut_congr (fun _ _ => ?_) p
      rw [rulesUsed, rulesUsed, if_neg huse, if_neg huse]
    exact ⟨cache', by rw [hrun, heq], fun h => absurd h huse⟩

/-- What a matcher answers rests on the ignore files, whatever it remembers of them, and it
    remembers nothing else afterwards. -/
theorem exists_answer (hd : disk.Proper) {q : Question}
    (hq : m.useIgnoreFiles = true → m.ReadsFor disk q) :
    ∃ reply, ∀ cache, m.Sound disk cache →
      ∃ cache', (m.ask disk q).run cache = (reply, cache') ∧
        m.Sound disk cache' := by
  cases q with
  | rules dir =>
    refine ⟨.rules (m.freshRulesUsed disk dir), fun cache hcache => ?_⟩
    obtain ⟨cache', hrun, hsound⟩ := rulesFor_sound hq hcache
    exact ⟨cache', ask_rules hrun, hsound⟩
  | covers p isDir rules => exact ⟨.verdict (m.covers p isDir rules), fun cache hcache =>
      ⟨cache, rfl, hcache⟩⟩
  | ignored p =>
    refine ⟨.verdict (m.leavesOut disk [] p), fun cache hcache => ?_⟩
    obtain ⟨cache', hrun, hsound⟩ := isIgnored_sound hq hcache p
    refine ⟨cache', ?_, hsound⟩
    rw [ask, StateT.run_bind, hrun]
    rfl
  | walk p =>
    refine ⟨.files (m.listed disk p), fun cache hcache => ?_⟩
    obtain ⟨cache', hrun, hsound⟩ := walk_sound hd hq hcache
    refine ⟨cache', ?_, hsound⟩
    rw [ask, StateT.run_bind, hrun]
    rfl

theorem ask_run (hd : disk.Proper) {q : Question}
    (hq : m.useIgnoreFiles = true → m.ReadsFor disk q)
    (hcache : m.Sound disk cache) :
    ∃ cache', (m.ask disk q).run cache = (m.freshAnswer disk q, cache') ∧
      m.Sound disk cache' := by
  obtain ⟨reply, hreply⟩ := exists_answer hd hq
  obtain ⟨_, hfresh, -⟩ := hreply [] sound_nil
  have heq : m.freshAnswer disk q = reply := congrArg Prod.fst hfresh
  rw [heq]
  exact hreply cache hcache

/-! ### All questions -/

theorem mapM_ask_cons {q : Question} {qs : List Question} {reply : Reply} {cache' : RuleCache}
    (h : (m.ask disk q).run cache = (reply, cache')) :
    (((q :: qs).mapM (m.ask disk)).run cache).1 =
      reply :: ((qs.mapM (m.ask disk)).run cache').1 := by
  rw [List.mapM_cons, StateT.run_bind, h]
  rfl

theorem mapM_ask_run (hd : disk.Proper) {qs : List Question}
    (hqs : m.useIgnoreFiles = true → ∀ q ∈ qs, m.ReadsFor disk q)
    (hcache : m.Sound disk cache) :
    ((qs.mapM (m.ask disk)).run cache).1 = qs.map (m.freshAnswer disk) := by
  induction qs generalizing cache with
  | nil => rfl
  | cons q qs ih =>
    obtain ⟨cache', hrun, hsound⟩ :=
      ask_run hd (fun huse => hqs huse q List.mem_cons_self) hcache
    rw [mapM_ask_cons hrun, List.map_cons]
    refine congrArg (m.freshAnswer disk q :: ·) (ih ?_ hsound)
    intro huse q' hq'
    exact hqs huse q' (List.mem_cons_of_mem _ hq')

/-! ### A new matcher -/

theorem rulesAlong_nil (m : Matcher) (disk : Disk) (dir : Path) :
    ((m.rulesAlong disk dir.ancestors).run []).1 = m.freshAlong disk dir.ancestors := by
  induction dir using parentInduction with
  | child dir ih =>
    rw [rulesAlong_of_unknown rfl, freshAlong_ancestors, askAbove, takenOver]
    cases hparent : dir.parent? with
    | none => rfl
    | some up =>
      cases m.inherits dir with
      | false => rfl
      | true => simp only [if_true, ih up hparent]

/-- The rules of a directory, from the project root down. -/
theorem freshAlong_eq_flatMap (m : Matcher) (disk : Disk) (dir : Path) :
    m.freshAlong disk dir.ancestors = (m.lineage dir).reverse.flatMap (m.localRules disk) := by
  induction dir using parentInduction with
  | child dir ih =>
    rw [freshAlong_ancestors, takenOver, lineage_eq, List.reverse_cons, List.flatMap_append,
      List.flatMap_singleton]
    refine congrArg (· ++ m.localRules disk dir) ?_
    cases hparent : dir.parent? with
    | none => rfl
    | some up =>
      cases m.inherits dir with
      | false => rfl
      | true => exact ih up hparent

theorem freshAnswer_rules (huse : m.useIgnoreFiles = true) (dir : Path) :
    m.freshAnswer disk (.rules dir) =
      .rules ((m.lineage dir).reverse.flatMap (m.localRules disk)) := by
  rw [← freshAlong_eq_flatMap, ← rulesAlong_nil]
  simp only [freshAnswer, ask, rulesFor, huse, if_true, StateT.run_bind]
  rfl

/-- **The rule cache does not show, whatever is asked.**  As long as no ignore file is read through
    a spelling that shows, a matcher answers any questions in any order as a new one answers each of
    them alone.  The rules that a new one gives for a directory of the project are those of the
    ignore files from the project root down to it, and of any other directory its own. -/
theorem answers_eq_fresh (hd : disk.Proper) {qs : List Question}
    (hqs : m.useIgnoreFiles = true → ∀ q ∈ qs, m.ReadsFor disk q) :
    ((qs.mapM (m.ask disk)).run []).1 = qs.map (m.freshAnswer disk) ∧
      (m.useIgnoreFiles = true → ∀ dir,
        (dir.startsWith m.projectRoot = true → m.freshAnswer disk (.rules dir) =
          .rules ((dir.ancestors.filter fun p => p.startsWith m.projectRoot).reverse.flatMap
            (m.localRules disk))) ∧
        (dir.startsWith m.projectRoot = false → m.freshAnswer disk (.rules dir) =
          .rules (m.localRules disk dir))) := by
  refine ⟨mapM_ask_run hd hqs sound_nil, fun huse dir => ?_⟩
  rw [freshAnswer_rules huse, lineage]
  constructor
  · intro hbelow
    rw [if_pos hbelow]
  · intro hbelow
    rw [hbelow]
    simp

theorem readsFor_rules_of_tidy {dir : Path} (hdir : dir.Tidy) : m.ReadsFor disk (.rules dir) := by
  intro p hp
  refine (hdir.readsAlong disk).above p ?_
  rw [hdir.trimmed]
  exact mem_ancestors_of_mem_lineage hp

theorem blanket_answers_eq_fresh :
    let qs : List Question := [.walk ⟨"/p/build"⟩, .rules ⟨"/p/build"⟩, .ignored ⟨"/p/build/x"⟩,
      .covers ⟨"/p/a"⟩ false [], .rules ⟨"/p"⟩, .walk ⟨"/p"⟩]
    blanketDisk.Proper ∧
      (blanketMatcher.useIgnoreFiles = true →
        ∀ q ∈ qs, blanketMatcher.ReadsFor blanketDisk q) ∧
      ((qs.mapM (blanketMatcher.ask blanketDisk)).run []).1 =
        qs.map (blanketMatcher.freshAnswer blanketDisk) := by
  intro qs
  have hroot : Path.Tidy ⟨"/p"⟩ := rfl
  have hbuild : Path.Tidy ⟨"/p/build"⟩ := rfl
  have hqs : ∀ q ∈ qs, blanketMatcher.ReadsFor blanketDisk q := by
    simp only [qs, List.forall_mem_cons]
    exact ⟨hbuild.readsAlong _, readsFor_rules_of_tidy hbuild, hroot.readsThrough _, trivial,
      readsFor_rules_of_tidy hroot, hroot.readsAlong _, by simp⟩
  exact ⟨proper_blanketDisk, fun _ => hqs, (answers_eq_fresh proper_blanketDisk fun _ => hqs).1⟩

/-- A directory spelled with so many slashes that nothing can be read through it seems to have no
    ignore file, and this is remembered for the directory in all spellings. -/
theorem answers_after_long_spelling :
    let long := Path.padded ⟨"/p"⟩ (Disk.pathLimit + 1)
    (([Question.rules long, .rules ⟨"/p"⟩].mapM (blanketMatcher.ask blanketDisk)).run []).1 =
        [.rules [], .rules []] ∧
      blanketMatcher.freshAnswer blanketDisk (.rules ⟨"/p"⟩) ≠ .rules [] := by
  intro long
  have hsame : long.same ⟨"/p"⟩ = true := same_iff.mpr (components_padded (by decide) _)
  have hinherits : blanketMatcher.inherits long = false := by
    rw [blanketMatcher.inherits_eq_of_same hsame]
    exact inherits_root
  have hname : IsName ".gitignore" := by simp [IsName, Text.Holds]
  have hlocal : blanketMatcher.localRules blanketDisk long = [] := by
    have hlong : Disk.pathLimit < (long.child ".gitignore").text.utf8ByteSize :=
      Nat.lt_of_lt_of_le (le_size_padded ⟨"/p"⟩ (Disk.pathLimit + 1)) (size_le_size_child _ hname)
    rw [localRules, Disk.isFile_of_long _ hlong]
    rfl
  have hfirst : (blanketMatcher.rulesFor blanketDisk long).run [] = ([], [(long, [])]) := by
    clear_value long
    have huse : blanketMatcher.useIgnoreFiles = true := rfl
    rw [rulesFor, if_pos huse, rulesAlong_of_unknown rfl, askAbove, hinherits, hlocal]
    cases long.parent? <;> rfl
  have hsecond : (blanketMatcher.rulesFor blanketDisk ⟨"/p"⟩).run [(long, [])] =
      ([], [(long, [])]) := by
    refine rulesAlong_of_known ?_
    simp [RuleCache.get?, hsame]
  refine ⟨?_, by decide +kernel⟩
  rw [mapM_ask_cons (ask_rules hfirst), mapM_ask_cons (ask_rules hsecond)]
  rfl

end Matcher

end SourceWeb.Ignore
