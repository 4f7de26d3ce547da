/-
  What a new matcher knows once it was asked about some directories.

  The rules of a directory rest on those of the directories above it, as far as these are inherited.
  Asking about a directory teaches the matcher the rules of all that its own rest on, and nothing
  else; so what it knows depends on which directories it was asked about, but not on their order.
-/
import Mathlib.Data.List.Induction
import SourceWeb.Proofs.Ignore.Cache

namespace SourceWeb.Ignore

open SourceWeb.Path

namespace Matcher

variable {m : Matcher} {disk : Disk} {cache : RuleCache} {dirs : List Path}

/-! ### Rules without a cache -/

/-- The rules in force in the first of a chain of directories, each the parent of the one before,
    read from the ignore files. -/
def freshAlong (m : Matcher) (disk : Disk) : List Path → List Rule
  | [] => []
  | dir :: above =>
    (if m.inherits dir && !above.isEmpty then freshAlong m disk above else []) ++
      m.localRules disk dir

/-- The rules in force in a directory, in its tidy spelling, read from the ignore files. -/
def freshRules (m : Matcher) (disk : Disk) (dir : Path) : List Rule :=
  m.freshAlong disk (ofComponents dir.components).ancestors

theorem freshRules_eq_of_same (m : Matcher) (disk : Disk) {p q : Path} (h : p.same q = true) :
    m.freshRules disk p = m.freshRules disk q := by
  rw [freshRules, freshRules, same_iff.mp h]

/-- What a directory takes over, if `rules` gives what is in force in the one above it. -/
def takenOver (m : Matcher) (rules : Path → List Rule) (dir : Path) : List Rule :=
  match dir.parent? with
  | some above => if m.inherits dir then rules above else []
  | none => []

theorem freshAlong_ancestors (m : Matcher) (disk : Disk) (dir : Path) :
    m.freshAlong disk dir.ancestors =
      m.takenOver (fun above => m.freshAlong disk above.ancestors) dir ++
        m.localRules disk dir := by
  rw [ancestors_eq, freshAlong, takenOver]
  cases dir.parent? with
  | none => simp
  | some above =>
    have hne : above.ancestors.isEmpty = false := by
      rw [ancestors_eq]
      rfl
    simp [hne]

theorem freshRules_of_tidy {dir : Path} (h : dir.Tidy) :
    m.freshRules disk dir =
      m.takenOver (m.freshRules disk) dir ++ m.localRules disk dir := by
  rw [freshRules, h, freshAlong_ancestors, takenOver, takenOver]
  cases hparent : dir.parent? with
  | none => rfl
  | some above =>
    have habove : ofComponents above.components = above := h.parent hparent
    simp only [freshRules, habove]

/-! ### What the rules of a directory rest on -/

/-- Do the rules of the first directory rest on those of the second? -/
inductive Rests (m : Matcher) : Path → Path → Prop
  | self {dir p : Path} (h : dir.same p = true) : Rests m dir p
  | above {dir up p : Path} (hinherits : m.inherits dir = true) (hparent : dir.parent? = some up)
      (h : Rests m up p) : Rests m dir p

theorem rests_iff {dir p : Path} : m.Rests dir p ↔
    dir.same p = true ∨
      ∃ up, m.inherits dir = true ∧ dir.parent? = some up ∧ m.Rests up p := by
  constructor
  · rintro (h | ⟨hinherits, hparent, h⟩)
    · exact .inl h
    · exact .inr ⟨_, hinherits, hparent, h⟩
  · rintro (h | ⟨up, hinherits, hparent, h⟩)
    · exact .self h
    · exact .above hinherits hparent h

theorem Rests.trans {dir mid p : Path} (hdir : dir.Tidy) (hmid : mid.Tidy)
    (h : m.Rests dir mid) (h' : m.Rests mid p) : m.Rests dir p := by
  induction h with
  | self hsame => exact hdir.eq_of_same hmid hsame ▸ h'
  | above hinherits hparent _ ih =>
    exact .above hinherits hparent (ih (hdir.parent hparent) hmid h')

/-- The matcher was asked about these directories: it knows what their rules rest on, and what it
    knows is what the ignore files say. -/
structure Asked (m : Matcher) (disk : Disk) (dirs : List Path) (cache : RuleCache) : Prop where
  right : RuleCache.Right (m.freshRules disk) cache
  known : ∀ p, (cache.get? p).isSome = true ↔
    m.useIgnoreFiles = true ∧ ∃ dir ∈ dirs, m.Rests dir p

theorem asked_nil (m : Matcher) (disk : Disk) : m.Asked disk [] [] :=
  ⟨fun p found h => by simp [RuleCache.get?] at h, fun p => by simp [RuleCache.get?]⟩

/-- The order of the directories does not count. -/
theorem Asked.of_mem_iff {dirs' : List Path} (h : m.Asked disk dirs cache)
    (hdirs : ∀ dir, dir ∈ dirs ↔ dir ∈ dirs') : m.Asked disk dirs' cache := by
  refine ⟨h.right, fun p => ?_⟩
  simp only [h.known, hdirs]

/-- Only which directories the matcher was asked about counts. -/
theorem Asked.get?_eq {dirs' : List Path} {cache' : RuleCache} (h : m.Asked disk dirs cache)
    (h' : m.Asked disk dirs' cache') (hdirs : ∀ dir, dir ∈ dirs ↔ dir ∈ dirs') (p : Path) :
    cache.get? p = cache'.get? p := by
  have hknown : (cache.get? p).isSome = (cache'.get? p).isSome := by
    rw [Bool.eq_iff_iff, h.known, h'.known]
    simp only [hdirs]
  cases hp : cache.get? p with
  | none =>
    rw [hp] at hknown
    cases hp' : cache'.get? p with
    | none => rfl
    | some found => simp [hp'] at hknown
  | some found =>
    rw [hp] at hknown
    cases hp' : cache'.get? p with
    | none => simp [hp'] at hknown
    | some found' => rw [h.right p found hp, h'.right p found' hp']

/-- A directory whose rules are known was asked about already, together with what they rest on. -/
theorem Asked.cons_of_known (hdirs : ∀ dir ∈ dirs, dir.Tidy) (hcache : m.Asked disk dirs cache)
    {dir : Path} (hdir : dir.Tidy) {found : List Rule} (hknown : cache.get? dir = some found) :
    m.Asked disk (dir :: dirs) cache := by
  refine ⟨hcache.right, fun p => ?_⟩
  obtain ⟨-, before, hbefore, hrests⟩ := (hcache.known dir).mp (by simp [hknown])
  rw [hcache.known, List.exists_mem_cons_iff]
  refine and_congr_right fun _ => ⟨.inr, ?_⟩
  rintro (h | h)
  · exact ⟨before, hbefore, hrests.trans (hdirs before hbefore) hdir h⟩
  · exact h

/-- The rules that a directory inherits, once the directory above it was asked about. -/
theorem askAbove_asked (huse : m.useIgnoreFiles = true) (hcache : m.Asked disk dirs cache)
    {dir : Path} (hdir : dir.Tidy) (habove : ∀ up, dir.parent? = some up → ∃ cache',
      (m.rulesAlong disk up.ancestors).run cache = (m.freshRules disk up, cache') ∧
        m.Asked disk (up :: dirs) cache') :
    ∃ inherited cache', m.askAbove disk dir cache = (inherited, cache') ∧
      m.freshRules disk dir = inherited ++ m.localRules disk dir ∧
      RuleCache.Right (m.freshRules disk) cache' ∧
      ∀ p, (cache'.get? p).isSome = true ↔ (∃ up, m.inherits dir = true ∧
        dir.parent? = some up ∧ m.Rests up p) ∨ ∃ dir ∈ dirs, m.Rests dir p := by
  rw [freshRules_of_tidy hdir, askAbove, takenOver]
  cases hparent : dir.parent? with
  | none => exact ⟨[], cache, rfl, rfl, hcache.right, by simp [hcache.known, huse]⟩
  | some up =>
    cases hinherits : m.inherits dir with
    | false => exact ⟨[], cache, rfl, rfl, hcache.right, by simp [hcache.known, huse]⟩
    | true =>
      obtain ⟨cache', hrun, hasked⟩ := habove up hparent
      simp only [if_true, hrun]
      exact ⟨_, _, rfl, rfl, hasked.right, fun p => by simp [hasked.known, huse]⟩

theorem rulesAlong_asked (huse : m.useIgnoreFiles = true) (hdirs : ∀ dir ∈ dirs, dir.Tidy)
    (hcache : m.Asked disk dirs cache) {dir : Path} (hdir : dir.Tidy) :
    ∃ cache', (m.rulesAlong disk dir.ancestors).run cache = (m.freshRules disk dir, cache') ∧
      m.Asked disk (dir :: dirs) cache' := by
  induction dir using parentInduction with
  | child dir ih =>
    cases hknown : cache.get? dir with
    | some found =>
      refine ⟨cache, ?_, hcache.cons_of_known hdirs hdir hknown⟩
      rw [rulesAlong_of_known hknown, hcache.right dir found hknown]
    | none =>
      obtain ⟨inherited, cache', hask, hrules, hright, hknown'⟩ :=
        askAbove_asked huse hcache hdir fun up hparent => ih up hparent (hdir.parent hparent)
      have hsame : ∀ p q : Path, p.same q = true → m.freshRules disk p = m.freshRules disk q :=
        fun _ _ => freshRules_eq_of_same m disk
      refine ⟨cache' ++ [(dir, m.freshRules disk dir)], ?_, hright.learn hsame dir, fun p => ?_⟩
      · rw [rulesAlong_of_unknown hknown, hask, hrules]
      · have hdir : (if dir.same p = true then some (m.freshRules disk dir) else none).isSome = true
            ↔ dir.same p = true := by
          split <;> simp_all
        rw [RuleCache.get?_append_singleton, Option.isSome_or, Bool.or_eq_true, hknown',
          List.exists_mem_cons_iff, rests_iff, hdir, or_comm, ← or_assoc]
        simp [huse]

/-- The rules that count for the entries of a directory, read from the ignore files. -/
def freshRulesUsed (m : Matcher) (disk : Disk) (dir : Path) : List Rule :=
  if m.useIgnoreFiles then m.freshRules disk dir else []

theorem rulesFor_asked (hdirs : ∀ dir ∈ dirs, dir.Tidy) (hcache : m.Asked disk dirs cache)
    {dir : Path} (hdir : dir.Tidy) :
    ∃ cache', (m.rulesFor disk dir).run cache = (m.freshRulesUsed disk dir, cache') ∧
      m.Asked disk (dir :: dirs) cache' := by
  unfold rulesFor freshRulesUsed
  split
  · rename_i huse
    exact rulesAlong_asked huse hdirs hcache hdir
  · rename_i huse
    refine ⟨cache, rfl, hcache.right, fun p => ?_⟩
    simp [hcache.known, huse]

end Matcher

end SourceWeb.Ignore
