/-
  Matchers that leave out more.

  The exclude pattern, the built-in globs and the ignore files are asked side by side, and rules
  only leave out.  So a matcher that goes by more of the three leaves out more: single paths, whole
  directories, and what a walk finds below them.
-/
import SourceWeb.Proofs.Ignore.Listed

namespace SourceWeb.Ignore.Matcher

open SourceWeb.Path

/-- Do the matchers differ only in that the second one goes by more of what a project may leave
    out? -/
structure Weaker (m m' : Matcher) : Prop where
  projectRoot : m.projectRoot = m'.projectRoot
  exclude : m.exclude = none ∨ m.exclude = m'.exclude
  builtin : m.builtin = true → m'.builtin = true
  useIgnoreFiles : m.useIgnoreFiles = true → m'.useIgnoreFiles = true

namespace Weaker

variable {m m' : Matcher} {disk : Disk} (h : m.Weaker m')

include h

/-! ### Rules -/

theorem relative_eq : m.relative = m'.relative := by
  funext p
  rw [relative, relative, h.projectRoot]

theorem inherits_eq : m.inherits = m'.inherits := by
  funext p
  rw [inherits, inherits, h.projectRoot]

theorem localRules_eq : m.localRules disk = m'.localRules disk := by
  funext dir
  rw [localRules, localRules, h.relative_eq]

/-- The ignore files say the same to both. -/
theorem rulesIn_eq (start : RuleCache) : m.rulesIn disk start = m'.rulesIn disk start := by
  have hbelow : m.rulesBelow disk start = m'.rulesBelow disk start := by
    funext up
    induction up with
    | nil => rw [rulesBelow, rulesBelow, h.projectRoot, h.localRules_eq]
    | cons c up ih => rw [rulesBelow, rulesBelow, h.projectRoot, h.localRules_eq, ih]
  funext dir
  simp only [rulesIn, h.projectRoot, hbelow]

theorem freshRules_eq : m.freshRules disk = m'.freshRules disk := by
  have halong : m.freshAlong disk = m'.freshAlong disk := by
    funext dirs
    induction dirs with
    | nil => rfl
    | cons dir above ih => rw [freshAlong, freshAlong, h.inherits_eq, h.localRules_eq, ih]
  funext dir
  rw [freshRules, freshRules, halong]

theorem rulesUsed_subset (start : RuleCache) (dir : Path) :
    m.rulesUsed disk start dir ⊆ m'.rulesUsed disk start dir := by
  intro r hr
  unfold rulesUsed at hr ⊢
  split at hr
  · rename_i huse
    rw [if_pos (h.useIgnoreFiles huse), ← h.rulesIn_eq]
    exact hr
  · simp at hr

theorem freshRulesUsed_subset (dir : Path) :
    m.freshRulesUsed disk dir ⊆ m'.freshRulesUsed disk dir := by
  intro r hr
  unfold freshRulesUsed at hr ⊢
  split at hr
  · rename_i huse
    rw [if_pos (h.useIgnoreFiles huse), ← h.freshRules_eq]
    exact hr
  · simp at hr

/-! ### Paths -/

theorem covers {p : Path} {isDir : Bool} {rules rules' : List Rule} (hrules : rules ⊆ rules')
    (hcovers : m.covers p isDir rules = true) : m'.covers p isDir rules' = true := by
  simp only [Matcher.covers, Bool.or_eq_true, Bool.and_eq_true, List.any_eq_true] at hcovers ⊢
  rw [← h.relative_eq]
  rcases hcovers with (hexclude | hbuiltin) | ⟨r, hr, hrule⟩
  · refine .inl (.inl ?_)
    rcases h.exclude with hnone | heq
    · rw [hnone] at hexclude
      simp at hexclude
    · rw [← heq]
      exact hexclude
  · exact .inl (.inr ⟨h.builtin hbuiltin.1, hbuiltin.2⟩)
  · exact .inr ⟨r, hrules hr, hrule⟩

theorem leavesOutBelow {start : RuleCache} {parent : Path} {cs : List Component}
    (hleft : m.leavesOutBelow disk start parent cs = true) :
    m'.leavesOutBelow disk start parent cs = true := by
  induction cs generalizing parent with
  | nil => exact hleft
  | cons c cs ih =>
    rw [Matcher.leavesOutBelow, Bool.or_eq_true] at hleft ⊢
    exact hleft.imp (h.covers (h.rulesUsed_subset start parent)) ih

/-- **What the first leaves out, the second leaves out.** -/
theorem leavesOut {start : RuleCache} {p : Path} (hleft : m.leavesOut disk start p = true) :
    m'.leavesOut disk start p = true := by
  unfold Matcher.leavesOut at hleft ⊢
  rw [← h.projectRoot]
  split at hleft
  · exact h.leavesOutBelow hleft
  · exact h.covers (fun _ hr => hr) hleft

/-! ### Walks -/

theorem keeps {dir : Path} {name : String} {isDir : Bool}
    (hkeeps : m'.keeps (m'.freshRulesUsed disk) dir name isDir = true) :
    m.keeps (m.freshRulesUsed disk) dir name isDir = true := by
  rw [Matcher.keeps, Bool.not_eq_true', ← Bool.not_eq_true] at hkeeps ⊢
  exact fun hcovers => hkeeps (h.covers (h.freshRulesUsed_subset dir) hcovers)

theorem passes {dir : Path} {names : List String}
    (hpasses : m'.passes (m'.freshRulesUsed disk) dir names = true) :
    m.passes (m.freshRulesUsed disk) dir names = true := by
  induction names generalizing dir with
  | nil => rfl
  | cons name names ih =>
    rw [Matcher.passes, Bool.and_eq_true] at hpasses ⊢
    exact hpasses.imp h.keeps ih

/-- **What a walk with the second lists, a walk with the first lists.** -/
theorem listed (hd : disk.Proper) {dir p : Path} (hp : p ∈ m'.listed disk dir) :
    p ∈ m.listed disk dir := by
  unfold Matcher.listed at hp ⊢
  split at hp
  · exact hp
  · rename_i f hf
    have hproper : f.Proper := proper_of_entry_eq hd hf
    obtain ⟨names, e, hat, hlists, heq, hpasses, hopens⟩ := (mem_listFolder_iff hproper).mp hp
    exact (mem_listFolder_iff hproper).mpr ⟨names, e, hat, hlists, heq, h.passes hpasses, hopens⟩
  · simp at hp

end Weaker

end SourceWeb.Ignore.Matcher
