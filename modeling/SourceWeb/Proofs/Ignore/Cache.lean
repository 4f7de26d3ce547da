/-
  The rule cache does not show.

  A matcher remembers the rules of every directory that it was asked about.  What it answers about a
  path still depends on what it knew at the start alone: whatever it learns on the way is what it
  would have found without having asked before.  The project root may be spelled in any way, since
  the directories are looked at from the root down, so that the one above is always known.
-/
import SourceWeb.Ignore.Matcher
import SourceWeb.Proofs.Path.Below

namespace SourceWeb.Ignore

open SourceWeb.Path

namespace RuleCache

theorem get?_eq_of_same (cache : RuleCache) {p q : Path} (h : p.same q = true) :
    cache.get? p = cache.get? q := by
  have hsame : ∀ r : Path, r.same p = r.same q := by
    intro r
    simp only [same, same_iff.mp h]
  simp only [get?, hsame]

theorem get?_append_singleton (cache : RuleCache) (dir p : Path) (rules : List Rule) :
    RuleCache.get? (cache ++ [(dir, rules)]) p =
      (cache.get? p).or (if dir.same p then some rules else none) := by
  simp only [get?, List.find?_append, List.find?_singleton]
  cases cache.find? fun e => e.1.same p with
  | some e => simp
  | none => by_cases h : dir.same p = true <;> simp [h]

/-- Is what the cache knows what `rules` gives? -/
def Right (rules : Path → List Rule) (cache : RuleCache) : Prop :=
  ∀ p found, cache.get? p = some found → found = rules p

/-- The cache knows what was known at the start, and beyond this only rules as `rules` gives
    them. -/
structure Grown (start : RuleCache) (rules : Path → List Rule) (cache : RuleCache) : Prop where
  right : Right rules cache
  kept : ∀ p, cache.get? p = none → start.get? p = none

variable {start cache : RuleCache} {rules : Path → List Rule}

/-- Learning the right rules of one more directory. -/
theorem Right.learn (hsame : ∀ p q : Path, p.same q = true → rules p = rules q)
    (h : Right rules cache) (dir : Path) : Right rules (cache ++ [(dir, rules dir)]) := by
  intro p found hp
  rw [get?_append_singleton] at hp
  cases hold : cache.get? p with
  | some old =>
    rw [hold, Option.some_or] at hp
    rw [← Option.some.inj hp]
    exact h p old hold
  | none =>
    rw [hold, Option.none_or] at hp
    split at hp
    · rename_i hdir
      cases hp
      exact hsame dir p hdir
    · simp at hp

theorem Grown.learn (hsame : ∀ p q : Path, p.same q = true → rules p = rules q)
    (h : Grown start rules cache) (dir : Path) :
    Grown start rules (cache ++ [(dir, rules dir)]) := by
  refine ⟨h.right.learn hsame dir, fun p hp => ?_⟩
  rw [get?_append_singleton, Option.or_eq_none_iff] at hp
  exact h.kept p hp.1

/-- A directory that was learned is known. -/
theorem get?_learned (cache : RuleCache) {dir p : Path} (h : dir.same p = true)
    (found : List Rule) : (RuleCache.get? (cache ++ [(dir, found)]) p).isSome = true := by
  rw [get?_append_singleton, if_pos h]
  cases cache.get? p <;> rfl

end RuleCache

namespace Matcher

open RuleCache (Grown)

variable {m : Matcher} {disk : Disk} {start cache : RuleCache}

/-! ### One directory -/

theorem rulesAlong_of_known {dir : Path} {found : List Rule} (h : cache.get? dir = some found) :
    (m.rulesAlong disk dir.ancestors).run cache = (found, cache) := by
  rw [ancestors_eq]
  simp only [rulesAlong, StateT.run_bind, StateT.run_get, pure_bind, h]
  rfl

/-- The rules that a directory takes over, and what the matcher knows once it was asked for them. -/
def askAbove (m : Matcher) (disk : Disk) (dir : Path) (cache : RuleCache) :
    List Rule × RuleCache :=
  match dir.parent? with
  | some up => if m.inherits dir then (m.rulesAlong disk up.ancestors).run cache else ([], cache)
  | none => ([], cache)

theorem rulesAlong_of_unknown {dir : Path} (h : cache.get? dir = none) :
    (m.rulesAlong disk dir.ancestors).run cache =
      ((m.askAbove disk dir cache).1 ++ m.localRules disk dir,
        (m.askAbove disk dir cache).2 ++
          [(dir, (m.askAbove disk dir cache).1 ++ m.localRules disk dir)]) := by
  rw [ancestors_eq, askAbove]
  simp only [rulesAlong, StateT.run_bind, StateT.run_get, pure_bind, h]
  cases dir.parent? with
  | none =>
    simp only [List.isEmpty_nil, Bool.not_true, Bool.and_false, Bool.false_eq_true, if_false]
    rfl
  | some up =>
    have hne : up.ancestors.isEmpty = false := by
      rw [ancestors_eq]
      rfl
    simp only [hne, Bool.not_false, Bool.and_true]
    split <;> rfl

/-! ### The rules below the project root -/

/-- The rules in force so many steps below the project root, the last step first: those known at the
    start, else those of the ignore file after those in force one step further up. -/
def rulesBelow (m : Matcher) (disk : Disk) (start : RuleCache) : List Component → List Rule
  | [] => (start.get? m.projectRoot).getD (m.localRules disk m.projectRoot)
  | c :: up =>
    let dir := m.projectRoot.down (c :: up).reverse
    (start.get? dir).getD
      ((if c = .root then [] else rulesBelow m disk start up) ++ m.localRules disk dir)

/-- The rules in force in a directory at or below the project root; of others only what is known at
    the start counts. -/
def rulesIn (m : Matcher) (disk : Disk) (start : RuleCache) (dir : Path) : List Rule :=
  match below? m.projectRoot dir with
  | some cs => m.rulesBelow disk start cs.reverse
  | none => (start.get? dir).getD []

theorem rulesIn_eq_of_same (m : Matcher) (disk : Disk) (start : RuleCache) {p q : Path}
    (h : p.same q = true) : m.rulesIn disk start p = m.rulesIn disk start q := by
  rw [rulesIn, rulesIn, start.get?_eq_of_same h, below?, below?, same_iff.mp h]

theorem below?_down {root : Path} {cs : List Component} (h : Spelled (root.components ++ cs)) :
    below? root (root.down cs) = some cs := by
  rw [below?_eq_some, components_down h]

theorem rulesIn_down {cs : List Component} (h : Spelled (m.projectRoot.components ++ cs)) :
    m.rulesIn disk start (m.projectRoot.down cs) = m.rulesBelow disk start cs.reverse := by
  rw [rulesIn, below?_down h]

/-- What is known at the start is in force. -/
theorem rulesIn_of_known {dir : Path} {found : List Rule} (h : start.get? dir = some found) :
    m.rulesIn disk start dir = found := by
  rw [rulesIn]
  cases hbelow : below? m.projectRoot dir with
  | none => simp [h]
  | some cs =>
    have hcs : dir.components = m.projectRoot.components ++ cs := below?_eq_some.mp hbelow
    have hspelled : Spelled (m.projectRoot.components ++ cs) := hcs ▸ spelled_components dir
    have hsame : dir.same (m.projectRoot.down cs) = true := by
      rw [same_iff, components_down hspelled, hcs]
    rw [start.get?_eq_of_same hsame] at h
    have hrev : cs = cs.reverse.reverse := (List.reverse_reverse cs).symm
    generalize cs.reverse = up at hrev
    subst hrev
    simp only [List.reverse_reverse]
    cases up with
    | nil =>
      have h : start.get? m.projectRoot = some found := h
      simp [rulesBelow, h]
    | cons c up => simp only [rulesBelow, h, Option.getD_some]

/-- Are the rules in force at and below the project root, whatever they say of other directories and
    however these are spelled? -/
structure InForce (m : Matcher) (disk : Disk) (start : RuleCache) (rules : Path → List Rule) :
    Prop where
  same : ∀ p q : Path, p.same q = true → rules p = rules q
  below : ∀ dir, dir.startsWith m.projectRoot = true → rules dir = m.rulesIn disk start dir

theorem inForce_rulesIn (m : Matcher) (disk : Disk) (start : RuleCache) :
    m.InForce disk start (m.rulesIn disk start) :=
  ⟨fun _ _ => rulesIn_eq_of_same m disk start, fun _ _ => rfl⟩

theorem InForce.down {rules : Path → List Rule} (hrules : m.InForce disk start rules)
    {cs : List Component} (h : Spelled (m.projectRoot.components ++ cs)) :
    rules (m.projectRoot.down cs) = m.rulesIn disk start (m.projectRoot.down cs) :=
  hrules.below _ (startsWith_iff.mpr ⟨cs, components_down h⟩)

theorem inherits_root : m.inherits m.projectRoot = false := by
  simp [inherits]

theorem inherits_down {cs : List Component} (hne : cs ≠ [])
    (h : Spelled (m.projectRoot.components ++ cs)) : m.inherits (m.projectRoot.down cs) = true := by
  have hsame : (m.projectRoot.down cs).same m.projectRoot = false := by
    rw [← Bool.not_eq_true, same_iff, components_down h]
    simpa using hne
  rw [inherits, hsame, startsWith_iff.mpr ⟨cs, components_down h⟩]
  rfl

theorem rulesIn_root (hstart : start.get? m.projectRoot = none) :
    m.rulesIn disk start m.projectRoot = m.localRules disk m.projectRoot := by
  have h : Spelled (m.projectRoot.components ++ []) := by
    rw [List.append_nil]
    exact spelled_components m.projectRoot
  have hdown : m.rulesIn disk start m.projectRoot = m.rulesBelow disk start [] :=
    (rulesIn_down h : m.rulesIn disk start (m.projectRoot.down []) = _)
  rw [hdown, rulesBelow, hstart]
  rfl

theorem askAbove_root : m.askAbove disk m.projectRoot cache = ([], cache) := by
  rw [askAbove, inherits_root]
  cases m.projectRoot.parent? <;> rfl

section

variable {init : List Component} {c : Component}
  (h : Spelled (m.projectRoot.components ++ (init ++ [c])))

include h

/-- A directory has the rules of the one above it and its own. -/
theorem rulesIn_down_concat (hstart : start.get? (m.projectRoot.down (init ++ [c])) = none) :
    m.rulesIn disk start (m.projectRoot.down (init ++ [c])) =
      (if c = .root then [] else m.rulesIn disk start (m.projectRoot.down init)) ++
        m.localRules disk (m.projectRoot.down (init ++ [c])) := by
  have hinit : Spelled (m.projectRoot.components ++ init) := h.of_append_append
  rw [rulesIn_down hinit, rulesIn_down h, List.reverse_append, List.reverse_singleton,
    List.singleton_append, rulesBelow, List.reverse_cons, List.reverse_reverse, hstart]
  rfl

/-- What a directory inherits is known if the rules of the one above it are. -/
theorem askAbove_down {rules : Path → List Rule} (hrules : m.InForce disk start rules)
    (hcache : Grown start rules cache)
    (hknown : (cache.get? (m.projectRoot.down init)).isSome = true) :
    m.askAbove disk (m.projectRoot.down (init ++ [c])) cache =
      (if c = .root then [] else m.rulesIn disk start (m.projectRoot.down init), cache) := by
  have hcomponents : (m.projectRoot.down (init ++ [c])).components =
      (m.projectRoot.components ++ init) ++ [c] := by
    rw [components_down h, List.append_assoc]
  rw [askAbove]
  by_cases hc : c = .root
  · subst hc
    rw [parent?_of_components_root hcomponents, if_pos rfl]
  · obtain ⟨q, hparent, hcq⟩ := exists_parent? hcomponents hc
    have hq : q.same (m.projectRoot.down init) = true :=
      same_iff.mpr (hcq.trans (components_down h.of_append_append).symm)
    rw [← cache.get?_eq_of_same hq] at hknown
    obtain ⟨found, hfound⟩ := Option.isSome_iff_exists.mp hknown
    rw [hparent, if_neg hc]
    simp only [inherits_down (by simp) h, if_true]
    rw [rulesAlong_of_known hfound, hcache.right q found hfound, hrules.same _ _ hq,
      hrules.down h.of_append_append]

end

section

variable {rules : Path → List Rule} (hrules : m.InForce disk start rules)

include hrules

/-- Asking for the rules of a directory whose parent was asked for already. -/
theorem rulesAlong_down {cs : List Component} (h : Spelled (m.projectRoot.components ++ cs))
    (hcache : Grown start rules cache)
    (habove : cs ≠ [] → (cache.get? (m.projectRoot.down cs.dropLast)).isSome = true) :
    ∃ cache', (m.rulesAlong disk (m.projectRoot.down cs).ancestors).run cache =
        (m.rulesIn disk start (m.projectRoot.down cs), cache') ∧
      Grown start rules cache' ∧
      (cache'.get? (m.projectRoot.down cs)).isSome = true := by
  cases hknown : cache.get? (m.projectRoot.down cs) with
  | some found =>
    refine ⟨cache, ?_, hcache, by simp [hknown]⟩
    rw [rulesAlong_of_known hknown, hcache.right _ found hknown, hrules.down h]
  | none =>
    -- whatever is inherited, the rules are those of `rulesBelow`, and the cache learns them
    have hask : ∃ inherited, m.askAbove disk (m.projectRoot.down cs) cache = (inherited, cache) ∧
        m.rulesIn disk start (m.projectRoot.down cs) =
          inherited ++ m.localRules disk (m.projectRoot.down cs) := by
      have hstart := hcache.kept _ hknown
      rcases List.eq_nil_or_concat cs with rfl | ⟨init, c, rfl⟩
      · exact ⟨[], askAbove_root, rulesIn_root hstart⟩
      · rw [List.concat_eq_append] at h habove hstart ⊢
        have hup := habove (by simp)
        rw [List.dropLast_concat] at hup
        exact ⟨_, askAbove_down h hrules hcache hup, rulesIn_down_concat h hstart⟩
    obtain ⟨inherited, hask, heq⟩ := hask
    refine ⟨cache ++ [(m.projectRoot.down cs, rules (m.projectRoot.down cs))], ?_,
      hcache.learn hrules.same _, cache.get?_learned (same_refl _) _⟩
    rw [rulesAlong_of_unknown hknown, hask, hrules.down h, heq]

end

/-! ### Paths -/

/-- The rules that count for the entries of a directory. -/
def rulesUsed (m : Matcher) (disk : Disk) (start : RuleCache) (dir : Path) : List Rule :=
  if m.useIgnoreFiles then m.rulesIn disk start dir else []

/-- Is one of the paths that lead from `parent` down through the components left out? -/
def leavesOutBelow (m : Matcher) (disk : Disk) (start : RuleCache) : Path → List Component → Bool
  | _, [] => false
  | parent, c :: cs =>
    let current := parent.child c.text
    m.covers current (!cs.isEmpty || disk.isDir current) (m.rulesUsed disk start parent) ||
      leavesOutBelow m disk start current cs

/-- Is the path left out, by what is known at the start and the ignore files? -/
def leavesOut (m : Matcher) (disk : Disk) (start : RuleCache) (p : Path) : Bool :=
  match below? m.projectRoot p with
  | some cs => m.leavesOutBelow disk start m.projectRoot cs
  | none => m.covers p (disk.isDir p) []

theorem rulesFor_down {rules : Path → List Rule} (hrules : m.InForce disk start rules)
    {cs : List Component} (h : Spelled (m.projectRoot.components ++ cs))
    (hcache : Grown start rules cache)
    (habove : m.useIgnoreFiles = true → cs ≠ [] →
      (cache.get? (m.projectRoot.down cs.dropLast)).isSome = true) :
    ∃ cache', (m.rulesFor disk (m.projectRoot.down cs)).run cache =
        (m.rulesUsed disk start (m.projectRoot.down cs), cache') ∧
      Grown start rules cache' ∧
      (m.useIgnoreFiles = true → (cache'.get? (m.projectRoot.down cs)).isSome = true) := by
  unfold rulesFor rulesUsed
  split
  · rename_i huse
    obtain ⟨cache', hrun, hgrown, hknown⟩ := rulesAlong_down hrules h hcache (habove huse)
    exact ⟨cache', hrun, hgrown, fun _ => hknown⟩
  · rename_i huse
    exact ⟨cache, rfl, hcache, fun h => absurd h huse⟩

theorem coversBelow_cons {parent : Path} {c : Component} {cs : List Component} {rules : List Rule}
    {cache' : RuleCache} (h : (m.rulesFor disk parent).run cache = (rules, cache')) :
    (m.coversBelow disk parent (c :: cs)).run cache =
      if m.covers (parent.child c.text) (!cs.isEmpty || disk.isDir (parent.child c.text)) rules then
        (true, cache')
      else (m.coversBelow disk (parent.child c.text) cs).run cache' := by
  rw [coversBelow, StateT.run_bind, h]
  simp only [bind]
  split <;> rfl

section

variable {rules : Path → List Rule} (hrules : m.InForce disk start rules)

include hrules

theorem coversBelow_run (before : List Component) {cs : List Component}
    (h : Spelled (m.projectRoot.components ++ (before ++ cs)))
    (hcache : Grown start rules cache)
    (habove : m.useIgnoreFiles = true → before ≠ [] →
      (cache.get? (m.projectRoot.down before.dropLast)).isSome = true) :
    ∃ cache', (m.coversBelow disk (m.projectRoot.down before) cs).run cache =
        (m.leavesOutBelow disk start (m.projectRoot.down before) cs, cache') ∧
      Grown start rules cache' := by
  induction cs generalizing before cache with
  | nil => exact ⟨cache, rfl, hcache⟩
  | cons c cs ih =>
    have hbefore : Spelled (m.projectRoot.components ++ before) := h.of_append_append
    obtain ⟨cache', hrun, hgrown, hknown⟩ := rulesFor_down hrules hbefore hcache habove
    have hnext : before ++ c :: cs = (before ++ [c]) ++ cs := by simp
    rw [hnext] at h
    simp only [coversBelow_cons hrun, leavesOutBelow, ← down_append_singleton]
    cases m.covers (m.projectRoot.down (before ++ [c]))
        (!cs.isEmpty || disk.isDir (m.projectRoot.down (before ++ [c])))
        (m.rulesUsed disk start (m.projectRoot.down before)) with
    | true => exact ⟨cache', rfl, hgrown⟩
    | false =>
      exact ih _ h hgrown fun huse _ => by
        rw [List.dropLast_concat]
        exact hknown huse

/-- What a matcher answers about a path rests on the rules in force below the project root, and it
    learns no other ones. -/
theorem isIgnored_inForce (hcache : Grown start rules cache) (p : Path) :
    ∃ cache', (m.isIgnored disk p).run cache = (m.leavesOut disk start p, cache') ∧
      Grown start rules cache' := by
  unfold isIgnored leavesOut
  cases hbelow : below? m.projectRoot p with
  | none => exact ⟨cache, rfl, hcache⟩
  | some cs =>
    have hspelled : Spelled (m.projectRoot.components ++ ([] ++ cs)) := by
      rw [List.nil_append, ← below?_eq_some.mp hbelow]
      exact spelled_components p
    exact coversBelow_run hrules [] hspelled hcache fun _ h => absurd rfl h

end

/-- **The rule cache does not show.**  Whatever was asked since the start, the answer about a path
    is the one that the matcher would have given at the start. -/
theorem isIgnored_run (hcache : Grown start (m.rulesIn disk start) cache) (p : Path) :
    ∃ cache', (m.isIgnored disk p).run cache = (m.leavesOut disk start p, cache') ∧
      Grown start (m.rulesIn disk start) cache' :=
  isIgnored_inForce (m.inForce_rulesIn disk start) hcache p

theorem grown_start (m : Matcher) (disk : Disk) (start : RuleCache) :
    Grown start (m.rulesIn disk start) start :=
  ⟨fun _ _ h => (rulesIn_of_known h).symm, fun _ h => h⟩

/-- What the matcher answers at the start. -/
theorem isIgnored_start (m : Matcher) (disk : Disk) (start : RuleCache) (p : Path) :
    ((m.isIgnored disk p).run start).1 = m.leavesOut disk start p := by
  obtain ⟨cache', hrun, -⟩ := isIgnored_run (grown_start m disk start) p
  rw [hrun]

end Matcher

end SourceWeb.Ignore
