/-
  What one step of a run does.

  A reference has an answer, which does not depend on how far the run has come; what is done about
  the answer depends on the paths that were reached before, and on nothing else.
-/
import SourceWeb.Discovery.Run
import SourceWeb.Proofs.Alias.Cache
import SourceWeb.Proofs.Discovery.Identity
import SourceWeb.Proofs.Ignore.Cache
import SourceWeb.Proofs.Language.Registry

namespace SourceWeb.Discovery

open SourceWeb.Ignore (RuleCache Matcher)
open SourceWeb.Ignore.RuleCache (Grown)

/-! ### Events -/

namespace Event

def isScanned : Event → Bool
  | .scanned .. => true
  | _ => false

def opened? : Event → Option Path
  | .scanned path .. => some path
  | .readFailed path _ => some path
  | _ => none

def reached? : Event → Option Path
  | .resolved _ _ target _ => some target
  | _ => none

end Event

/-! ### Answers -/

/-- What a reference leads to. -/
inductive Answer
  /-- Nowhere. -/
  | nowhere
  /-- A path that is left out. -/
  | leftOut (target : Path)
  /-- Something that is no regular file. -/
  | noFile (target : Path)
  /-- A file, and what found it. -/
  | file (target : Path) (via : String)
  deriving DecidableEq

namespace Setting

variable {s : Setting}

/-- What a reference leads to, for a matcher that knows some rules already. -/
def answer (s : Setting) (rules : RuleCache) (site : Site) (r : Reference) : Answer :=
  match s.resolve site r with
  | none => .nowhere
  | some (found, via) =>
    let target := s.identity found
    if ((s.matcher.isIgnored s.disk target).run rules).1 then .leftOut target
    else if s.disk.isFile target then .file target via
    else .noFile target

/-- What the matcher knows once a reference was followed. -/
def rulesAfter (s : Setting) (rules : RuleCache) (site : Site) (r : Reference) : RuleCache :=
  match s.resolve site r with
  | none => rules
  | some (found, _) => ((s.matcher.isIgnored s.disk (s.identity found)).run rules).2

/-- Where the references of a file are looked up from. -/
def siteOf (s : Setting) (file : Path) : Site :=
  let aliases := Alias.load s.disk s.root file
  ⟨s.root, aliases, aliases.map AliasMap.targetBase, file⟩

/-- The references of a file, if it belongs to a language and can be read. -/
def referencesOf (s : Setting) (file : Path) : List Reference :=
  match s.registry.languageOf? file, s.disk.read file with
  | some l, .ok bytes => l.scan file (Text.decodeLossy bytes)
  | _, _ => []

/-- The references of a file and what they lead to. -/
def answersOf (s : Setting) (rules : RuleCache) (file : Path) : List (Reference × Answer) :=
  (s.referencesOf file).map fun r => (r, s.answer rules (s.siteOf file) r)

/-- What is reported of a file before its references are followed. -/
def opening (s : Setting) (file : Path) : Option Event :=
  (s.registry.languageOf? file).map fun l =>
    match s.disk.read file with
    | .ok _ => .scanned file l.name (s.referencesOf file).length
    | .error e => .readFailed file e.message

/-- A file that an answer names is a file, and known under its identity. -/
def Sound (s : Setting) (a : Answer) : Prop :=
  ∀ target via, a = .file target via → s.disk.isFile target = true ∧ ∃ p, target = s.identity p

theorem sound_answer (s : Setting) (rules : RuleCache) (site : Site) (r : Reference) :
    s.Sound (s.answer rules site r) := by
  intro target via h
  unfold answer at h
  split at h
  · simp at h
  · rename_i found via' _
    dsimp only at h
    split at h
    · simp at h
    · split at h
      · rename_i hfile
        cases h
        exact ⟨hfile, found, rfl⟩
      · simp at h

/-- What the matcher learned since `start` does not change an answer. -/
theorem answer_eq {start cache : RuleCache}
    (h : Grown start (s.matcher.rulesIn s.disk start) cache) (site : Site) (r : Reference) :
    s.answer cache site r = s.answer start site r ∧
      Grown start (s.matcher.rulesIn s.disk start) (s.rulesAfter cache site r) := by
  unfold answer rulesAfter
  cases s.resolve site r with
  | none => exact ⟨rfl, h⟩
  | some found =>
    obtain ⟨p, via⟩ := found
    obtain ⟨cache', hrun, hgrown⟩ := Matcher.isIgnored_run h (s.identity p)
    simp only [hrun, Matcher.isIgnored_start]
    exact ⟨trivial, hgrown⟩

end Setting

namespace State

/-- What a run does about the answer to a reference of the file `source`. -/
def take (source : Path) (st : State) (r : Reference) : Answer → State
  | .nowhere => st.log (.unresolved source r.display)
  | .leftOut target => st.log (.excluded source target)
  | .noFile target =>
    if target.isIn st.visited then st else st.log (.notAFile source target)
  | .file target via =>
    if target.isIn st.visited then st
    else
      { st with
        queue := st.queue ++ [target]
        visited := st.visited ++ [target]
        files := addPath st.files target
        events := st.events ++ [.resolved source r.display target via] }

variable {s : Setting}

/-- Following a reference is doing what its answer asks for. -/
theorem follow_eq (s : Setting) (site : Site) (st : State) (r : Reference) :
    follow s site st r =
      { take site.file st r (s.answer st.rules site r) with
        rules := s.rulesAfter st.rules site r } := by
  unfold follow Setting.answer Setting.rulesAfter
  cases s.resolve site r with
  | none => rfl
  | some found =>
    obtain ⟨p, via⟩ := found
    dsimp only
    generalize (s.matcher.isIgnored s.disk (s.identity p)).run st.rules = asked
    obtain ⟨ignored, rules⟩ := asked
    cases ignored with
    | true => rfl
    | false =>
      by_cases hvisited : (s.identity p).isIn st.visited = true <;>
        cases s.disk.isFile (s.identity p) <;> simp [take, hvisited, log]

/-! ### All answers of a file -/

end State

namespace Answer

/-- The target to be reached by an answer, if it was not reached before. -/
def fresh? (visited : List Path) : Answer → Option Path
  | .file target _ => if target.isIn visited then none else some target
  | _ => none

/-- What is reported of the answer to a reference. -/
def event? (source : Path) (visited : List Path) (r : Reference) : Answer → Option Event
  | .nowhere => some (.unresolved source r.display)
  | .leftOut target => some (.excluded source target)
  | .noFile target => if target.isIn visited then none else some (.notAFile source target)
  | .file target via =>
    if target.isIn visited then none else some (.resolved source r.display target via)

/-- The targets to be reached by the answers, one after the other. -/
def freshTargets : List Path → List (Reference × Answer) → List Path
  | _, [] => []
  | visited, (_, a) :: rest =>
    let fresh := (a.fresh? visited).toList
    fresh ++ freshTargets (visited ++ fresh) rest

/-- What is reported of the answers, one after the other. -/
def events (source : Path) : List Path → List (Reference × Answer) → List Event
  | _, [] => []
  | visited, (r, a) :: rest =>
    (a.event? source visited r).toList ++
      events source (visited ++ (a.fresh? visited).toList) rest

end Answer

namespace State

variable {s : Setting}

theorem take_eq (source : Path) (st : State) (r : Reference) (a : Answer) :
    take source st r a =
      { st with
        queue := st.queue ++ (a.fresh? st.visited).toList
        visited := st.visited ++ (a.fresh? st.visited).toList
        files := (a.fresh? st.visited).toList.foldl addPath st.files
        events := st.events ++ (a.event? source st.visited r).toList } := by
  cases a with
  | nowhere => simp [take, Answer.fresh?, Answer.event?, log]
  | leftOut target => simp [take, Answer.fresh?, Answer.event?, log]
  | noFile target =>
    by_cases h : target.isIn st.visited <;> simp [take, Answer.fresh?, Answer.event?, log, h]
  | file target via =>
    by_cases h : target.isIn st.visited <;> simp [take, Answer.fresh?, Answer.event?, h]

/-- Following references reaches the fresh targets of their answers.  If the matcher learned nothing
    wrong before, the answers are those at the start. -/
theorem foldl_follow (s : Setting) (site : Site) (references : List Reference) (st : State) :
    ∃ answers rules, references.foldl (follow s site) st =
        { st with
          queue := st.queue ++ Answer.freshTargets st.visited answers
          visited := st.visited ++ Answer.freshTargets st.visited answers
          files := (Answer.freshTargets st.visited answers).foldl addPath st.files
          events := st.events ++ Answer.events site.file st.visited answers
          rules := rules } ∧
      (∀ a ∈ answers, s.Sound a.2) ∧
      ∀ start, Grown start (s.matcher.rulesIn s.disk start) st.rules →
        answers = references.map (fun r => (r, s.answer start site r)) ∧
          Grown start (s.matcher.rulesIn s.disk start) rules := by
  induction references generalizing st with
  | nil => exact ⟨[], st.rules, by simp [Answer.freshTargets, Answer.events], by simp, by simp⟩
  | cons r references ih =>
    obtain ⟨answers, rules, heq, hsound, hgrown⟩ := ih (follow s site st r)
    refine ⟨(r, s.answer st.rules site r) :: answers, rules, ?_, ?_, ?_⟩
    · rw [List.foldl_cons, heq, follow_eq, take_eq]
      simp [Answer.freshTargets, Answer.events]
    · intro a ha
      rcases List.mem_cons.mp ha with rfl | ha
      · exact s.sound_answer _ _ _
      · exact hsound a ha
    · intro start hstart
      obtain ⟨hanswer, hafter⟩ := s.answer_eq hstart site r
      obtain ⟨hrest, hrules⟩ := hgrown start (by rw [follow_eq]; exact hafter)
      exact ⟨by rw [hanswer, hrest, List.map_cons], hrules⟩

/-! ### One step -/

/-- The aliases and rules that a run remembers are right, by what the matcher knew at the start. -/
structure Trusted (s : Setting) (start : RuleCache) (st : State) : Prop where
  aliases : Alias.Loaded s.disk s.root st.aliases
  rules : Grown start (s.matcher.rulesIn s.disk start) st.rules

section

variable {st : State} {file : Path} {queue : List Path} (hqueue : st.queue = file :: queue)

include hqueue

/-- A file without a language is only taken from the queue. -/
theorem step_of_unrecognized (hlanguage : s.registry.languageOf? file = none) :
    step s st = { st with queue := queue } := by
  rw [step, hqueue]
  simp only [hlanguage]

theorem step_of_unread {l : Language} (hlanguage : s.registry.languageOf? file = some l)
    {e : OsError} (hread : s.disk.read file = .error e) :
    step s st =
      { st with queue := queue, events := st.events ++ [.readFailed file e.message] } := by
  rw [step, hqueue]
  simp only [hlanguage, visit, hread]
  rfl

/-- The references of a file that can be read are followed, under the aliases for it. -/
theorem step_of_read {l : Language} (hlanguage : s.registry.languageOf? file = some l)
    {bytes : ByteArray} (hread : s.disk.read file = .ok bytes) {found : Option AliasMap}
    {aliases : Alias.Cache} (hasked : (Alias.forFile s.disk s.root file).run st.aliases =
      (found, aliases)) :
    step s st = (s.referencesOf file).foldl
      (follow s ⟨s.root, found, found.map AliasMap.targetBase, file⟩)
      { st with
        queue := queue
        scanCount := st.scanCount + 1
        aliases := aliases
        events := st.events ++ [.scanned file l.name (s.referencesOf file).length] } := by
  have hreferences : s.referencesOf file = l.scan file (Text.decodeLossy bytes) := by
    unfold Setting.referencesOf
    rw [hlanguage, hread]
  rw [step, hqueue, hreferences]
  simp only [hlanguage, visit, hread, hasked]

/-- **One step.**  The first file of the queue is opened, and the fresh targets of the answers to
    its references are reached.  If the caches are right, so are the answers. -/
theorem step_eq :
    ∃ answers aliases rules,
      step s st =
        { queue := queue ++ Answer.freshTargets st.visited answers
          visited := st.visited ++ Answer.freshTargets st.visited answers
          files := (Answer.freshTargets st.visited answers).foldl addPath st.files
          events := st.events ++ (s.opening file).toList ++ Answer.events file st.visited answers
          scanCount := st.scanCount + (s.opening file).toList.countP Event.isScanned
          aliases := aliases
          rules := rules } ∧
      (∀ a ∈ answers, s.Sound a.2) ∧
      ∀ start, Trusted s start st → file.Tidy →
        answers = s.answersOf start file ∧ Trusted s start (step s st) := by
  cases hlanguage : s.registry.languageOf? file with
  | none =>
    have hstep := step_of_unrecognized hqueue hlanguage
    refine ⟨[], st.aliases, st.rules, ?_, by simp, fun start htrusted _ => ⟨?_, ?_⟩⟩
    · simp [hstep, Setting.opening, hlanguage, Answer.freshTargets, Answer.events]
    · simp [Setting.answersOf, Setting.referencesOf, hlanguage]
    · rw [hstep]
      exact ⟨htrusted.aliases, htrusted.rules⟩
  | some l =>
    cases hread : s.disk.read file with
    | error e =>
      have hstep := step_of_unread hqueue hlanguage hread
      refine ⟨[], st.aliases, st.rules, ?_, by simp, fun start htrusted _ => ⟨?_, ?_⟩⟩
      · simp [hstep, Setting.opening, hlanguage, hread, Answer.freshTargets, Answer.events,
          Event.isScanned]
      · simp [Setting.answersOf, Setting.referencesOf, hlanguage, hread]
      · rw [hstep]
        exact ⟨htrusted.aliases, htrusted.rules⟩
    | ok bytes =>
      obtain ⟨⟨found, aliases⟩, hasked⟩ :
          ∃ asked, (Alias.forFile s.disk s.root file).run st.aliases = asked := ⟨_, rfl⟩
      obtain ⟨answers, rules, heq, hsound, hgrown⟩ := foldl_follow s
        ⟨s.root, found, found.map AliasMap.targetBase, file⟩ (s.referencesOf file)
          { st with
            queue := queue
            scanCount := st.scanCount + 1
            aliases := aliases
            events := st.events ++ [.scanned file l.name (s.referencesOf file).length] }
      rw [step_of_read hqueue hlanguage hread hasked, heq]
      refine ⟨answers, aliases, rules, ?_, hsound, fun start htrusted hfile => ?_⟩
      · simp [Setting.opening, hlanguage, hread, Event.isScanned]
      · -- what the cache gave for the file is what would be loaded for it
        obtain ⟨aliases', hload, hloaded⟩ :=
          Alias.forFile_run htrusted.aliases hfile (Disk.isFile_of_read hread)
        rw [hasked] at hload
        cases hload
        obtain ⟨hanswers, hrules⟩ := hgrown start htrusted.rules
        exact ⟨hanswers, hloaded, hrules⟩

end

end State

end SourceWeb.Discovery
