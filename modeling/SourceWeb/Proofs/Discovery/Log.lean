/-
  What the log of a run tells.

  A step writes down the file that it opens and then, one after the other, what came of the
  references of this file; nothing else is written once the run has started.  A reference that is
  passed over in silence led to a path that was reached before, and which paths these are can be
  read off the log itself: the recognised files of the start, and the targets that are logged.

  A recognised file enters the queue once.  A file of no language may enter it a second time, if the
  run started from it and a reference leads to it, since it never counts as visited at the start.
-/
import Mathlib.Data.List.ReduceOption
import SourceWeb.Proofs.Discovery.Closure

namespace SourceWeb.Discovery

open SourceWeb.Path
open SourceWeb.Ignore (RuleCache Matcher)
open SourceWeb.Ignore.RuleCache (Grown)

/-! ### Kinds of events -/

namespace Event

def seeded? : Event → Option Path
  | .seeded path _ => some path
  | _ => none

def scanned? : Event → Option Path
  | .scanned path .. => some path
  | _ => none

/-- The file whose reference the event tells of. -/
def source? : Event → Option Path
  | .resolved source .. => some source
  | .unresolved source _ => some source
  | .excluded source _ => some source
  | .notAFile source _ => some source
  | _ => none

/-- Does the event begin what is told of a file? -/
def isOpening (e : Event) : Bool :=
  e.opened?.isSome

end Event

theorem Setting.isOpening_of_mem_opening {s : Setting} {file : Path} {e : Event}
    (h : e ∈ s.opening file) : e.isOpening = true := by
  obtain ⟨l, -, rfl⟩ := Option.map_eq_some_iff.mp h
  cases s.disk.read file <;> rfl

/-! ### What comes of an answer -/

namespace Answer

/-- The path that a reference leads to, if this is not left out. -/
def target? : Answer → Option Path
  | .noFile target => some target
  | .file target _ => some target
  | _ => none

/-- What comes of the answer to a reference, if its target was not reached before. -/
def outcome (source : Path) (r : Reference) : Answer → Event
  | .nowhere => .unresolved source r.display
  | .leftOut target => .excluded source target
  | .noFile target => .notAFile source target
  | .file target via => .resolved source r.display target via

def leadsInto (known : List Path) (a : Answer) : Bool :=
  a.target?.any fun t => t.isIn known

theorem source?_outcome (source : Path) (r : Reference) (a : Answer) :
    (a.outcome source r).source? = some source := by
  cases a <;> rfl

theorem event?_eq (source : Path) (visited : List Path) (r : Reference) (a : Answer) :
    a.event? source visited r =
      if a.leadsInto visited then none else some (a.outcome source r) := by
  cases a <;> rfl

theorem leadsInto_congr {known known' : List Path} (h : ∀ t : Path, t.isIn known = t.isIn known')
    (a : Answer) : a.leadsInto known = a.leadsInto known' := by
  simp only [leadsInto, h]

/-- What is told of each of the answers, one after the other; nothing of those that lead to a path
    reached before. -/
def told (source : Path) : List Path → List (Reference × Answer) → List (Option Event)
  | _, [] => []
  | visited, (r, a) :: rest =>
    a.event? source visited r :: told source (visited ++ (a.fresh? visited).toList) rest

variable {source : Path} {visited : List Path} {answers : List (Reference × Answer)}

theorem length_told : (told source visited answers).length = answers.length := by
  induction answers generalizing visited with
  | nil => rfl
  | cons ra answers ih => rw [told, List.length_cons, List.length_cons, ih]

theorem events_eq_told :
    events source visited answers = (told source visited answers).reduceOption := by
  induction answers generalizing visited with
  | nil => rfl
  | cons ra answers ih =>
    obtain ⟨r, a⟩ := ra
    rw [events, told, ih]
    cases a.event? source visited r <;> rfl

theorem getElem?_told (i : Nat) :
    (told source visited answers)[i]? = answers[i]?.map fun ra =>
      ra.2.event? source (visited ++
        ((told source visited answers).take i).reduceOption.filterMap Event.reached?) ra.1 := by
  induction answers generalizing visited i with
  | nil => rfl
  | cons ra answers ih =>
    obtain ⟨r, a⟩ := ra
    cases i with
    | zero => simp [told, List.reduceOption_nil]
    | succ i =>
      -- what the first answer adds to the visited paths is the target that its event tells of
      have hsplit : ∀ es : List (Option Event),
          (a.event? source visited r :: es).reduceOption.filterMap Event.reached? =
            (a.fresh? visited).toList ++ es.reduceOption.filterMap Event.reached? := by
        intro es
        rw [← filterMap_reached?_event? source visited r a, ← List.filterMap_append]
        cases a.event? source visited r <;> rfl
      rw [told, List.getElem?_cons_succ, List.getElem?_cons_succ, ih, List.take_succ_cons, hsplit,
        List.append_assoc]

/-- What is told is what comes of one of the answers. -/
theorem exists_outcome_of_mem_events {e : Event} (h : e ∈ events source visited answers) :
    ∃ r a, (r, a) ∈ answers ∧ e = a.outcome source r := by
  induction answers generalizing visited with
  | nil => simp [events] at h
  | cons ra answers ih =>
    obtain ⟨r, a⟩ := ra
    rcases List.mem_append.mp h with h | h
    · rw [event?_eq, Option.mem_toList, Option.ite_none_left_eq_some] at h
      exact ⟨r, a, List.mem_cons_self, (Option.some.inj h.2).symm⟩
    · obtain ⟨r', a', hmem, he⟩ := ih h
      exact ⟨r', a', List.mem_cons_of_mem _ hmem, he⟩

theorem source?_of_mem_events {e : Event} (h : e ∈ events source visited answers) :
    e.source? = some source := by
  obtain ⟨r, a, -, rfl⟩ := exists_outcome_of_mem_events h
  exact source?_outcome source r a

end Answer

theorem Event.isOpening_of_source? {e : Event} {source : Path} (h : e.source? = some source) :
    e.isOpening = false := by
  cases e <;> simp_all [Event.source?, Event.isOpening, Event.opened?]

theorem Event.scanned?_of_source? {e : Event} {source : Path} (h : e.source? = some source) :
    e.scanned? = none := by
  cases e <;> simp_all [Event.source?, Event.scanned?]

/-! ### What accounts for a scan -/

namespace Setting

variable {s : Setting} {rules : RuleCache} {seeds : List Path}

/-- What a run remembers of aliases once it scanned the files. -/
def aliasesAfter (s : Setting) (scanned : List Path) : Alias.Cache :=
  scanned.foldl (fun cache file => ((Alias.forFile s.disk s.root file).run cache).2) []

/-- Where the references of a file are looked up from once the run scanned the files `scanned`. -/
def siteAfter (s : Setting) (scanned : List Path) (file : Path) : Site :=
  let aliases := ((Alias.forFile s.disk s.root file).run (s.aliasesAfter scanned)).1
  ⟨s.root, aliases, aliases.map AliasMap.targetBase, file⟩

theorem aliasesAfter_concat (s : Setting) (scanned : List Path) (file : Path) :
    s.aliasesAfter (scanned ++ [file]) =
      ((Alias.forFile s.disk s.root file).run (s.aliasesAfter scanned)).2 := by
  simp [aliasesAfter]

/-- Tidy files are looked at from the same place, whatever was scanned before. -/
theorem siteAfter_of_tidy {scanned : List Path}
    (hscanned : ∀ p ∈ scanned, p.Tidy ∧ s.disk.isFile p = true) {file : Path} (hfile : file.Tidy)
    (hisFile : s.disk.isFile file = true) : s.siteAfter scanned file = s.siteOf file := by
  have hloaded : Alias.Loaded s.disk s.root (s.aliasesAfter scanned) := by
    induction scanned using List.reverseRecOn with
    | nil => simp [aliasesAfter, Alias.Loaded]
    | append_singleton scanned p ih =>
      have hbefore := ih fun q hq => hscanned q (List.mem_append_left _ hq)
      obtain ⟨htidy, hp⟩ := hscanned p (by simp)
      obtain ⟨cache, hrun, hcache⟩ := Alias.forFile_run hbefore htidy hp
      rw [aliasesAfter_concat, hrun]
      exact hcache
  obtain ⟨cache, hrun, -⟩ := Alias.forFile_run hloaded hfile hisFile
  rw [siteAfter, hrun, siteOf]

/-- Do the events tell of the references of a scanned file?  Each reference is told of by what comes
    of it, in order, unless it leads to a recognised file of the start or to a target that was told
    of before. -/
def TellsOf (s : Setting) (rules : RuleCache) (seeds : List Path) (before : List Event)
    (site : Site) (references : List Reference) (span : List Event) : Prop :=
  ∃ told : List (Option Event), told.length = references.length ∧ span = told.reduceOption ∧
    ∀ i r, references[i]? = some r →
      let answer := s.answer rules site r
      let known := seeds.filter s.registry.isRecognized ++
        (before ++ (told.take i).reduceOption).filterMap Event.reached?
      told[i]? = some (if answer.leadsInto known then none else some (answer.outcome site.file r))

/-- Does the log account for the scan of a file, behind what was told before? -/
def Accounts (s : Setting) (rules : RuleCache) (seeds : List Path) (before : List Event)
    (file : Path) (language : String) (n : Nat) (span : List Event) : Prop :=
  ∃ l bytes, s.registry.languageOf? file = some l ∧ s.disk.read file = .ok bytes ∧
    let references := l.scan file (Text.decodeLossy bytes)
    language = l.name ∧ n = references.length ∧ (∀ e ∈ span, e.source? = some file) ∧
      s.TellsOf rules seeds before (s.siteAfter (before.filterMap Event.scanned?) file) references
        span

theorem tellsOf_events {before : List Event} {visited : List Path}
    (hvisited : visited = seeds.filter s.registry.isRecognized ++ before.filterMap Event.reached?)
    (site : Site) (references : List Reference) :
    s.TellsOf rules seeds before site references (Answer.events site.file visited
      (references.map fun r => (r, s.answer rules site r))) := by
  subst hvisited
  refine ⟨_, ?_, Answer.events_eq_told, ?_⟩
  · rw [Answer.length_told, List.length_map]
  · intro i r hr answer known
    rw [Answer.getElem?_told, List.getElem?_map, hr]
    simp only [Option.map_some, Answer.event?_eq, List.append_assoc, ← List.filterMap_append]
    rfl

theorem Accounts.of_isIn {seeds' : List Path}
    (hseeds : ∀ t : Path, t.isIn (seeds.filter s.registry.isRecognized) =
      t.isIn (seeds'.filter s.registry.isRecognized))
    {before span : List Event} {file : Path} {language : String} {n : Nat}
    (h : s.Accounts rules seeds before file language n span) :
    s.Accounts rules seeds' before file language n span := by
  obtain ⟨l, bytes, hl, hbytes, hname, hn, hsource, told, hlength, hspan, htold⟩ := h
  refine ⟨l, bytes, hl, hbytes, hname, hn, hsource, told, hlength, hspan, ?_⟩
  intro i r hr answer known
  rw [htold i r hr, Answer.leadsInto_congr]
  intro t
  rw [isIn_append, isIn_append, hseeds]

end Setting

/-! ### Runs -/

/-- What is told of a file does not reach into what is told of the next one. -/
theorem takeWhile_append_opening {after block : List Event}
    (hblock : ∀ e ∈ block.head?, e.isOpening = true) :
    (after ++ block).takeWhile (fun e => !e.isOpening) =
      after.takeWhile fun e => !e.isOpening := by
  induction after with
  | nil =>
    cases block with
    | nil => rfl
    | cons e block => simp [hblock e rfl]
  | cons e after ih =>
    rw [List.cons_append, List.takeWhile_cons, List.takeWhile_cons, ih]

section

variable {s : Setting} {rules : RuleCache} {seeds done found : List Path} {earlier : List Event}
  {st : State}

/-- Every scan in the log is accounted for. -/
def Setting.AccountsAll (s : Setting) (rules : RuleCache) (seeds : List Path)
    (events : List Event) : Prop :=
  ∀ before file language n after, events = before ++ .scanned file language n :: after →
    s.Accounts rules seeds before file language n (after.takeWhile fun e => !e.isOpening)

/-- What is told of one more file leaves the scans before it accounted for. -/
theorem Setting.AccountsAll.append {events block : List Event} (h : s.AccountsAll rules seeds events)
    (hhead : ∀ e ∈ block.head?, e.isOpening = true) (htail : ∀ e ∈ block.tail, e.isOpening = false)
    (hnew : ∀ file language n span, block = .scanned file language n :: span →
      s.Accounts rules seeds events file language n span) :
    s.AccountsAll rules seeds (events ++ block) := by
  have hlast : ∀ file language n after, block = .scanned file language n :: after →
      s.Accounts rules seeds events file language n (after.takeWhile fun e => !e.isOpening) := by
    intro file language n after hblock
    rw [List.takeWhile_eq_self_iff.mpr]
    · exact hnew file language n after hblock
    · intro e he
      rw [htail e (by rw [hblock]; exact he)]
      rfl
  -- a scan stands in the old events, or first in the block: the rest of a block opens nothing
  intro before file language n after heq
  rcases List.append_eq_append_iff.mp heq with ⟨rest, rfl, hrest⟩ | ⟨rest, rfl, hrest⟩
  · cases rest with
    | nil =>
      rw [List.append_nil]
      exact hlast file language n after hrest
    | cons e rest =>
      have hscan := htail (.scanned file language n) (by rw [hrest]; simp)
      simp [Event.isOpening, Event.opened?] at hscan
  · cases rest with
    | nil =>
      rw [List.append_nil] at hlast
      exact hlast file language n after hrest.symm
    | cons e rest =>
      rw [List.cons_append, List.cons.injEq] at hrest
      obtain ⟨rfl, rfl⟩ := hrest
      rw [takeWhile_append_opening hhead]
      exact h before file language n rest rfl

/-- A run that stands here told of all that it did: what it remembers can be read off the log. -/
structure Logged (s : Setting) (rules : RuleCache) (seeds : List Path) (st : State) : Prop where
  grown : Grown rules (s.matcher.rulesIn s.disk rules) st.rules
  aliases : st.aliases = s.aliasesAfter (st.events.filterMap Event.scanned?)
  visited : st.visited = seeds.filter s.registry.isRecognized ++
    st.events.filterMap Event.reached?
  scans : s.AccountsAll rules seeds st.events

theorem Logged.start (h : Apart seeds) (hearlier : ∀ e ∈ earlier, ∃ p, e = .missingInput p) :
    Logged s rules seeds (State.start s seeds earlier rules) := by
  have hnone : ∀ view : Event → Option Path, (∀ p, view (.missingInput p) = none) →
      earlier.filterMap view = [] := by
    intro view hview
    rw [List.filterMap_eq_nil_iff]
    intro e he
    obtain ⟨p, rfl⟩ := hearlier e he
    exact hview p
  have hscanned := hnone Event.scanned? fun _ => rfl
  have hreached := hnone Event.reached? fun _ => rfl
  rw [State.start_eq h]
  refine ⟨s.matcher.grown_start s.disk rules, ?_, ?_, ?_⟩
  · simp [hscanned, List.filterMap_map, Function.comp_def, Event.scanned?, Setting.aliasesAfter]
  · simp [hreached, List.filterMap_map, Function.comp_def, Event.reached?]
  · intro before file language n after heq
    have hmem : Event.scanned file language n ∈
        earlier ++ seeds.map fun p => .seeded p (s.registry.isRecognized p) := by
      simp only at heq
      rw [heq]
      simp
    rcases List.mem_append.mp hmem with hmem | hmem
    · obtain ⟨p, hp⟩ := hearlier _ hmem
      simp at hp
    · simp at hmem

theorem Logged.step_of_read (h : Logged s rules seeds st) {file : Path} {queue : List Path}
    (hqueue : st.queue = file :: queue) {l : Language}
    (hlanguage : s.registry.languageOf? file = some l) {bytes : ByteArray}
    (hread : s.disk.read file = .ok bytes) :
    ∃ span, (State.step s st).events =
        st.events ++ .scanned file l.name (s.referencesOf file).length :: span ∧
      (State.step s st).visited = st.visited ++ span.filterMap Event.reached? ∧
      (State.step s st).aliases = s.aliasesAfter (st.events.filterMap Event.scanned? ++ [file]) ∧
      Grown rules (s.matcher.rulesIn s.disk rules) (State.step s st).rules ∧
      (∀ e ∈ span, e.source? = some file) ∧
      s.TellsOf rules seeds (st.events)
        (s.siteAfter (st.events.filterMap Event.scanned?) file) (s.referencesOf file) span := by
  obtain ⟨⟨aliases, cache⟩, hasked⟩ :
      ∃ asked, (Alias.forFile s.disk s.root file).run st.aliases = asked := ⟨_, rfl⟩
  have hsite : s.siteAfter (st.events.filterMap Event.scanned?) file =
      ⟨s.root, aliases, aliases.map AliasMap.targetBase, file⟩ := by
    rw [Setting.siteAfter, ← h.aliases, hasked]
  have hcache : cache = s.aliasesAfter (st.events.filterMap Event.scanned? ++ [file]) := by
    rw [Setting.aliasesAfter_concat, ← h.aliases, hasked]
  rw [State.step_of_read hqueue hlanguage hread hasked, ← hsite]
  obtain ⟨answers, known, heq, -, hanswers⟩ := State.foldl_follow s
    (s.siteAfter (st.events.filterMap Event.scanned?) file) (s.referencesOf file)
      { st with
        queue := queue
        scanCount := st.scanCount + 1
        aliases := cache
        events := st.events ++ [.scanned file l.name (s.referencesOf file).length] }
  obtain ⟨rfl, hgrown⟩ := hanswers rules h.grown
  rw [heq]
  refine ⟨_, by simp only [List.append_assoc, List.singleton_append]; rfl, ?_, hcache, hgrown, ?_, ?_⟩
  · rw [Answer.filterMap_reached?_events]
  · exact fun e he => Answer.source?_of_mem_events he
  · exact Setting.tellsOf_events h.visited _ _

/-- **What one step keeps.**  The file that is looked at is told of, and all of its references. -/
theorem Logged.step (h : Logged s rules seeds st) {file : Path} {queue : List Path}
    (hqueue : st.queue = file :: queue) : Logged s rules seeds (State.step s st) := by
  cases hlanguage : s.registry.languageOf? file with
  | none =>
    rw [State.step_of_unrecognized hqueue hlanguage]
    exact ⟨h.grown, h.aliases, h.visited, h.scans⟩
  | some l =>
    cases hread : s.disk.read file with
    | error e =>
      rw [State.step_of_unread hqueue hlanguage hread]
      refine ⟨h.grown, ?_, ?_, ?_⟩
      · simpa [List.filterMap_cons, Event.scanned?] using h.aliases
      · simpa [List.filterMap_cons, Event.reached?] using h.visited
      · refine h.scans.append (by simp [Event.isOpening, Event.opened?]) (by simp) ?_
        intro file' language n span hblock
        simp at hblock
    | ok bytes =>
      obtain ⟨span, hevents, hvisited, haliases, hgrown, hsource, htells⟩ :=
        h.step_of_read hqueue hlanguage hread
      refine ⟨hgrown, ?_, ?_, ?_⟩
      · have hnone : span.filterMap Event.scanned? = [] := by
          rw [List.filterMap_eq_nil_iff]
          exact fun e he => Event.scanned?_of_source? (hsource e he)
        rw [haliases, hevents]
        simp [Event.scanned?, hnone]
      · rw [hvisited, hevents, h.visited]
        simp [List.filterMap_cons, Event.reached?]
      · rw [hevents]
        refine h.scans.append (by simp [Event.isOpening, Event.opened?]) ?_ ?_
        · exact fun e he => Event.isOpening_of_source? (hsource e he)
        · intro file' language n span' hblock
          cases hblock
          have hreferences : s.referencesOf file = l.scan file (Text.decodeLossy bytes) := by
            rw [Setting.referencesOf, hlanguage, hread]
          rw [hreferences] at htells ⊢
          exact ⟨l, bytes, hlanguage, hread, rfl, rfl, hsource, htells⟩

end

/-- **No reference is dropped without account.**  Whatever a run scans belongs to a language and can
    be read, and as many references are told of as this language finds.  The events from there to
    the next file all have it for their source, and are in order what comes of its references, but
    for those that lead to a recognised file of the start or to a target told of before. -/
theorem scan_accounted (s : Setting) (seeds : List Path) (rules : RuleCache) {earlier : List Event}
    (hearlier : ∀ e ∈ earlier, ∃ p, e = .missingInput p) {before after : List Event} {file : Path}
    {language : String} {n : Nat}
    (h : (discover s seeds earlier rules).events = before ++ .scanned file language n :: after) :
    s.Accounts rules seeds before file language n (after.takeWhile fun e => !e.isOpening) := by
  obtain ⟨found, st, ⟨-, hlogged⟩, heq, -⟩ := discover_keeps
    (P := fun done found st => Progress s (distinct seeds) earlier done found st ∧
      Logged s rules (distinct seeds) st)
    (fun _ _ _ h => h.1)
    ⟨Progress.start (apart_distinct seeds) rules, Logged.start (apart_distinct seeds) hearlier⟩
    fun _ _ _ _ _ h hqueue => by
      obtain ⟨answers, hnext, -, -⟩ := h.1.step hqueue
      exact ⟨_, hnext, h.2.step hqueue⟩
  rw [heq, State.report] at h
  -- the run starts from the seeds without repetitions, in the spelling that came first
  refine (hlogged.scans before file language n after h).of_isIn ?_
  intro t
  rw [Bool.eq_iff_iff, isIn_iff, isIn_iff]
  constructor
  · rintro ⟨q, hq, hsame⟩
    obtain ⟨hmem, hrec⟩ := List.mem_filter.mp hq
    exact ⟨q, List.mem_filter.mpr ⟨mem_of_mem_distinct hmem, hrec⟩, hsame⟩
  · rintro ⟨q, hq, hsame⟩
    obtain ⟨hmem, hrec⟩ := List.mem_filter.mp hq
    obtain ⟨q', hq', hsame'⟩ := isIn_iff.mp (isIn_distinct hmem)
    refine ⟨q', List.mem_filter.mpr ⟨hq', ?_⟩, ?_⟩
    · rw [← s.registry.isRecognized_eq_of_same hsame']
      exact hrec
    · rw [same_iff] at hsame hsame' ⊢
      exact hsame.trans hsame'

/-- A project of two files, the first of which refers twice to the second; this belongs to no
    language. -/
def inertSetting : Setting where
  disk := ⟨.file "a.txt" "b.md\nb.md".toUTF8 (.file "b.md" "".toUTF8 .empty), [], []⟩
  registry := ⟨[lineLanguage]⟩
  matcher := ⟨⟨"/"⟩, none, true, true⟩
  canonicalize := true

theorem inert_scan_accounted :
    let seeds : List Path := [⟨"/a.txt"⟩, ⟨"/b.md"⟩]
    let before : List Event := [.seeded ⟨"/a.txt"⟩ true, .seeded ⟨"/b.md"⟩ false]
    let after : List Event := [.resolved ⟨"/a.txt"⟩ "b.md" ⟨"/b.md"⟩ "lines"]
    (∀ e ∈ ([] : List Event), ∃ p, e = .missingInput p) ∧
      (discover inertSetting seeds [] []).events =
        before ++ .scanned ⟨"/a.txt"⟩ "lines" 2 :: after ∧
      inertSetting.Accounts [] seeds before ⟨"/a.txt"⟩ "lines" 2
        (after.takeWhile fun e => !e.isOpening) := by
  intro seeds before after
  have hearlier : ∀ e ∈ ([] : List Event), ∃ p, e = .missingInput p := by simp
  have hevents : (discover inertSetting seeds [] []).events =
      before ++ .scanned ⟨"/a.txt"⟩ "lines" 2 :: after := by
    decide +kernel
  exact ⟨hearlier, hevents, scan_accounted inertSetting seeds [] hearlier hevents⟩

/-! ### How often a file is found -/

theorem Event.seeded?_of_isOpening {e : Event} (h : e.isOpening = true) : e.seeded? = none := by
  cases e <;> simp_all [Event.isOpening, Event.opened?, Event.seeded?]

theorem Event.seeded?_of_source? {e : Event} {source : Path} (h : e.source? = some source) :
    e.seeded? = none := by
  cases e <;> simp_all [Event.source?, Event.seeded?]

section

variable {s : Setting} {seeds done found : List Path} {earlier : List Event} {st : State}

theorem Progress.seeded_step (h : Progress s seeds earlier done found st) {file : Path}
    {queue : List Path} (hqueue : st.queue = file :: queue) :
    (State.step s st).events.filterMap Event.seeded? = st.events.filterMap Event.seeded? := by
  obtain ⟨answers, -, hevents, -⟩ := h.step hqueue
  have hopening : (s.opening file).toList.filterMap Event.seeded? = [] := by
    rw [List.filterMap_eq_nil_iff]
    intro e he
    exact Event.seeded?_of_isOpening (s.isOpening_of_mem_opening (Option.mem_toList.mp he))
  have htold : (Answer.events file st.visited answers).filterMap Event.seeded? = [] := by
    rw [List.filterMap_eq_nil_iff]
    exact fun e he => Event.seeded?_of_source? (Answer.source?_of_mem_events he)
  rw [hevents, List.filterMap_append, List.filterMap_append, hopening, htold, List.append_nil,
    List.append_nil]

/-- A file that the run started from and that is found once more belongs to no language. -/
theorem Progress.languageOf?_eq_none (h : Progress s seeds earlier done found st) {p : Path}
    (hp : p ∈ seeds) (hfound : p.isIn found = true) : s.registry.languageOf? p = none := by
  obtain ⟨t, ht, hsame⟩ := isIn_iff.mp hfound
  rw [← Option.isNone_iff_eq_none, ← Option.not_isSome, s.registry.isSome_languageOf?]
  cases hrec : s.registry.isRecognized p with
  | false => rfl
  | true =>
    rw [s.registry.isRecognized_eq_of_same hsame] at hrec
    have hnew := h.not_isIn_seeds ht hrec
    have hdiffer := isIn_eq_false.mp hnew p hp
    rw [same_symm hsame] at hdiffer
    simp at hdiffer

end

/-- **How often a file enters a run.**  No two of the files that a run starts from are the same, and
    no two of those that it reaches.  Only a file of no language may be both.  The files of the
    report are the former and what else was reached, so there are as many as these events tell of,
    less the ones that reached a file of the start. -/
theorem files_eq_seeded_append (s : Setting) (seeds : List Path) (rules : RuleCache) :
    let report := discover s seeds [] rules
    let seeded := report.events.filterMap Event.seeded?
    let reached := report.events.filterMap Event.reached?
    Apart seeded ∧ Apart reached ∧
      (∀ p ∈ seeded, p.isIn reached = true → s.registry.languageOf? p = none) ∧
      report.files = seeded ++ reached.filter (fun t => !t.isIn seeded) ∧
      report.files.length + reached.countP (fun t => t.isIn seeded) =
        seeded.length + reached.length := by
  obtain ⟨found, st, ⟨h, hseeded⟩, heq, -⟩ := discover_keeps
    (P := fun done found st => Progress s (distinct seeds) [] done found st ∧
      st.events.filterMap Event.seeded? = distinct seeds)
    (fun _ _ _ h => h.1)
    ⟨Progress.start (apart_distinct seeds) rules, by
      rw [State.start_eq (apart_distinct seeds)]
      simp [List.filterMap_map, Function.comp_def, Event.seeded?]⟩
    fun _ _ _ _ _ h hqueue => by
      obtain ⟨answers, hnext, -, -⟩ := h.1.step hqueue
      exact ⟨_, hnext, (h.1.seeded_step hqueue).trans h.2⟩
  have hreached : st.events.filterMap Event.reached? = found := by
    rw [h.reached, List.filterMap_nil, List.nil_append]
  have hapart : Apart found := by
    have hvisited := h.apart
    rw [h.visited] at hvisited
    exact (List.pairwise_append.mp hvisited).2.1
  intro report seeded reached
  have hreport : report = st.report := heq
  have hs : seeded = distinct seeds := by
    rw [← hseeded, ← show report.events = st.events by rw [hreport]; rfl]
  have hr : reached = found := by
    rw [← hreached, ← show report.events = st.events by rw [hreport]; rfl]
  have hfiles : report.files = seeded ++ reached.filter (fun t => !t.isIn seeded) := by
    rw [hreport, hs, hr]
    exact h.files
  refine ⟨?_, ?_, ?_, hfiles, ?_⟩
  · rw [hs]
    exact apart_distinct seeds
  · rw [hr]
    exact hapart
  · intro p hp hfound
    rw [hs] at hp
    rw [hr] at hfound
    exact h.languageOf?_eq_none hp hfound
  · have hsplit := List.length_eq_countP_add_countP (fun t : Path => t.isIn seeded) (l := reached)
    rw [hfiles, List.length_append, ← List.countP_eq_length_filter]
    simp only [Bool.not_eq_true, Bool.decide_eq_false] at hsplit
    omega

/-- A file of no language that a run starts from is found once more if a reference leads to it. -/
theorem inert_seeded_and_reached :
    let report := discover inertSetting [⟨"/a.txt"⟩, ⟨"/b.md"⟩] [] []
    let seeded := report.events.filterMap Event.seeded?
    let reached := report.events.filterMap Event.reached?
    ⟨"/b.md"⟩ ∈ seeded ∧ ⟨"/b.md"⟩ ∈ reached ∧
      report.files.length ≠ seeded.length + reached.length := by
  decide +kernel

end SourceWeb.Discovery
