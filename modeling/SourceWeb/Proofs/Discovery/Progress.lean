/-
  Where a run stands, and that it comes to an end.

  The files that a run has looked at and those still in its queue are together the files it started
  from, followed by those it found.  Every other part of its state can be told from these two lists.
  Since the found files are apart from each other, there are no more of them than the disk has
  identities, and the queue is empty when the run stops.
-/
import SourceWeb.Proofs.Discovery.Step
import SourceWeb.Proofs.Path.Apart

namespace SourceWeb.Discovery

open SourceWeb.Path
open SourceWeb.Ignore (RuleCache)

/-! ### Fresh targets -/

namespace Answer

theorem fresh?_eq_some {visited : List Path} {a : Answer} {t : Path} :
    a.fresh? visited = some t ↔ (∃ via, a = .file t via) ∧ t.isIn visited = false := by
  cases a with
  | nowhere => simp [fresh?]
  | leftOut target => simp [fresh?]
  | noFile target => simp [fresh?]
  | file target via =>
    by_cases h : target.isIn visited = true
    · simp only [fresh?, h, if_true, reduceCtorEq, false_iff]
      rintro ⟨⟨via', heq⟩, hfresh⟩
      cases heq
      simp [h] at hfresh
    · simp only [fresh?, h, Bool.false_eq_true, if_false, Option.some.injEq]
      constructor
      · rintro rfl
        exact ⟨⟨via, rfl⟩, by simpa using h⟩
      · rintro ⟨⟨via', heq⟩, -⟩
        cases heq
        rfl

/-- Fresh targets are apart from what was reached before, and from each other. -/
theorem apart_freshTargets {visited : List Path} (h : Apart visited)
    (answers : List (Reference × Answer)) : Apart (visited ++ freshTargets visited answers) := by
  induction answers generalizing visited with
  | nil => simpa [freshTargets] using h
  | cons ra answers ih =>
    obtain ⟨r, a⟩ := ra
    rw [freshTargets, ← List.append_assoc]
    refine ih ?_
    cases hfresh : a.fresh? visited with
    | none => simpa using h
    | some t => exact apart_concat h (fresh?_eq_some.mp hfresh).2

theorem mem_of_mem_freshTargets {visited : List Path} {answers : List (Reference × Answer)}
    {t : Path} (h : t ∈ freshTargets visited answers) : ∃ r via, (r, .file t via) ∈ answers := by
  induction answers generalizing visited with
  | nil => simp [freshTargets] at h
  | cons ra answers ih =>
    obtain ⟨r, a⟩ := ra
    rcases List.mem_append.mp h with h | h
    · obtain ⟨⟨via, rfl⟩, -⟩ := fresh?_eq_some.mp (Option.mem_toList.mp h)
      exact ⟨r, via, by simp⟩
    · obtain ⟨r', via, hmem⟩ := ih h
      exact ⟨r', via, by simp [hmem]⟩

/-- Every file that an answer names was reached before or is now. -/
theorem isIn_freshTargets {visited : List Path} {answers : List (Reference × Answer)}
    {r : Reference} {t : Path} {via : String} (h : (r, .file t via) ∈ answers) :
    t.isIn (visited ++ freshTargets visited answers) = true := by
  induction answers generalizing visited with
  | nil => simp at h
  | cons ra answers ih =>
    obtain ⟨r', a⟩ := ra
    rw [freshTargets, ← List.append_assoc]
    rcases List.mem_cons.mp h with h | h
    · cases h
      rw [isIn_append, isIn_append]
      by_cases hvisited : t.isIn visited = true
      · simp [hvisited]
      · simp [fresh?, hvisited, isIn_of_mem]
    · exact ih h

theorem filterMap_reached?_event? (source : Path) (visited : List Path) (r : Reference)
    (a : Answer) :
    (a.event? source visited r).toList.filterMap Event.reached? = (a.fresh? visited).toList := by
  cases a with
  | nowhere => rfl
  | leftOut target => rfl
  | noFile target =>
    by_cases h : target.isIn visited = true <;> simp [event?, fresh?, h, Event.reached?]
  | file target via =>
    by_cases h : target.isIn visited = true <;> simp [event?, fresh?, h, Event.reached?]

theorem filterMap_reached?_events (source : Path) (visited : List Path)
    (answers : List (Reference × Answer)) :
    (events source visited answers).filterMap Event.reached? = freshTargets visited answers := by
  induction answers generalizing visited with
  | nil => rfl
  | cons ra answers ih =>
    obtain ⟨r, a⟩ := ra
    rw [events, freshTargets, List.filterMap_append, filterMap_reached?_event?, ih]

theorem opened?_of_mem_events {source : Path} {visited : List Path}
    {answers : List (Reference × Answer)} {e : Event} (h : e ∈ events source visited answers) :
    e.opened? = none := by
  induction answers generalizing visited with
  | nil => simp [events] at h
  | cons ra answers ih =>
    obtain ⟨r, a⟩ := ra
    rcases List.mem_append.mp h with h | h
    · cases a with
      | nowhere => simp_all [event?, Event.opened?]
      | leftOut target => simp_all [event?, Event.opened?]
      | noFile target =>
        by_cases hv : target.isIn visited = true <;> simp_all [event?, Event.opened?]
      | file target via =>
        by_cases hv : target.isIn visited = true <;> simp_all [event?, Event.opened?]
    · exact ih h

end Answer

theorem Event.isScanned_of_opened? {e : Event} (h : e.opened? = none) : e.isScanned = false := by
  cases e <;> simp_all [Event.opened?, Event.isScanned]

namespace Setting

variable {s : Setting}

theorem filterMap_opened?_opening (s : Setting) (file : Path) :
    (s.opening file).toList.filterMap Event.opened? =
      [file].filter s.registry.isRecognized := by
  rw [opening]
  have hrec := s.registry.isSome_languageOf? file
  cases hlanguage : s.registry.languageOf? file with
  | none =>
    rw [hlanguage] at hrec
    simp [← hrec]
  | some l =>
    rw [hlanguage] at hrec
    cases s.disk.read file <;> simp [← hrec, Event.opened?]

theorem filterMap_reached?_opening (s : Setting) (file : Path) :
    (s.opening file).toList.filterMap Event.reached? = [] := by
  rw [opening]
  cases s.registry.languageOf? file with
  | none => rfl
  | some l => cases s.disk.read file <;> rfl

end Setting

/-! ### The start -/

namespace State

variable {s : Setting}

/-- A run from files that are apart starts with all of them. -/
theorem start_eq {seeds : List Path} (h : Apart seeds) (events : List Event) (rules : RuleCache) :
    start s seeds events rules =
      { queue := seeds
        visited := seeds.filter s.registry.isRecognized
        files := seeds
        events := events ++ seeds.map fun p => .seeded p (s.registry.isRecognized p)
        scanCount := 0
        aliases := []
        rules := rules } := by
  induction seeds using List.reverseRecOn with
  | nil => simp [start]
  | append_singleton seeds p ih =>
    have hp : p.isIn seeds = false := isIn_of_apart_concat h
    have hfiltered : p.isIn (seeds.filter s.registry.isRecognized) = false := by
      rw [isIn_eq_false] at hp ⊢
      exact fun q hq => hp q (List.mem_filter.mp hq).1
    have hstart : start s (seeds ++ [p]) events rules = seed s (start s seeds events rules) p := by
      simp [start]
    rw [hstart, ih (List.pairwise_append.mp h).1, seed]
    cases hrec : s.registry.isRecognized p <;> simp [addPath, hp, hfiltered, hrec]

end State

/-! ### Where a run stands -/

/-- A run from the files `seeds`, with the events `earlier` before it, stands here when it looked at
    `done` and found `found`. -/
structure Progress (s : Setting) (seeds : List Path) (earlier : List Event)
    (done found : List Path) (st : State) : Prop where
  queue : done ++ st.queue = seeds ++ found
  visited : st.visited = seeds.filter s.registry.isRecognized ++ found
  files : st.files = seeds ++ found.filter fun t => !t.isIn seeds
  apart : Apart st.visited
  sound : ∀ t ∈ found, s.disk.isFile t = true ∧ ∃ p, t = s.identity p
  opened : st.events.filterMap Event.opened? =
    earlier.filterMap Event.opened? ++ done.filter s.registry.isRecognized
  reached : st.events.filterMap Event.reached? = earlier.filterMap Event.reached? ++ found
  scans : st.events.countP Event.isScanned = earlier.countP Event.isScanned + st.scanCount

namespace Progress

variable {s : Setting} {seeds done found : List Path} {earlier : List Event} {st : State}

theorem start (h : Apart seeds) (rules : RuleCache) :
    Progress s seeds earlier [] [] (State.start s seeds earlier rules) := by
  rw [State.start_eq h]
  refine ⟨by simp, by simp, by simp, h.filter _, by simp, ?_, ?_, ?_⟩
  · simp [List.filterMap_map, Function.comp_def, Event.opened?]
  · simp [List.filterMap_map, Function.comp_def, Event.reached?]
  · simp [List.countP_map, Function.comp_def, Event.isScanned]

theorem foldl_addPath {seeds found new : List Path} (h : Apart (found ++ new)) :
    new.foldl State.addPath (seeds ++ found.filter fun t => !t.isIn seeds) =
      seeds ++ (found ++ new).filter fun t => !t.isIn seeds := by
  induction new generalizing found with
  | nil => simp
  | cons t new ih =>
    have hsplit : found ++ t :: new = (found ++ [t]) ++ new := by simp
    rw [hsplit] at h
    have ht : t.isIn found = false := isIn_of_apart_concat (List.pairwise_append.mp h).1
    have hfiltered : t.isIn (found.filter fun t => !t.isIn seeds) = false := by
      rw [isIn_eq_false] at ht ⊢
      exact fun q hq => ht q (List.mem_filter.mp hq).1
    have hadd : State.addPath (seeds ++ found.filter fun t => !t.isIn seeds) t =
        seeds ++ (found ++ [t]).filter fun t => !t.isIn seeds := by
      rw [State.addPath, isIn_append, hfiltered, List.filter_append]
      cases hseeds : t.isIn seeds <;> simp [hseeds]
    rw [List.foldl_cons, hadd, ih h, hsplit]

/-- **What one step keeps.**  The file that is looked at is the next one, and what it leads to is
    found. -/
theorem step (h : Progress s seeds earlier done found st) {file : Path} {queue : List Path}
    (hqueue : st.queue = file :: queue) : ∃ answers,
      Progress s seeds earlier (done ++ [file])
        (found ++ Answer.freshTargets st.visited answers) (State.step s st) ∧
      (State.step s st).events =
        st.events ++ (s.opening file).toList ++ Answer.events file st.visited answers ∧
      ∀ start, State.Trusted s start st → file.Tidy →
        answers = s.answersOf start file ∧ State.Trusted s start (State.step s st) := by
  obtain ⟨answers, aliases, rules, heq, hsound, htrusted⟩ := State.step_eq (s := s) hqueue
  refine ⟨answers, ?_, by rw [heq], htrusted⟩
  have hnew := Answer.apart_freshTargets h.apart answers
  generalize hfresh : Answer.freshTargets st.visited answers = new at heq hnew
  have hevents : (Answer.events file st.visited answers).filterMap Event.opened? = [] :=
    List.filterMap_eq_nil_iff.mpr fun e => Answer.opened?_of_mem_events
  rw [heq]
  refine ⟨?_, ?_, ?_, hnew, ?_, ?_, ?_, ?_⟩
  · rw [← List.append_assoc seeds, ← h.queue, hqueue]
    simp
  · simp [h.visited]
  · simp only
    rw [h.files, foldl_addPath]
    rw [h.visited, List.append_assoc] at hnew
    exact (List.pairwise_append.mp hnew).2.1
  · intro t ht
    rcases List.mem_append.mp ht with ht | ht
    · exact h.sound t ht
    · obtain ⟨r, via, hmem⟩ := Answer.mem_of_mem_freshTargets (hfresh ▸ ht)
      exact hsound _ hmem t via rfl
  · simp only [List.filterMap_append, hevents, h.opened, s.filterMap_opened?_opening,
      List.filter_append, List.append_assoc, List.append_nil]
  · simp only [List.filterMap_append, Answer.filterMap_reached?_events, h.reached, hfresh,
      s.filterMap_reached?_opening, List.append_assoc, List.nil_append]
  · have hzero : (Answer.events file st.visited answers).countP Event.isScanned = 0 :=
      List.countP_eq_zero.mpr fun e he => by
        simp [Event.isScanned_of_opened? (Answer.opened?_of_mem_events he)]
    simp only [List.countP_append, hzero, h.scans]
    omega

theorem nodup_found (h : Progress s seeds earlier done found st) : found.Nodup := by
  have hapart := h.apart
  rw [h.visited] at hapart
  have hfound : Apart found := (List.pairwise_append.mp hapart).2.1
  exact hfound.nodup

theorem length_found_le (h : Progress s seeds earlier done found st) :
    found.length ≤ pathBound s.disk :=
  Setting.length_le_pathBound h.nodup_found h.sound

/-- A run that took as many steps as it may has nothing left to look at. -/
theorem queue_eq_nil (h : Progress s seeds earlier done found st)
    (hdone : done.length = seeds.length + pathBound s.disk) : st.queue = [] := by
  have hlen := congrArg List.length h.queue
  have hfound := h.length_found_le
  rw [List.length_append, List.length_append] at hlen
  exact List.length_eq_zero_iff.mp (by omega)

end Progress

/-! ### Whole runs -/

section Runs

variable {s : Setting} {P : List Path → List Path → State → Prop}

/-- What every step keeps, a run keeps; it stops because nothing is left to look at, or because it
    took all its steps. -/
theorem State.run_keeps
    (hstep : ∀ done found st file queue, P done found st → st.queue = file :: queue →
      ∃ new, P (done ++ [file]) (found ++ new) (step s st))
    (fuel : Nat) {done found : List Path} {st : State} (h : P done found st) :
    ∃ n done' found', P done' found' (run s fuel st) ∧ done'.length = done.length + n ∧
      run s n st = run s fuel st ∧ ((run s fuel st).queue = [] ∨ n = fuel) := by
  induction fuel generalizing done found st with
  | zero => exact ⟨0, done, found, h, rfl, rfl, .inr rfl⟩
  | succ fuel ih =>
    rw [run]
    cases hqueue : st.queue with
    | nil => exact ⟨0, done, found, h, rfl, rfl, .inl hqueue⟩
    | cons file queue =>
      obtain ⟨new, hnew⟩ := hstep done found st file queue h hqueue
      obtain ⟨n, done', found', hrun, hlen, hsteps, hend⟩ := ih hnew
      refine ⟨n + 1, done', found', hrun, ?_, ?_, hend.imp_right (congrArg (· + 1))⟩
      · rw [hlen, List.length_append, List.length_singleton]
        omega
      · rw [run, hqueue]
        exact hsteps

/-- **A run comes to an end.**  What holds at the start and is kept by every step holds when the
    queue is empty, and then all files were looked at, each in a step of its own. -/
theorem discover_keeps {seeds : List Path} {earlier : List Event} {rules : RuleCache}
    (hprogress : ∀ done found st, P done found st →
      Progress s (distinct seeds) earlier done found st)
    (hstart : P [] [] (State.start s (distinct seeds) earlier rules))
    (hstep : ∀ done found st file queue, P done found st → st.queue = file :: queue →
      ∃ new, P (done ++ [file]) (found ++ new) (State.step s st)) :
    ∃ found st, P (distinct seeds ++ found) found st ∧
      discover s seeds earlier rules = st.report ∧
      (State.start s (distinct seeds) earlier rules).run s (distinct seeds ++ found).length =
        st := by
  obtain ⟨n, done, found, hrun, hlen, hsteps, hend⟩ := State.run_keeps hstep
    ((distinct seeds).length + pathBound s.disk) hstart
  rw [List.length_nil, Nat.zero_add] at hlen
  have hempty := hend.elim id fun hn =>
    (hprogress _ _ _ hrun).queue_eq_nil (hlen.trans hn)
  have hdone := (hprogress _ _ _ hrun).queue
  rw [hempty, List.append_nil] at hdone
  exact ⟨found, _, hdone ▸ hrun, rfl, by rw [← hdone, hlen, hsteps]⟩

end Runs

/-! ### Scans -/

/-- A recognised file that was found is none of the files that the run started from. -/
theorem Progress.not_isIn_seeds {s : Setting} {seeds done found : List Path} {earlier : List Event}
    {st : State} (h : Progress s seeds earlier done found st) {t : Path} (ht : t ∈ found)
    (hrec : s.registry.isRecognized t = true) : t.isIn seeds = false := by
  have hapart := h.apart
  rw [h.visited] at hapart
  rw [isIn_eq_false]
  intro q hq
  rw [← Bool.not_eq_true]
  intro hsame
  rw [s.registry.isRecognized_eq_of_same hsame] at hrec
  have := isIn_eq_false.mp (hapart.isIn_front ht) q (List.mem_filter.mpr ⟨hq, hrec⟩)
  simp [hsame] at this

/-- **Every file of a language is opened once, in the order of discovery.**  The files that were
    scanned or could not be read are, in this order, those of the report that belong to a language;
    no two of them are the same, and the scans were counted. -/
theorem opened_eq_files (s : Setting) (seeds : List Path) (rules : RuleCache) :
    let report := discover s seeds [] rules
    report.events.filterMap Event.opened? =
        report.files.filter (fun p => (s.registry.languageOf? p).isSome) ∧
      Apart (report.events.filterMap Event.opened?) ∧
      report.scanCount = report.events.countP Event.isScanned := by
  obtain ⟨found, st, h, heq, -⟩ := discover_keeps (P := Progress s (distinct seeds) [])
    (fun _ _ _ h => h) (Progress.start (apart_distinct seeds) rules)
    fun _ _ _ _ _ h hqueue => by
      obtain ⟨answers, hnext, -, -⟩ := h.step hqueue
      exact ⟨_, hnext⟩
  simp only [heq, State.report, s.registry.isSome_languageOf?]
  have hopened := h.opened
  have hfiles : st.files.filter s.registry.isRecognized =
      (distinct seeds ++ found).filter s.registry.isRecognized := by
    rw [h.files, List.filter_append, List.filter_append, List.filter_filter]
    congr 1
    refine List.filter_congr fun t ht => ?_
    cases hrec : s.registry.isRecognized t with
    | false => rfl
    | true => simp [h.not_isIn_seeds ht hrec]
  rw [List.filterMap_nil, List.nil_append] at hopened
  refine ⟨hopened.trans hfiles.symm, ?_, by simpa using h.scans.symm⟩
  rw [hopened, List.filter_append]
  have hapart := h.apart
  rw [h.visited] at hapart
  exact List.Pairwise.sublist (List.Sublist.append_left List.filter_sublist _) hapart

end SourceWeb.Discovery
