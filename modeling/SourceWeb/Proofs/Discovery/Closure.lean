/-
  A run finds what can be reached, and nothing else.

  One file leads to another when the second is what a reference of the first comes to.  The files of
  a report are the least set that holds the files the run started from and is closed under this
  relation.  The queue, the files that count as visited and the two caches do not show.
-/
import Mathlib.Order.Bounds.Defs
import SourceWeb.Proofs.Discovery.Progress

namespace SourceWeb.Discovery

open SourceWeb.Path
open SourceWeb.Ignore (RuleCache Matcher)

namespace Setting

variable {s : Setting} {rules : RuleCache} {seeds : List Path}

/-! ### Reference steps -/

/-- Does a reference of the file `f`, which belongs to a language and can be read, lead to the file
    `t`?  The aliases are those for `f`, and `rules` is what the matcher knows already. -/
def Leads (s : Setting) (rules : RuleCache) (f t : Path) : Prop :=
  ∃ r ∈ s.referencesOf f, ∃ found via, s.resolve (s.siteOf f) r = some (found, via) ∧
    t = s.identity found ∧ ((s.matcher.isIgnored s.disk t).run rules).1 = false ∧
    s.disk.isFile t = true

/-- The files that can be reached from the files `seeds`. -/
inductive Reached (s : Setting) (rules : RuleCache) (seeds : List Path) : Path → Prop
  | seed {p : Path} (h : p ∈ seeds) : Reached s rules seeds p
  | follow {f t : Path} (hf : Reached s rules seeds f) (h : s.Leads rules f t) :
      Reached s rules seeds t

/-- Does the set hold the files `seeds`, and whatever its files lead to? -/
def Closed (s : Setting) (rules : RuleCache) (seeds : List Path) (S : Set Path) : Prop :=
  (∀ p ∈ seeds, p ∈ S) ∧ ∀ f ∈ S, ∀ t, s.Leads rules f t → t ∈ S

theorem isLeast_reached (s : Setting) (rules : RuleCache) (seeds : List Path) :
    IsLeast {S | s.Closed rules seeds S} {p | s.Reached rules seeds p} := by
  refine ⟨⟨fun p hp => .seed hp, fun f hf t ht => .follow hf ht⟩, ?_⟩
  intro S hS p hp
  induction hp with
  | seed h => exact hS.1 _ h
  | follow _ h ih => exact hS.2 _ ih _ h

theorem answer_eq_file {site : Site} {r : Reference} {t : Path} {via : String} :
    s.answer rules site r = .file t via ↔ ∃ found, s.resolve site r = some (found, via) ∧
      t = s.identity found ∧ ((s.matcher.isIgnored s.disk t).run rules).1 = false ∧
      s.disk.isFile t = true := by
  unfold answer
  cases s.resolve site r with
  | none => simp
  | some found =>
    obtain ⟨p, via'⟩ := found
    dsimp only
    by_cases hignored : ((s.matcher.isIgnored s.disk (s.identity p)).run rules).1 = true
    · simp only [hignored, if_true, reduceCtorEq, false_iff, not_exists, not_and]
      rintro q hq rfl
      cases hq
      simp [hignored]
    · by_cases hfile : s.disk.isFile (s.identity p) = true
      · simp only [hignored, hfile, Bool.false_eq_true, if_false, if_true, Answer.file.injEq]
        constructor
        · rintro ⟨rfl, rfl⟩
          exact ⟨p, rfl, rfl, by simpa using hignored, hfile⟩
        · rintro ⟨q, hq, rfl, -, -⟩
          cases hq
          exact ⟨rfl, rfl⟩
      · simp only [hignored, hfile, Bool.false_eq_true, if_false, reduceCtorEq, false_iff,
          not_exists, not_and]
        rintro q hq rfl -
        cases hq
        exact hfile

theorem answer_eq_noFile {site : Site} {r : Reference} {t : Path} :
    s.answer rules site r = .noFile t ↔ ∃ found via, s.resolve site r = some (found, via) ∧
      t = s.identity found ∧ ((s.matcher.isIgnored s.disk t).run rules).1 = false ∧
      s.disk.isFile t = false := by
  unfold answer
  cases s.resolve site r with
  | none => simp
  | some found =>
    obtain ⟨p, via⟩ := found
    dsimp only
    cases hignored : ((s.matcher.isIgnored s.disk (s.identity p)).run rules).1 with
    | true =>
      simp only [if_true, reduceCtorEq, false_iff, not_exists, not_and]
      rintro q via' hq rfl hkept
      cases hq
      simp [hignored] at hkept
    | false =>
      cases hfile : s.disk.isFile (s.identity p) with
      | true =>
        simp only [Bool.false_eq_true, if_false, if_true, reduceCtorEq, false_iff, not_exists,
          not_and]
        rintro q via' hq rfl -
        cases hq
        simp [hfile]
      | false =>
        simp only [Bool.false_eq_true, if_false, Answer.noFile.injEq]
        constructor
        · rintro rfl
          exact ⟨p, via, rfl, rfl, hignored, hfile⟩
        · rintro ⟨q, via', hq, rfl, -, -⟩
          cases hq
          rfl

theorem not_isFile_of_answer {site : Site} {r : Reference} {t : Path}
    (h : s.answer rules site r = .noFile t) :
    s.disk.isFile t = false ∧ ∃ p, t = s.identity p := by
  obtain ⟨found, -, -, hid, -, hfile⟩ := answer_eq_noFile.mp h
  exact ⟨hfile, found, hid⟩

theorem leads_iff {f t : Path} :
    s.Leads rules f t ↔ ∃ r via, (r, .file t via) ∈ s.answersOf rules f := by
  constructor
  · rintro ⟨r, hr, found, via, h⟩
    exact ⟨r, via, List.mem_map.mpr ⟨r, hr, by rw [answer_eq_file.mpr ⟨found, h⟩]⟩⟩
  · rintro ⟨r, via, h⟩
    obtain ⟨r', hr, heq⟩ := List.mem_map.mp h
    obtain ⟨rfl, hanswer⟩ := Prod.mk.inj heq
    obtain ⟨found, h⟩ := answer_eq_file.mp hanswer
    exact ⟨r', hr, found, via, h⟩

theorem Leads.isFile {f t : Path} (h : s.Leads rules f t) : s.disk.isFile t = true := by
  obtain ⟨r, hr, found, via, hfound, hid, hignored, hfile⟩ := h
  exact hfile

theorem Leads.tidy (hd : s.disk.HereNamed) {f t : Path} (h : s.Leads rules f t) : t.Tidy := by
  obtain ⟨r, hr, found, via, hfound, rfl, hignored, hfile⟩ := h
  exact tidy_identity hd found

end Setting

/-! ### What is reported besides -/

/-- Does the event tell of anything but a file that was reached? -/
def Event.isQuiet (e : Event) : Bool :=
  e.reached?.isNone

namespace Answer

/-- What is reported of an answer that reaches nothing, where `known` was reached from the start. -/
def quiet? (source : Path) (known : List Path) (r : Reference) : Answer → Option Event
  | .nowhere => some (.unresolved source r.display)
  | .leftOut target => some (.excluded source target)
  | .noFile target => if target.isIn known then none else some (.notAFile source target)
  | .file _ _ => none

/-- What is reported besides of the answers does not depend on what they reach. -/
theorem filter_isQuiet_events {source : Path} {known visited : List Path}
    {answers : List (Reference × Answer)}
    (hvisited : ∀ r t, (r, .noFile t) ∈ answers → t.isIn visited = t.isIn known)
    (hfiles : ∀ r t r' u via, (r, .noFile t) ∈ answers → (r', .file u via) ∈ answers →
      t.same u = false) :
    (events source visited answers).filter Event.isQuiet =
      answers.filterMap fun a => a.2.quiet? source known a.1 := by
  induction answers generalizing visited with
  | nil => rfl
  | cons ra answers ih =>
    obtain ⟨r, a⟩ := ra
    have hone : (a.event? source visited r).toList.filter Event.isQuiet =
        (a.quiet? source known r).toList := by
      cases a with
      | nowhere => rfl
      | leftOut target => rfl
      | noFile target =>
        rw [event?, quiet?, hvisited r target (by simp)]
        split <;> rfl
      | file target via =>
        rw [event?, quiet?]
        split <;> rfl
    have hrest := @ih (visited ++ (a.fresh? visited).toList)
      (fun r' t h => by
        rw [isIn_append, hvisited r' t (by simp [h])]
        cases hfresh : a.fresh? visited with
        | none => simp [isIn]
        | some u =>
          obtain ⟨⟨via, rfl⟩, -⟩ := fresh?_eq_some.mp hfresh
          simp [isIn, hfiles r' t r u via (by simp [h]) (by simp)])
      (fun r' t r'' u via h h' => hfiles r' t r'' u via (by simp [h]) (by simp [h']))
    rw [events, List.filter_append, hone, hrest, List.filterMap_cons]
    cases a.quiet? source known r <;> rfl

end Answer

/-- What is reported of a file besides what it reaches. -/
def Setting.quietOf (s : Setting) (rules : RuleCache) (known : List Path) (file : Path) :
    List Event :=
  (s.opening file).toList ++
    (s.answersOf rules file).filterMap fun a => a.2.quiet? file known a.1

theorem Setting.filter_isQuiet_opening (s : Setting) (file : Path) :
    (s.opening file).toList.filter Event.isQuiet = (s.opening file).toList := by
  rw [opening]
  cases s.registry.languageOf? file with
  | none => rfl
  | some l => cases s.disk.read file <;> rfl

/-- What is no file is not the same as a file, if both are identities. -/
theorem Setting.not_same_of_answers {s : Setting} {rules : RuleCache} (hd : s.disk.HereNamed)
    {file : Path} (r : Reference) (t : Path) (r' : Reference) (u : Path) (via : String)
    (h : (r, .noFile t) ∈ s.answersOf rules file)
    (h' : (r', .file u via) ∈ s.answersOf rules file) :
    t.same u = false := by
  obtain ⟨_, -, heq⟩ := List.mem_map.mp h
  obtain ⟨hfile, p, rfl⟩ := not_isFile_of_answer (Prod.mk.inj heq).2
  have hleads : s.Leads rules file u := leads_iff.mpr ⟨r', via, h'⟩
  rw [← Bool.not_eq_true]
  intro hsame
  rw [(s.tidy_identity hd p).eq_of_same (hleads.tidy hd) hsame, hleads.isFile] at hfile
  simp at hfile

/-! ### What is reached -/

/-- A run that looked at `done` and found `found` followed its files exactly: it reached all that
    those it looked at lead to, and nothing else, and reported what it had to of each of them. -/
structure Exact (s : Setting) (rules : RuleCache) (seeds : List Path) (earlier : List Event)
    (done found : List Path) (st : State) : Prop where
  trusted : State.Trusted s rules st
  closed : ∀ f ∈ done, ∀ t, s.Leads rules f t → t.isIn st.visited = true
  led : ∀ t ∈ found, ∃ f, s.Reached rules seeds f ∧ s.Leads rules f t
  quiet : st.events.filter Event.isQuiet = earlier.filter Event.isQuiet ++
    seeds.map (fun p => .seeded p (s.registry.isRecognized p)) ++
    done.flatMap (s.quietOf rules (seeds.filter s.registry.isRecognized))

section

variable {s : Setting} {rules : RuleCache} {seeds done found : List Path} {earlier : List Event}
  {st : State}

theorem Progress.tidy_found (h : Progress s seeds earlier done found st) (hd : s.disk.HereNamed) :
    ∀ t ∈ found, t.Tidy := by
  intro t ht
  obtain ⟨-, p, rfl⟩ := h.sound t ht
  exact s.tidy_identity hd p

theorem Progress.isIn_visited (h : Progress s seeds earlier done found st) (hd : s.disk.HereNamed)
    {file : Path} (r : Reference) (t : Path) (hanswer : (r, .noFile t) ∈ s.answersOf rules file) :
    t.isIn st.visited = t.isIn (seeds.filter s.registry.isRecognized) := by
  obtain ⟨_, -, heq⟩ := List.mem_map.mp hanswer
  obtain ⟨hfile, p, rfl⟩ := Setting.not_isFile_of_answer (Prod.mk.inj heq).2
  have hfound : (s.identity p).isIn found = false := by
    rw [← Bool.not_eq_true, isIn_iff_mem (s.tidy_identity hd p) (h.tidy_found hd)]
    intro hmem
    rw [(h.sound _ hmem).1] at hfile
    simp at hfile
  rw [h.visited, isIn_append, hfound, Bool.or_false]

theorem Exact.reached (h : Exact s rules seeds earlier done found st) :
    ∀ t ∈ found, s.Reached rules seeds t := by
  intro t ht
  obtain ⟨f, hf, hleads⟩ := h.led t ht
  exact .follow hf hleads

theorem Exact.start (h : Apart seeds) (earlier : List Event) :
    Exact s rules seeds earlier [] [] (State.start s seeds earlier rules) := by
  rw [State.start_eq h]
  refine ⟨⟨by simp [Alias.Loaded], s.matcher.grown_start s.disk rules⟩, by simp, by simp, ?_⟩
  have hseeded : (seeds.map fun p => Event.seeded p (s.registry.isRecognized p)).filter
      Event.isQuiet = seeds.map fun p => .seeded p (s.registry.isRecognized p) := by
    rw [List.filter_eq_self]
    intro e he
    obtain ⟨p, -, rfl⟩ := List.mem_map.mp he
    rfl
  rw [List.filter_append, hseeded]
  simp

/-- **What one step keeps.**  With tidy files to start from, the caches stay right and the file that
    is looked at is followed exactly. -/
theorem Exact.step (hprogress : Progress s seeds earlier done found st)
    (h : Exact s rules seeds earlier done found st) (hd : s.disk.HereNamed)
    (hseeds : ∀ p ∈ seeds, p.Tidy) {file : Path} {queue : List Path}
    (hqueue : st.queue = file :: queue) : ∃ new,
      new = Answer.freshTargets st.visited (s.answersOf rules file) ∧
      (State.step s st).events = st.events ++ (s.opening file).toList ++
        Answer.events file st.visited (s.answersOf rules file) ∧
      Progress s seeds earlier (done ++ [file]) (found ++ new) (State.step s st) ∧
      Exact s rules seeds earlier (done ++ [file]) (found ++ new) (State.step s st) := by
  obtain ⟨answers, hnext, hevents, hanswers⟩ := hprogress.step hqueue
  have hmem : file ∈ seeds ++ found := by
    rw [← hprogress.queue, hqueue]
    simp
  have htidy : file.Tidy := by
    rcases List.mem_append.mp hmem with hfile | hfile
    · exact hseeds file hfile
    · exact hprogress.tidy_found hd file hfile
  have hreached : s.Reached rules seeds file := by
    rcases List.mem_append.mp hmem with hfile | hfile
    · exact .seed hfile
    · exact h.reached file hfile
  obtain ⟨rfl, htrusted⟩ := hanswers rules h.trusted htidy
  generalize hnew : Answer.freshTargets st.visited (s.answersOf rules file) = new at hnext
  have hvisited : (State.step s st).visited = st.visited ++ new := by
    rw [hnext.visited, hprogress.visited, List.append_assoc]
  refine ⟨new, rfl, hevents, hnext, htrusted, ?_, ?_, ?_⟩
  · intro f hf t ht
    rw [hvisited]
    rcases List.mem_append.mp hf with hf | hf
    · simp [h.closed f hf t ht]
    · rw [List.mem_singleton.mp hf] at ht
      obtain ⟨r, via, hanswer⟩ := Setting.leads_iff.mp ht
      exact hnew ▸ Answer.isIn_freshTargets hanswer
  · intro t ht
    rcases List.mem_append.mp ht with ht | ht
    · exact h.led t ht
    · obtain ⟨r, via, hanswer⟩ := Answer.mem_of_mem_freshTargets (hnew ▸ ht)
      exact ⟨file, hreached, Setting.leads_iff.mpr ⟨r, via, hanswer⟩⟩
  · rw [hevents, List.filter_append, List.filter_append, h.quiet, s.filter_isQuiet_opening,
      Answer.filter_isQuiet_events (hprogress.isIn_visited hd) (Setting.not_same_of_answers hd),
      List.flatMap_append, List.flatMap_singleton, Setting.quietOf]
    simp only [List.append_assoc]

/-- A run from tidy files ends with all that can be reached. -/
theorem discover_exact (rules : RuleCache) (hd : s.disk.HereNamed) (hseeds : ∀ p ∈ seeds, p.Tidy)
    (earlier : List Event) : ∃ found st,
      Progress s (distinct seeds) earlier (distinct seeds ++ found) found st ∧
      Exact s rules (distinct seeds) earlier (distinct seeds ++ found) found st ∧
      discover s seeds earlier rules = st.report ∧
      (State.start s (distinct seeds) earlier rules).run s (distinct seeds ++ found).length =
        st := by
  have hdistinct : ∀ p ∈ distinct seeds, p.Tidy := fun p hp => hseeds p (mem_of_mem_distinct hp)
  obtain ⟨found, st, ⟨hprogress, hexact⟩, heq⟩ := discover_keeps
    (P := fun done found st => Progress s (distinct seeds) earlier done found st ∧
      Exact s rules (distinct seeds) earlier done found st)
    (fun _ _ _ h => h.1)
    ⟨Progress.start (apart_distinct seeds) rules, Exact.start (apart_distinct seeds) earlier⟩
    fun _ _ _ _ _ h hqueue => by
      obtain ⟨new, -, -, hnext⟩ := Exact.step h.1 h.2 hd hdistinct hqueue
      exact ⟨new, hnext⟩
  exact ⟨found, st, hprogress, hexact, heq⟩

/-! ### The end of a run -/

/-- What counts as visited are the recognised files of the start and what was found. -/
theorem Progress.isIn_visited_iff (h : Progress s seeds earlier done found st)
    (hd : s.disk.HereNamed) (hseeds : ∀ p ∈ seeds, p.Tidy) {p : Path} (hp : p.Tidy) :
    p.isIn st.visited = true ↔ p ∈ seeds.filter s.registry.isRecognized ∨ p ∈ found := by
  rw [h.visited, isIn_append, Bool.or_eq_true, isIn_iff_mem hp (h.tidy_found hd),
    isIn_iff_mem hp fun q hq => hseeds q (List.mem_filter.mp hq).1]

theorem Progress.mem_files_iff (h : Progress s seeds earlier done found st) (hd : s.disk.HereNamed)
    (hseeds : ∀ p ∈ seeds, p.Tidy) {p : Path} : p ∈ st.files ↔ p ∈ seeds ++ found := by
  simp only [h.files, List.mem_append, List.mem_filter, Bool.not_eq_eq_eq_not, Bool.not_true]
  refine or_congr_right' fun hp => and_iff_left_of_imp fun hfound => ?_
  rw [← Bool.not_eq_true, isIn_iff_mem (h.tidy_found hd p hfound) hseeds]
  exact hp

/-- At the end all is found that can be reached. -/
theorem Exact.mem_iff_reached (hprogress : Progress s seeds earlier (seeds ++ found) found st)
    (h : Exact s rules seeds earlier (seeds ++ found) found st) (hd : s.disk.HereNamed)
    (hseeds : ∀ p ∈ seeds, p.Tidy) {p : Path} :
    p ∈ seeds ++ found ↔ s.Reached rules seeds p := by
  constructor
  · intro hp
    rcases List.mem_append.mp hp with hp | hp
    · exact .seed hp
    · exact h.reached p hp
  · intro hp
    induction hp with
    | seed hp => exact List.mem_append_left _ hp
    | follow _ hleads ih =>
      have hvisited := h.closed _ ih _ hleads
      rw [hprogress.isIn_visited_iff hd hseeds (hleads.tidy hd)] at hvisited
      rcases hvisited with ht | ht
      · exact List.mem_append_left _ (List.mem_filter.mp ht).1
      · exact List.mem_append_right _ ht

/-- At the end that is found which a file leads to, unless the run started from it and recognised
    it. -/
theorem Exact.mem_found_iff (hprogress : Progress s seeds earlier (seeds ++ found) found st)
    (h : Exact s rules seeds earlier (seeds ++ found) found st) (hd : s.disk.HereNamed)
    (hseeds : ∀ p ∈ seeds, p.Tidy) {t : Path} :
    t ∈ found ↔ (∃ f, s.Reached rules seeds f ∧ s.Leads rules f t) ∧
      t ∉ seeds.filter s.registry.isRecognized := by
  constructor
  · intro ht
    refine ⟨h.led t ht, fun hseed => ?_⟩
    have hapart := hprogress.apart
    rw [hprogress.visited] at hapart
    have := (List.pairwise_append.mp hapart).2.2 t hseed t ht
    simp at this
  · rintro ⟨⟨f, hf, hleads⟩, hseed⟩
    have hvisited := h.closed f ((h.mem_iff_reached hprogress hd hseeds).mpr hf) t hleads
    rw [hprogress.isIn_visited_iff hd hseeds (hleads.tidy hd)] at hvisited
    exact hvisited.resolve_left hseed

theorem Setting.Reached.mono {seeds' : List Path} (h : ∀ p ∈ seeds, p ∈ seeds') {p : Path}
    (hp : s.Reached rules seeds p) : s.Reached rules seeds' p := by
  induction hp with
  | seed hp => exact .seed (h _ hp)
  | follow _ hleads ih => exact .follow ih hleads

/-- The files of a report are the files that can be reached. -/
theorem mem_files_iff (hd : s.disk.HereNamed) (hseeds : ∀ p ∈ seeds, p.Tidy)
    (earlier : List Event) {p : Path} :
    p ∈ (discover s seeds earlier rules).files ↔ s.Reached rules seeds p := by
  obtain ⟨found, st, hprogress, hexact, heq, -⟩ :=
    discover_exact rules hd hseeds earlier
  have hdistinct : ∀ q ∈ distinct seeds, q.Tidy := fun q hq => hseeds q (mem_of_mem_distinct hq)
  rw [heq, State.report, hprogress.mem_files_iff hd hdistinct,
    hexact.mem_iff_reached hprogress hd hdistinct]
  exact ⟨.mono fun q => mem_of_mem_distinct, .mono fun q => (mem_distinct hseeds).mpr⟩

/-- What a run reports besides what it reaches: what was reported before, the files it starts from,
    and what is to be reported of each file that can be reached. -/
theorem quiet_mem_events_iff (hd : s.disk.HereNamed) (hseeds : ∀ p ∈ seeds, p.Tidy)
    (earlier : List Event) {e : Event} (he : e.isQuiet = true) :
    e ∈ (discover s seeds earlier rules).events ↔ e ∈ earlier ∨
      (∃ p ∈ seeds, e = .seeded p (s.registry.isRecognized p)) ∨
      ∃ file, s.Reached rules seeds file ∧
        e ∈ s.quietOf rules ((distinct seeds).filter s.registry.isRecognized) file := by
  obtain ⟨found, st, hprogress, hexact, heq, -⟩ := discover_exact rules hd hseeds earlier
  have hdistinct : ∀ q ∈ distinct seeds, q.Tidy := fun q hq => hseeds q (mem_of_mem_distinct hq)
  have hquiet : e ∈ st.events ↔ e ∈ st.events.filter Event.isQuiet :=
    ⟨fun h => List.mem_filter.mpr ⟨h, he⟩, fun h => (List.mem_filter.mp h).1⟩
  have hreached : ∀ file, file ∈ distinct seeds ++ found ↔ s.Reached rules seeds file := by
    intro file
    rw [hexact.mem_iff_reached hprogress hd hdistinct]
    exact ⟨.mono fun q => mem_of_mem_distinct, .mono fun q => (mem_distinct hseeds).mpr⟩
  rw [heq, State.report, hquiet, hexact.quiet, List.mem_append, List.mem_append, or_assoc]
  simp only [List.mem_filter, he, and_true, List.mem_map, mem_distinct hseeds, List.mem_flatMap,
    hreached, eq_comm (b := e)]

/-- The scans of a run are those of the files that can be reached. -/
theorem scanned_mem_events_iff (hd : s.disk.HereNamed) (hseeds : ∀ p ∈ seeds, p.Tidy)
    (earlier : List Event) {p : Path} {language : String} {n : Nat} :
    .scanned p language n ∈ (discover s seeds earlier rules).events ↔
      .scanned p language n ∈ earlier ∨
        s.Reached rules seeds p ∧ s.opening p = some (.scanned p language n) := by
  have hopened : ∀ file, .scanned p language n ∈ s.quietOf rules
      ((distinct seeds).filter s.registry.isRecognized) file ↔
        file = p ∧ s.opening p = some (.scanned p language n) := by
    intro file
    have hrest : .scanned p language n ∉ (s.answersOf rules file).filterMap
        (fun a => a.2.quiet? file ((distinct seeds).filter s.registry.isRecognized) a.1) := by
      intro h
      obtain ⟨⟨r, a⟩, -, h⟩ := List.mem_filterMap.mp h
      cases a with
      | noFile target =>
        simp only [Answer.quiet?] at h
        split at h <;> simp at h
      | nowhere | leftOut target | file target via => simp [Answer.quiet?] at h
    rw [Setting.quietOf, List.mem_append, or_iff_left hrest, Option.mem_toList]
    constructor
    · intro h
      have hfile : file = p := by
        obtain ⟨l, -, hl⟩ := Option.map_eq_some_iff.mp h
        cases hread : s.disk.read file <;> simp [hread] at hl
        exact hl.1
      exact ⟨hfile, hfile ▸ h⟩
    · rintro ⟨rfl, h⟩
      exact h
  rw [quiet_mem_events_iff hd hseeds earlier rfl]
  simp only [hopened]
  simp

end

/-- **Discovery is exact.**  From tidy files, under whatever the matcher knows already, the files of
    the report are the least set that holds them and whatever its files lead to. -/
theorem files_isLeast {s : Setting} (hd : s.disk.HereNamed) {seeds : List Path}
    (hseeds : ∀ p ∈ seeds, p.Tidy) (rules : RuleCache) :
    IsLeast {S | s.Closed rules seeds S} {p | p ∈ (discover s seeds [] rules).files} := by
  have hfiles : {p | p ∈ (discover s seeds [] rules).files} = {p | s.Reached rules seeds p} :=
    Set.ext fun _ => mem_files_iff hd hseeds []
  rw [hfiles]
  exact s.isLeast_reached rules seeds

/-- A language that takes every line for a reference, and every reference for the name of a file. -/
def lineLanguage : Language where
  name := "lines"
  endings := [".txt"]
  scan := fun _ text => (Text.lines text).map .plain
  resolver := some fun _ site r => some (site.dir.child r.value)

/-- A project of three files: the second refers to the first, and the first to the third. -/
def chainSetting : Setting where
  disk := ⟨.file "a.txt" "c.txt".toUTF8
    (.file "b.txt" "a.txt".toUTF8 (.file "c.txt" "".toUTF8 .empty)), [], []⟩
  registry := ⟨[lineLanguage]⟩
  matcher := ⟨⟨"/"⟩, none, true, true⟩
  canonicalize := true

theorem chain_isLeast : chainSetting.disk.HereNamed ∧
    (∀ p ∈ [(⟨"/b.txt"⟩ : Path)], p.Tidy) ∧
    IsLeast {S | chainSetting.Closed [] [⟨"/b.txt"⟩] S}
      {p | p ∈ (discover chainSetting [⟨"/b.txt"⟩] [] []).files} := by
  have hd : chainSetting.disk.HereNamed := by simp [Disk.HereNamed, chainSetting]
  have hseeds : ∀ p ∈ [(⟨"/b.txt"⟩ : Path)], p.Tidy := by
    intro p hp
    rw [List.mem_singleton.mp hp]
    rfl
  exact ⟨hd, hseeds, files_isLeast hd hseeds []⟩

/-- A file that is also given with a slash behind it stands in its own way: under that spelling it
    cannot be read, yet it counts as visited, so what it leads to is missing. -/
theorem missing_behind_slash :
    (∀ S, chainSetting.Closed [] [⟨"/a.txt/"⟩, ⟨"/b.txt"⟩] S → ⟨"/c.txt"⟩ ∈ S) ∧
      isIn ⟨"/c.txt"⟩ (discover chainSetting [⟨"/a.txt/"⟩, ⟨"/b.txt"⟩] [] []).files = false := by
  have hba : chainSetting.Leads [] ⟨"/b.txt"⟩ ⟨"/a.txt"⟩ :=
    ⟨.plain "a.txt", by decide +kernel, ⟨"/a.txt"⟩, "lines", by decide +kernel, by decide +kernel,
      by decide +kernel, by decide +kernel⟩
  have hac : chainSetting.Leads [] ⟨"/a.txt"⟩ ⟨"/c.txt"⟩ :=
    ⟨.plain "c.txt", by decide +kernel, ⟨"/c.txt"⟩, "lines", by decide +kernel, by decide +kernel,
      by decide +kernel, by decide +kernel⟩
  refine ⟨fun S hS => ?_, by decide +kernel⟩
  exact hS.2 _ (hS.2 _ (hS.1 _ (by simp)) _ hba) _ hac

end SourceWeb.Discovery
