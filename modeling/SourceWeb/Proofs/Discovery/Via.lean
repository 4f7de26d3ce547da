/-
  What a reference was resolved by.

  The references of a file are looked up as relative paths or by the language that the file was
  scanned by, never by another language, also where two languages use the same kind of reference.
-/
import SourceWeb.Proofs.Discovery.Progress
import SourceWeb.Proofs.Language.Claim

namespace SourceWeb.Discovery

open SourceWeb.Ignore (RuleCache Matcher)

namespace Setting

variable {s : Setting}

/-! ### Looking up -/

/-- What finds a file is the reference as a relative path, or a language that looks up references
    and finds this file. -/
theorem via_of_resolve {site : Site} {r : Reference} {found : Path} {via : String}
    (h : s.resolve site r = some (found, via)) :
    via = "relative" ∨ ∃ l ∈ s.registry.languages, ∃ look, l.resolver = some look ∧
      look s.disk site r = some found ∧ via = l.name := by
  unfold resolve at h
  dsimp only at h
  split at h
  · cases h
    exact .inl rfl
  · obtain ⟨l, hl, hlook⟩ := List.exists_of_findSome?_eq_some h
    cases hresolver : l.resolver with
    | none => simp [hresolver] at hlook
    | some look =>
      simp only [hresolver, Option.map_eq_some_iff, Prod.mk.injEq] at hlook
      obtain ⟨p, hp, rfl, rfl⟩ := hlook
      exact .inr ⟨l, Registry.mem_languages_of_mem_resolvers hl, look, hresolver, hp, rfl⟩

theorem resolve_of_answer {rules : RuleCache} {site : Site} {r : Reference} {target : Path}
    {via : String} (h : s.answer rules site r = .file target via) :
    ∃ found, s.resolve site r = some (found, via) := by
  unfold answer at h
  cases hresolve : s.resolve site r with
  | none => simp [hresolve] at h
  | some found =>
    obtain ⟨p, via'⟩ := found
    simp only [hresolve] at h
    split at h
    · simp at h
    · split at h
      · cases h
        exact ⟨p, rfl⟩
      · simp at h

/-- Are references in files of a language resolved as relative paths or by this language only? -/
def StaysWithin (s : Setting) : Prop :=
  ∀ site r found via l, s.resolve site r = some (found, via) →
    s.registry.languageOf? site.file = some l → via = "relative" ∨ via = l.name

theorem staysWithin_of_builtin {disabled : List String}
    (h : s.registry = Registry.builtinWithout disabled) : s.StaysWithin := by
  intro site r found via l hresolve hl
  rcases via_of_resolve hresolve with hvia | ⟨l', hl', look, hlook, hfound, rfl⟩
  · exact .inl hvia
  · right
    by_contra hne
    rw [h] at hl hl'
    rw [Registry.look_eq_none hl (Registry.mem_builtinLanguages_of_without hl') hne hlook] at hfound
    simp at hfound

end Setting

/-! ### The log -/

/-- Is every file that is told of as scanned in the log told of by the name of its language, and was
    every reference in it that is told of as resolved found as a relative path or by the language
    that the file was scanned by? -/
structure ViaOwn (s : Setting) (events : List Event) : Prop where
  scanned : ∀ file language n, .scanned file language n ∈ events →
    ∃ l, s.registry.languageOf? file = some l ∧ language = l.name
  resolved : ∀ source reference target via, .resolved source reference target via ∈ events →
    ∃ l n, s.registry.languageOf? source = some l ∧ .scanned source l.name n ∈ events ∧
      (via = "relative" ∨ via = l.name)

namespace ViaOwn

variable {s : Setting} {events : List Event} {e : Event}

/-- An event that tells neither of a scan nor of a file that was reached says nothing about it. -/
theorem concat (h : ViaOwn s events) (hscanned : e.isScanned = false)
    (hresolved : ∀ source reference target via, e = .resolved source reference target via →
      ∃ l n, s.registry.languageOf? source = some l ∧ .scanned source l.name n ∈ events ∧
        (via = "relative" ∨ via = l.name)) : ViaOwn s (events ++ [e]) := by
  refine ⟨fun file language n hmem => ?_, fun source reference target via hmem => ?_⟩
  · rcases List.mem_append.mp hmem with hmem | hmem
    · exact h.scanned file language n hmem
    · rw [← List.mem_singleton.mp hmem] at hscanned
      simp [Event.isScanned] at hscanned
  · have hold : ∃ l n, s.registry.languageOf? source = some l ∧ .scanned source l.name n ∈ events ∧
        (via = "relative" ∨ via = l.name) := by
      rcases List.mem_append.mp hmem with hmem | hmem
      · exact h.resolved source reference target via hmem
      · exact hresolved source reference target via (List.mem_singleton.mp hmem).symm
    obtain ⟨l, n, hl, hscan, hvia⟩ := hold
    exact ⟨l, n, hl, List.mem_append_left _ hscan, hvia⟩

/-- A scan by the language of the file is what the log asks for. -/
theorem concat_scanned (h : ViaOwn s events) {file : Path} {l : Language}
    (hl : s.registry.languageOf? file = some l) (n : Nat) :
    ViaOwn s (events ++ [.scanned file l.name n]) := by
  refine ⟨fun file' language n' hmem => ?_, fun source reference target via hmem => ?_⟩
  · rcases List.mem_append.mp hmem with hmem | hmem
    · exact h.scanned file' language n' hmem
    · cases List.mem_singleton.mp hmem
      exact ⟨l, hl, rfl⟩
  · rcases List.mem_append.mp hmem with hmem | hmem
    · obtain ⟨l', n', hl', hscan, hvia⟩ := h.resolved source reference target via hmem
      exact ⟨l', n', hl', List.mem_append_left _ hscan, hvia⟩
    · simp at hmem

end ViaOwn

/-! ### Runs -/

theorem Answer.of_event? {source : Path} {visited : List Path} {r : Reference} {a : Answer}
    {e : Event} (h : a.event? source visited r = some e) : e.isScanned = false ∧
      ∀ source' reference target via, e = .resolved source' reference target via →
        source' = source ∧ a = .file target via := by
  cases a with
  | nowhere =>
    cases h
    exact ⟨rfl, by simp⟩
  | leftOut target =>
    cases h
    exact ⟨rfl, by simp⟩
  | noFile target =>
    rw [event?, Option.ite_none_left_eq_some] at h
    cases h.2
    exact ⟨rfl, by simp⟩
  | file target via =>
    rw [event?, Option.ite_none_left_eq_some] at h
    cases h.2
    refine ⟨rfl, fun source' reference target' via' heq => ?_⟩
    cases heq
    exact ⟨rfl, rfl⟩

namespace State

variable {s : Setting} {st : State}

/-- Was the file scanned by its language? -/
def ScannedByOwn (s : Setting) (events : List Event) (file : Path) : Prop :=
  ∃ l n, s.registry.languageOf? file = some l ∧ .scanned file l.name n ∈ events

theorem viaOwn_follow (hs : s.StaysWithin) {site : Site} (h : ViaOwn s st.events)
    (hscan : ScannedByOwn s st.events site.file) (r : Reference) :
    ViaOwn s (follow s site st r).events ∧
      ScannedByOwn s (follow s site st r).events site.file := by
  obtain ⟨l, n, hl, hmem⟩ := hscan
  rw [follow_eq, take_eq]
  refine ⟨?_, l, n, hl, List.mem_append_left _ hmem⟩
  dsimp only
  cases hevent : (s.answer st.rules site r).event? site.file st.visited r with
  | none => simpa using h
  | some e =>
    obtain ⟨hnoScan, hfile⟩ := Answer.of_event? hevent
    refine h.concat hnoScan fun source reference target via he => ?_
    obtain ⟨rfl, hanswer⟩ := hfile source reference target via he
    obtain ⟨found, hresolve⟩ := Setting.resolve_of_answer hanswer
    exact ⟨l, n, hl, hmem, hs site r found via l hresolve hl⟩

theorem viaOwn_foldl_follow (hs : s.StaysWithin) {site : Site} (references : List Reference)
    (h : ViaOwn s st.events) (hscan : ScannedByOwn s st.events site.file) :
    ViaOwn s (references.foldl (follow s site) st).events := by
  induction references generalizing st with
  | nil => exact h
  | cons r references ih =>
    obtain ⟨hnext, hscan⟩ := viaOwn_follow hs h hscan r
    exact ih hnext hscan

/-- One step: a file is scanned by its own language before its references are followed. -/
theorem viaOwn_step (hs : s.StaysWithin) (h : ViaOwn s st.events) {file : Path}
    {queue : List Path} (hqueue : st.queue = file :: queue) :
    ViaOwn s (step s st).events := by
  cases hlanguage : s.registry.languageOf? file with
  | none =>
    rw [step_of_unrecognized hqueue hlanguage]
    exact h
  | some l =>
    cases hread : s.disk.read file with
    | error e =>
      rw [step_of_unread hqueue hlanguage hread]
      exact h.concat rfl (by simp)
    | ok bytes =>
      obtain ⟨⟨aliases, cache⟩, hasked⟩ :
          ∃ asked, (Alias.forFile s.disk s.root file).run st.aliases = asked := ⟨_, rfl⟩
      rw [step_of_read hqueue hlanguage hread hasked]
      refine viaOwn_foldl_follow hs _ (h.concat_scanned hlanguage _) ?_
      exact ⟨l, (s.referencesOf file).length, hlanguage, by simp⟩

theorem viaOwn_start (missing seeds : List Path) (rules : RuleCache) :
    ViaOwn s (start s (Path.distinct seeds) (missing.map .missingInput) rules).events := by
  rw [start_eq (Path.apart_distinct seeds)]
  constructor <;> simp

end State

/-- **References stay within the language of their file.**  In every run with languages known from
    the start, whichever are left out, a reference that leads to a file was found as a relative path
    or by the language that its own file was scanned by.  For whatever file and reference, none of
    the other languages answers. -/
theorem resolved_via_own_language (disk : Disk) (disabled : List String) (matcher : Matcher)
    (canonicalize : Bool) (seeds missing : List Path) (rules : RuleCache) :
    let s : Setting := ⟨disk, .builtinWithout disabled, matcher, canonicalize⟩
    let report := discover s seeds (missing.map .missingInput) rules
    (∀ source reference target via, .resolved source reference target via ∈ report.events →
      (∃ language n, .scanned source language n ∈ report.events) ∧
        ∀ language n, .scanned source language n ∈ report.events →
          via = "relative" ∨ via = language) ∧
    ∀ (site : Site) (l : Language), s.registry.languageOf? site.file = some l →
      ∀ l' ∈ Registry.builtinLanguages, l'.name ≠ l.name → ∀ look, l'.resolver = some look →
        ∀ reference, look disk site reference = none := by
  intro s report
  refine ⟨?_, fun site l hl l' hl' hne look hlook =>
    Registry.look_eq_none hl hl' hne hlook disk⟩
  have hs : s.StaysWithin := Setting.staysWithin_of_builtin rfl
  obtain ⟨found, st, ⟨-, hown⟩, heq, -⟩ := discover_keeps
    (P := fun done found st =>
      Progress s (Path.distinct seeds) (missing.map .missingInput) done found st ∧
        ViaOwn s st.events)
    (fun _ _ _ h => h.1)
    ⟨Progress.start (Path.apart_distinct seeds) rules, State.viaOwn_start missing seeds rules⟩
    fun _ _ _ _ _ h hqueue => by
      obtain ⟨answers, hnext, -, -⟩ := h.1.step hqueue
      exact ⟨_, hnext, State.viaOwn_step hs h.2 hqueue⟩
  have hevents : report.events = st.events := by
    rw [show report = st.report from heq]
    rfl
  rw [hevents]
  intro source reference target via hmem
  obtain ⟨l, n, hl, hscan, hvia⟩ := hown.resolved source reference target via hmem
  refine ⟨⟨l.name, n, hscan⟩, fun language n' hscan' => ?_⟩
  obtain ⟨l', hl', rfl⟩ := hown.scanned source language n' hscan'
  rw [hl, Option.some.injEq] at hl'
  rw [← hl']
  exact hvia

end SourceWeb.Discovery
