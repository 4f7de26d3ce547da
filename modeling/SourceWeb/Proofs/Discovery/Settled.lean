/-
  Paths that are known under themselves.

  An identity that is free of links stays as it is.  One that could not be freed is a normal
  spelling, and this may lead somewhere although the path did not: working off `..` takes back a
  name that nothing stands for.  Then it is freed the next time, and stays as it is from there on.
  Among the paths that a run tells of there are none like that, but for inputs that are missing,
  unless a language answers with one.
-/
import SourceWeb.Proofs.Discovery.Detour
import SourceWeb.Proofs.Discovery.Log
import SourceWeb.Proofs.Disk.Steps

namespace SourceWeb.Discovery

open SourceWeb.Path
open SourceWeb.Ignore (RuleCache Matcher)

namespace Setting

variable {s : Setting} {p q : Path}

/-! ### Identities of identities -/

/-- The path without links, if that is asked for and possible. -/
def freed? (s : Setting) (p : Path) : Option Path :=
  if s.canonicalize then (s.disk.canonical p).toOption else none

/-- Is the path known under one that is not known under itself?  It cannot be freed from links, and
    its normal spelling is relative, or can be freed after all. -/
def Unsettled (s : Setting) (p : Path) : Prop :=
  s.freed? (s.absoluteOf p) = none ∧
    ((s.absoluteOf p).isAbsolute = false ∧ (s.absoluteOf p).normal.text ≠ "" ∨
      ∃ q, s.freed? (s.absoluteOf p).normal = some q ∧ q ≠ (s.absoluteOf p).normal)

theorem identity_eq (s : Setting) (p : Path) :
    s.identity p = (s.freed? (s.absoluteOf p)).getD (s.absoluteOf p).normal := by
  rw [identity_eq_ite, freed?]
  cases s.canonicalize with
  | false => rfl
  | true => cases s.disk.canonical (s.absoluteOf p) <;> rfl

theorem absoluteOf_of_isAbsolute (h : p.isAbsolute = true) : s.absoluteOf p = p :=
  if_pos h

theorem identity_of_isAbsolute (h : p.isAbsolute = true) :
    s.identity p = (s.freed? p).getD p.normal := by
  rw [identity_eq, absoluteOf_of_isAbsolute h]

theorem freed?_eq_some_iff :
    s.freed? p = some q ↔ s.canonicalize = true ∧ s.disk.canonical p = .ok q := by
  rw [freed?]
  cases s.canonicalize with
  | false => simp
  | true => cases s.disk.canonical p <;> simp [Except.toOption]

theorem leadsTo_of_freed (h : s.freed? p = some q) :
    ∃ loc, s.disk.LeadsTo p loc ∧ q = Disk.pathOf loc :=
  Disk.exists_leadsTo_of_canonical (freed?_eq_some_iff.mp h).2

/-- What is free of links stays as it is. -/
theorem identity_of_freed (hd : s.disk.Proper) (hfits : s.disk.root.Fits) (h : s.freed? p = some q) :
    s.identity q = q := by
  obtain ⟨loc, hleads, rfl⟩ := leadsTo_of_freed h
  obtain ⟨e, hat, hlink⟩ := hleads.exists_entry
  have hfull : (Disk.pathOf loc).IsFull := Disk.isFull_pathOf (hd.root.of_at? hat).1
  rw [identity_of_isAbsolute hfull.absolute]
  cases hfreed : s.freed? (Disk.pathOf loc) with
  | none => exact hfull.normal
  | some r =>
    have hplace := Disk.leadsTo_pathOf hd hfits hat hlink
    exact hplace.eq_pathOf (freed?_eq_some_iff.mp hfreed).2

/-- An identity is its own identity, unless the path is unsettled. -/
theorem identity_identity_eq_iff (hd : s.disk.Proper) (hfits : s.disk.root.Fits) (p : Path) :
    s.identity (s.identity p) = s.identity p ↔ ¬ s.Unsettled p := by
  cases hfreed : s.freed? (s.absoluteOf p) with
  | some q =>
    have hidentity : s.identity p = q := by rw [identity_eq, hfreed]; rfl
    rw [hidentity, identity_of_freed hd hfits hfreed, Unsettled, hfreed]
    simp
  | none =>
    have hidentity : s.identity p = (s.absoluteOf p).normal := by rw [identity_eq, hfreed]; rfl
    rw [hidentity, Unsettled, hfreed]
    cases habs : (s.absoluteOf p).isAbsolute with
    | true =>
      rw [identity_of_isAbsolute (by rw [isAbsolute_normal, habs]), normal_normal]
      cases hnormal : s.freed? (s.absoluteOf p).normal <;> simp
    | false =>
      -- only the empty path, read from a relative root, has no absolute reading
      have hp : p.text = "" := by
        by_contra hne
        rw [isAbsolute_absoluteOf hne] at habs
        simp at habs
      by_cases hempty : (s.absoluteOf p).normal.text = ""
      · have hself : (s.absoluteOf p).normal = p := ext_text (hempty.trans hp.symm)
        have hlost : s.freed? p = none := by
          rw [Option.eq_none_iff_forall_ne_some]
          intro q hq
          obtain ⟨loc, hleads, -⟩ := leadsTo_of_freed hq
          exact hleads.text hp
        rw [hself, hidentity, hself, hlost]
        simp [hp]
      · have hnext := (isFull_identity hd.here
          (isAbsolute_absoluteOf (s := s) (p := (s.absoluteOf p).normal) hempty)).absolute
        constructor
        · intro heq
          rw [heq, isAbsolute_normal, habs] at hnext
          simp at hnext
        · intro h
          exact absurd ⟨rfl, .inl ⟨rfl, hempty⟩⟩ h

/-- Full paths are settled. -/
theorem not_unsettled_of_isFull (hp : p.IsFull) : ¬ s.Unsettled p := by
  rw [Unsettled, absoluteOf_of_isAbsolute hp.absolute, hp.normal, hp.absolute]
  rintro ⟨hlost, ⟨hrel, -⟩ | ⟨q, hq, -⟩⟩
  · simp at hrel
  · rw [hlost] at hq
    simp at hq

/-- The identity of an unsettled path is relative, or leads somewhere. -/
theorem Unsettled.leadsTo_identity (h : s.Unsettled p) :
    (s.identity p).isAbsolute = false ∨ ∃ loc, s.disk.LeadsTo (s.identity p) loc := by
  obtain ⟨hlost, hnext⟩ := h
  have hidentity : s.identity p = (s.absoluteOf p).normal := by rw [identity_eq, hlost]; rfl
  rw [hidentity]
  rcases hnext with ⟨hrel, -⟩ | ⟨q, hq, -⟩
  · exact .inl (by rw [isAbsolute_normal, hrel])
  · obtain ⟨loc, hleads, -⟩ := leadsTo_of_freed hq
    exact .inr ⟨loc, hleads⟩

/-! ### The paths that a run tells of -/

/-- Is a reference of the file `source` resolved to the path `found`? -/
def ResolvesTo (s : Setting) (source found : Path) : Prop :=
  ∃ r ∈ s.referencesOf source, ∃ via, s.resolve (s.siteOf source) r = some (found, via)

/-- Is the path that of a file that can be reached, or what a reference of such a file comes to? -/
def Met (s : Setting) (rules : RuleCache) (seeds : List Path) (p : Path) : Prop :=
  s.Reached rules seeds p ∨
    ∃ source, s.Reached rules seeds source ∧ ∃ found, s.ResolvesTo source found ∧ p = s.identity found

variable {rules : RuleCache} {seeds : List Path}

theorem Met.mono {seeds' : List Path} (h : ∀ p ∈ seeds, p ∈ seeds') (hp : s.Met rules seeds p) :
    s.Met rules seeds' p := by
  rcases hp with hp | ⟨source, hsource, hfound⟩
  · exact .inl (hp.mono h)
  · exact .inr ⟨source, hsource.mono h, hfound⟩

end Setting

def Event.paths : Event → List Path
  | .missingInput path => [path]
  | .seeded path _ => [path]
  | .scanned path _ _ => [path]
  | .resolved source _ target _ => [source, target]
  | .unresolved source _ => [source]
  | .excluded source path => [source, path]
  | .notAFile source path => [source, path]
  | .readFailed path _ => [path]

theorem Answer.mem_paths_outcome {s : Setting} {rules : RuleCache} {site : Site} {source p : Path}
    {r : Reference} (h : p ∈ ((s.answer rules site r).outcome source r).paths) :
    p = source ∨ ∃ found via, s.resolve site r = some (found, via) ∧ p = s.identity found := by
  unfold Setting.answer at h
  cases hresolve : s.resolve site r with
  | none =>
    rw [hresolve] at h
    exact .inl (List.mem_singleton.mp h)
  | some found =>
    obtain ⟨found, via⟩ := found
    rw [hresolve] at h
    have hpaths : p ∈ [source, s.identity found] := by
      dsimp only at h
      split at h
      · exact h
      · split at h <;> exact h
    rcases List.mem_cons.mp hpaths with rfl | hpaths
    · exact .inl rfl
    · exact .inr ⟨found, via, rfl, List.mem_singleton.mp hpaths⟩

section

variable {s : Setting} {rules : RuleCache} {seeds done found : List Path} {earlier : List Event}
  {st : State}

/-- What a step tells of are files that can be reached, and what their references come to. -/
theorem Exact.met_step (hprogress : Progress s seeds earlier done found st)
    (hexact : Exact s rules seeds earlier done found st) {file : Path} {queue : List Path}
    (hqueue : st.queue = file :: queue) {e : Event}
    (he : e ∈ (s.opening file).toList ++ Answer.events file st.visited (s.answersOf rules file)) :
    ∀ p ∈ e.paths, s.Met rules seeds p := by
  have hfile : s.Reached rules seeds file := by
    have hmem : file ∈ seeds ++ found := by
      rw [← hprogress.queue, hqueue]
      simp
    rcases List.mem_append.mp hmem with hmem | hmem
    · exact .seed hmem
    · exact hexact.reached file hmem
  intro p hp
  rcases List.mem_append.mp he with he | he
  · have hpaths : e.paths = [file] := by
      obtain ⟨l, -, rfl⟩ := Option.map_eq_some_iff.mp (Option.mem_toList.mp he)
      cases s.disk.read file <;> rfl
    rw [hpaths, List.mem_singleton] at hp
    exact .inl (hp ▸ hfile)
  · obtain ⟨r, a, ha, rfl⟩ := Answer.exists_outcome_of_mem_events he
    obtain ⟨r', hr, heq⟩ := List.mem_map.mp ha
    obtain ⟨rfl, rfl⟩ := Prod.mk.inj heq
    rcases Answer.mem_paths_outcome hp with rfl | ⟨found, via, hfound, hid⟩
    · exact .inl hfile
    · exact .inr ⟨file, hfile, found, ⟨r', hr, via, hfound⟩, hid⟩

/-- So is all that a run tells of. -/
theorem met_of_mem_events (hd : s.disk.HereNamed) (hseeds : ∀ p ∈ seeds, p.Tidy) {e : Event}
    (he : e ∈ (discover s seeds earlier rules).events) :
    e ∈ earlier ∨ ∀ p ∈ e.paths, s.Met rules seeds p := by
  have hdistinct : ∀ p ∈ distinct seeds, p.Tidy := fun p hp => hseeds p (mem_of_mem_distinct hp)
  obtain ⟨found, st, ⟨-, -, hmet⟩, heq, -⟩ := discover_keeps
    (P := fun done found st => Progress s (distinct seeds) earlier done found st ∧
      Exact s rules (distinct seeds) earlier done found st ∧
      ∀ e ∈ st.events, e ∈ earlier ∨ ∀ p ∈ e.paths, s.Met rules (distinct seeds) p)
    (fun _ _ _ h => h.1)
    ⟨Progress.start (apart_distinct seeds) rules, Exact.start (apart_distinct seeds) earlier, by
      intro e he
      rw [State.start_eq (apart_distinct seeds)] at he
      rcases List.mem_append.mp he with he | he
      · exact .inl he
      · obtain ⟨p, hp, rfl⟩ := List.mem_map.mp he
        right
        intro q hq
        rw [List.mem_singleton.mp hq]
        exact .inl (.seed hp)⟩
    fun _ _ _ _ _ h hqueue => by
      obtain ⟨hprogress, hexact, hmet⟩ := h
      obtain ⟨new, -, hevents, hnext⟩ := Exact.step hprogress hexact hd hdistinct hqueue
      refine ⟨new, hnext.1, hnext.2, ?_⟩
      intro e he
      rw [hevents, List.append_assoc] at he
      rcases List.mem_append.mp he with he | he
      · exact hmet e he
      · exact .inr (Exact.met_step hprogress hexact hqueue he)
  rw [heq] at he
  rcases hmet e he with hearlier | hpaths
  · exact .inl hearlier
  · right
    intro p hp
    exact (hpaths p hp).mono fun q => mem_of_mem_distinct

end

/-- The paths of the files of a report, and those that its events tell of. -/
def Report.paths (report : Report) : List Path :=
  report.files ++ report.events.flatMap Event.paths

namespace Setting

variable {s : Setting} {rules : RuleCache} {seeds : List Path} {p : Path}

/-- Is the path known from a walk from the empty path, which stands for a relative root, because the
    walk lists an unsettled path? -/
def ListedUnsettled (s : Setting) (inputs : List Path) (p : Path) : Prop :=
  s.root.isAbsolute = false ∧ ⟨""⟩ ∈ inputs ∧
    ∃ found ∈ s.matcher.listed s.disk (s.identity ⟨""⟩), p = s.identity found ∧ s.Unsettled found

theorem identity_of_mem_filesOf (hd : s.disk.Proper) (hfits : s.disk.root.Fits)
    {inputs : List Path} {input : Path} (hinput : input ∈ inputs) (h : p ∈ s.filesOf input) :
    s.identity p = p ∨ s.ListedUnsettled inputs p := by
  obtain ⟨q, hq, rfl⟩ := List.mem_map.mp h
  by_cases hunsettled : s.Unsettled q
  · right
    have hrel : (s.absoluteOf input).isAbsolute ≠ true := fun habs =>
      not_unsettled_of_isFull ((leadsToFile_of_mem_listed hd hfits hq).2
        (isFull_identity hd.here habs)) hunsettled
    have hempty : input = ⟨""⟩ := by
      by_contra hne
      exact hrel (isAbsolute_absoluteOf fun htext => hne (ext_text htext))
    have hroot : s.root.isAbsolute = false := by
      rw [← Bool.not_eq_true]
      exact fun hroot => hrel (isAbsolute_absoluteOf_of_root hroot input)
    subst hempty
    exact ⟨hroot, hinput, q, hq, rfl, hunsettled⟩
  · exact .inl ((identity_identity_eq_iff hd hfits q).mpr hunsettled)

theorem identity_of_missing (hd : s.disk.Proper) (hfits : s.disk.root.Fits) {inputs : List Path}
    (h : .missingInput p ∈ s.missing inputs) :
    s.identity p = p ∨ p.isAbsolute = false ∨ Disk.pathLimit < p.text.utf8ByteSize := by
  obtain ⟨input, hinput, heq⟩ := List.mem_map.mp h
  obtain rfl := Event.missingInput.inj heq
  by_cases hunsettled : s.Unsettled input
  · right
    rcases hunsettled.leadsTo_identity with hrel | ⟨loc, hleads⟩
    · exact .inl hrel
    · right
      by_contra hsize
      -- an input that leads somewhere and can be looked up is not missing
      obtain ⟨e, hat, -⟩ := hleads.exists_entry
      have hentry := hleads.entry?_eq_ok hat (Nat.le_of_not_lt hsize)
      have hexists := (List.mem_filter.mp hinput).2
      rw [Disk.exists, hentry] at hexists
      simp [Except.isOk, Except.toBool] at hexists
  · exact .inl ((identity_identity_eq_iff hd hfits input).mpr hunsettled)

theorem isAbsolute_of_missing (hd : s.disk.HereNamed) (hroot : s.root.isAbsolute = true)
    {inputs : List Path} (h : .missingInput p ∈ s.missing inputs) : p.isAbsolute = true := by
  obtain ⟨input, -, heq⟩ := List.mem_map.mp h
  obtain rfl := Event.missingInput.inj heq
  exact (isFull_identity_of_root hd hroot input).absolute

/-- What is met is a file that a run starts from, or what a reference comes to. -/
theorem Met.mem_or_exists (h : s.Met rules seeds p) : p ∈ seeds ∨
    ∃ source, s.Reached rules seeds source ∧ ∃ found, s.ResolvesTo source found ∧
      p = s.identity found := by
  rcases h with hreached | hresolved
  · cases hreached with
    | seed hp => exact .inl hp
    | follow hf hleads =>
      obtain ⟨r, hr, found, via, hfound, hp, -⟩ := hleads
      exact .inr ⟨_, hf, found, ⟨r, hr, via, hfound⟩, hp⟩
  · exact .inr hresolved

/-- It is known under itself, unless it is not as one of these files, or a reference was resolved to
    an unsettled path. -/
theorem Met.identity_eq_or (hd : s.disk.Proper) (hfits : s.disk.root.Fits)
    (h : s.Met rules seeds p) : s.identity p = p ∨ p ∈ seeds ∨
      ∃ source, s.Reached rules seeds source ∧ ∃ found, s.ResolvesTo source found ∧
        p = s.identity found ∧ s.Unsettled found := by
  rcases h.mem_or_exists with hp | ⟨source, hsource, found, hfound, rfl⟩
  · exact .inr (.inl hp)
  · by_cases hunsettled : s.Unsettled found
    · exact .inr (.inr ⟨source, hsource, found, hfound, rfl, hunsettled⟩)
    · exact .inl ((identity_identity_eq_iff hd hfits found).mpr hunsettled)

/-- A language known from the start does not answer with an unsettled path. -/
theorem ResolvesTo.not_unsettled (hroot : s.root.isAbsolute = true)
    (hlanguages : ∀ l ∈ s.registry.languages, l ∈ Registry.builtinLanguages) {source found : Path}
    (hsource : source.isAbsolute = true) (h : s.ResolvesTo source found) : ¬ s.Unsettled found := by
  obtain ⟨r, -, via, hfound⟩ := h
  exact not_unsettled_of_isFull
    (tested_of_resolve hlanguages (absolute_siteOf hroot hsource) hfound).isFull

end Setting

/-- What a report tells of was missing, or is met in the run from the files of the inputs. -/
theorem missing_or_met_of_mem_paths {s : Setting} (hd : s.disk.Proper) {order : SeedOrder}
    {inputs : List Path} {report : Report} (hreport : fromInputs s order inputs = .ok report)
    {p : Path} (hp : p ∈ report.paths) :
    (.missingInput p ∈ report.events ∧ .missingInput p ∈ s.missing inputs) ∨
      s.Met (seedsOf s order inputs).rules (seedsOf s order inputs).files p := by
  have hof := seedsOf_of hd order inputs
  have htidy := hof.tidy hd
  have heq := eq_discover_of_fromInputs hreport
  rcases List.mem_append.mp hp with hp | hp
  · rw [heq, mem_files_iff hd.here htidy] at hp
    exact .inr (.inl hp)
  · obtain ⟨e, he, hpath⟩ := List.mem_flatMap.mp hp
    rcases met_of_mem_events hd.here htidy (heq ▸ he) with hmissing | hmet
    · left
      obtain ⟨q, rfl⟩ := hof.missing_events e hmissing
      rw [List.mem_singleton.mp hpath]
      exact ⟨he, hof.missing ▸ hmissing⟩
    · exact .inr (hmet p hpath)

/-- **What is known, is known under itself.**  An identity is its own identity, unless the path is
    unsettled: it cannot be freed from links, but its normal spelling can, and is another path then;
    or it is the empty path, and the root of the project is relative.  Even then nothing changes
    after one more step.  The paths that a report tells of are their own identities, but for missing
    inputs that are relative or too long to be looked up, answers of languages that are unsettled,
    and unsettled paths that are listed from the empty input below a relative root.  The languages
    known from the start do not give such answers. -/
theorem identity_identity {s : Setting} (hd : s.disk.Proper) (hfits : s.disk.root.Fits) :
    (∀ p, s.identity (s.identity p) = s.identity p ↔ ¬ s.Unsettled p) ∧
    (∀ p, p.text ≠ "" ∨ s.root.isAbsolute = true →
      s.identity (s.identity (s.identity p)) = s.identity (s.identity p)) ∧
    ∀ order inputs report, fromInputs s order inputs = .ok report → ∀ p ∈ report.paths,
      (s.identity p = p ∨
        (.missingInput p ∈ report.events ∧
          (p.isAbsolute = false ∨ Disk.pathLimit < p.text.utf8ByteSize)) ∨
        (∃ source ∈ report.files, ∃ found, s.ResolvesTo source found ∧ p = s.identity found ∧
          s.Unsettled found) ∨
        s.ListedUnsettled inputs p) ∧
      (s.root.isAbsolute = true →
        (∀ l ∈ s.registry.languages, l ∈ Registry.builtinLanguages) →
        s.identity p = p ∨
          .missingInput p ∈ report.events ∧ Disk.pathLimit < p.text.utf8ByteSize) := by
  refine ⟨Setting.identity_identity_eq_iff hd hfits, ?_, ?_⟩
  · intro p hp
    refine (Setting.identity_identity_eq_iff hd hfits _).mpr
      (Setting.not_unsettled_of_isFull (Setting.isFull_identity hd.here ?_))
    rcases hp with hp | hroot
    · exact Setting.isAbsolute_absoluteOf hp
    · exact Setting.isAbsolute_absoluteOf_of_root hroot p
  · intro order inputs report hreport p hp
    have hof := seedsOf_of hd order inputs
    have hfiles : ∀ source, s.Reached (seedsOf s order inputs).rules (seedsOf s order inputs).files
        source ↔ source ∈ report.files := by
      intro source
      rw [eq_discover_of_fromInputs hreport, mem_files_iff hd.here (hof.tidy hd)]
    rcases missing_or_met_of_mem_paths hd hreport hp with ⟨hevent, hmissing⟩ | hmet
    · have hself := Setting.identity_of_missing hd hfits hmissing
      constructor
      · rcases hself with hself | hlost
        · exact .inl hself
        · exact .inr (.inl ⟨hevent, hlost⟩)
      · intro hroot _
        rcases hself with hself | hrel | hsize
        · exact .inl hself
        · rw [Setting.isAbsolute_of_missing hd.here hroot hmissing] at hrel
          simp at hrel
        · exact .inr ⟨hevent, hsize⟩
    · rcases hmet.identity_eq_or hd hfits with hself | hseed | ⟨source, hsource, hanswer⟩
      · exact ⟨.inl hself, fun _ _ => .inl hself⟩
      · obtain ⟨input, hinput, hfile⟩ := (hof.files p).mp hseed
        rcases Setting.identity_of_mem_filesOf hd hfits hinput hfile with hself | hlisted
        · exact ⟨.inl hself, fun _ _ => .inl hself⟩
        · refine ⟨.inr (.inr (.inr hlisted)), fun hroot => ?_⟩
          rw [hlisted.1] at hroot
          simp at hroot
      · refine ⟨.inr (.inr (.inl ⟨source, (hfiles source).mp hsource, hanswer⟩)), ?_⟩
        intro hroot hlanguages
        obtain ⟨found, hfound, -, hunsettled⟩ := hanswer
        have habs := hsource.isAbsolute hd.here hroot (hof.isAbsolute hd.here hroot)
        exact absurd hunsettled (hfound.not_unsettled hroot hlanguages habs)

/-- A project with a link to a file. -/
def linkedSetting : Setting where
  disk := ⟨.folder "p" (.file "a.txt" "".toUTF8 (.link "link" "a.txt" .empty)) .empty, [], []⟩
  registry := .builtin
  matcher := ⟨⟨"/p"⟩, none, true, true⟩
  canonicalize := true

/-- Under a name that is taken back the link is known as it is spelled, and that path as the
    file. -/
theorem identity_identity_ne_identity :
    linkedSetting.identity (linkedSetting.identity ⟨"/p/missing/../link"⟩) ≠
      linkedSetting.identity ⟨"/p/missing/../link"⟩ := by
  decide +kernel

theorem linked_identity : linkedSetting.disk.Proper ∧ linkedSetting.disk.root.Fits ∧
    linkedSetting.Unsettled ⟨"/p/missing/../link"⟩ ∧
    linkedSetting.identity (linkedSetting.identity (linkedSetting.identity ⟨"/p/missing/../link"⟩)) =
      linkedSetting.identity (linkedSetting.identity ⟨"/p/missing/../link"⟩) ∧
    ∃ report, fromInputs linkedSetting .listed [⟨"/p/missing/../link"⟩] = .ok report ∧
      ⟨"/p/a.txt"⟩ ∈ report.files ∧ linkedSetting.identity ⟨"/p/a.txt"⟩ = ⟨"/p/a.txt"⟩ := by
  have hd : linkedSetting.disk.Proper := by
    constructor
    · simp [linkedSetting, Folder.Proper, IsName, Text.Holds, Folder.get?, Folder.entries]
    · simp [linkedSetting, Disk.HereNamed]
  have hfits : linkedSetting.disk.root.Fits := by
    intro name hname
    have hmem : name = "p" ∨ name = "a.txt" ∨ name = "link" := by
      simpa [linkedSetting, Folder.allNames] using hname
    rcases hmem with rfl | rfl | rfl <;> exact ⟨by simp [Text.Holds], by decide⟩
  have hinput : ∀ input ∈ [(⟨"/p/missing/../link"⟩ : Path)],
      linkedSetting.disk.exists (linkedSetting.identity input) = true := by
    decide +kernel
  have hreport := fromInputs_eq hd .listed hinput
  have hof := seedsOf_of hd .listed [⟨"/p/missing/../link"⟩]
  obtain ⟨honce, htwice, hpaths⟩ := identity_identity hd hfits
  have hunsettled : linkedSetting.Unsettled ⟨"/p/missing/../link"⟩ := by
    by_contra hsettled
    exact absurd ((honce _).mpr hsettled) (by decide +kernel)
  have hfile : ⟨"/p/a.txt"⟩ ∈ (discover linkedSetting
      (seedsOf linkedSetting .listed [⟨"/p/missing/../link"⟩]).files []
      (seedsOf linkedSetting .listed [⟨"/p/missing/../link"⟩]).rules).files :=
    (mem_files_iff hd.here (hof.tidy hd) []).mpr (.seed (by decide +kernel))
  refine ⟨hd, hfits, hunsettled, htwice _ (.inl (by decide)), _, hreport, hfile, ?_⟩
  rcases (hpaths _ _ _ hreport _ (List.mem_append_left _ hfile)).2 rfl fun l hl => hl with
    hself | ⟨-, hsize⟩
  · exact hself
  · exact absurd hsize (by decide)

end SourceWeb.Discovery
