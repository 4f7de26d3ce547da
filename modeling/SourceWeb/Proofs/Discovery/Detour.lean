/-
  Found and lost again.

  A language gives the normal spelling of the path that it tested, and a run goes on with the
  identity of that.  Both are the file that was tested, unless the path goes up again behind a link:
  then another file is found, or none, and the run reports that its target is no file.
-/
import SourceWeb.Proofs.Discovery.Canonical

namespace SourceWeb

open SourceWeb.Path
open SourceWeb.Ignore (RuleCache Matcher)

namespace Discovery

namespace Setting

variable {s : Setting} {rules : RuleCache}

/-- How a reference can lead to something that is no file although what it was resolved to was
    tested before: by a detour. -/
def Lost (s : Setting) (found : Path) : Prop :=
  ∃ tested, tested.isAbsolute = true ∧ s.disk.isFile tested = true ∧ found = tested.normal ∧
    s.disk.Detours tested

/-- A file in normal spelling is not lost. -/
theorem isFile_identity (hd : s.disk.Proper) (hfits : s.disk.root.Fits) {p : Path} (hp : p.IsFull)
    (hfile : s.disk.isFile p = true) : s.disk.isFile (s.identity p) = true := by
  obtain ⟨content, hentry⟩ := Disk.isFile_iff.mp hfile
  obtain ⟨loc, hleads, hat⟩ := Disk.leadsTo_of_entry? hentry
  rw [identity_eq_ite, absoluteOf, if_pos hp.absolute, hp.normal]
  split
  · cases hcanonical : s.disk.canonical p with
    | ok q =>
      have hsize := Disk.size_canonical_le hp.absolute hcanonical
      rw [hleads.eq_pathOf hcanonical] at hsize ⊢
      have hplace := Disk.leadsTo_pathOf hd hfits hat (by simp)
      exact Disk.isFile_iff.mpr ⟨content, hplace.entry?_eq_ok hat hsize⟩
    | error e => exact hfile
  · exact hfile

theorem lost_of_tested (hd : s.disk.Proper) (hfits : s.disk.root.Fits) {found : Path}
    (h : s.disk.Tested found) (hfile : s.disk.isFile (s.identity found) = false) :
    s.Lost found := by
  have hfull := h.isFull
  obtain ⟨tested, habs, htested, rfl⟩ := h
  refine ⟨tested, habs, htested, rfl, by_contra fun hdirect => ?_⟩
  obtain ⟨hnormal, -⟩ := Disk.isFile_normal habs htested hdirect
  rw [isFile_identity hd hfits hfull hnormal] at hfile
  simp at hfile

theorem notAFile_mem_quietOf_iff {known : List Path} {file source target : Path} :
    .notAFile source target ∈ s.quietOf rules known file ↔ file = source ∧
      target.isIn known = false ∧ ∃ r, (r, .noFile target) ∈ s.answersOf rules file := by
  have hopening : .notAFile source target ∉ (s.opening file).toList := by
    rw [opening]
    cases s.registry.languageOf? file with
    | none => simp
    | some l => cases s.disk.read file <;> simp
  rw [quietOf, List.mem_append, or_iff_right hopening, List.mem_filterMap]
  constructor
  · rintro ⟨⟨r, a⟩, ha, hquiet⟩
    cases a with
    | nowhere | leftOut u | file u via => simp [Answer.quiet?] at hquiet
    | noFile u =>
      rw [Answer.quiet?, Option.ite_none_left_eq_some] at hquiet
      obtain ⟨hnew, heq⟩ := hquiet
      cases heq
      exact ⟨rfl, by simpa using hnew, r, ha⟩
  · rintro ⟨rfl, hnew, r, ha⟩
    refine ⟨_, ha, ?_⟩
    rw [Answer.quiet?, hnew]
    rfl

theorem seeded_notMem_quietOf {known : List Path} {file p : Path} {recognized : Bool} :
    .seeded p recognized ∉ s.quietOf rules known file := by
  intro h
  rcases List.mem_append.mp h with h | h
  · rw [opening] at h
    cases hl : s.registry.languageOf? file with
    | none => simp [hl] at h
    | some l => cases hread : s.disk.read file <;> simp [hl, hread] at h
  · obtain ⟨⟨r, a⟩, -, hquiet⟩ := List.mem_filterMap.mp h
    cases a with
    | nowhere | leftOut u | file u via => simp [Answer.quiet?] at hquiet
    | noFile u =>
      rw [Answer.quiet?, Option.ite_none_left_eq_some] at hquiet
      cases hquiet.2

end Setting

section

variable {s : Setting} {rules : RuleCache} {seeds : List Path} {earlier : List Event}

theorem seeded_mem_events_iff (hd : s.disk.HereNamed) (hseeds : ∀ p ∈ seeds, p.Tidy)
    (hearlier : ∀ e ∈ earlier, ∃ p, e = .missingInput p) {p : Path} :
    .seeded p true ∈ (discover s seeds earlier rules).events ↔
      p ∈ seeds ∧ s.registry.isRecognized p = true := by
  have hnew : .seeded p true ∉ earlier := by
    intro h
    obtain ⟨q, hq⟩ := hearlier _ h
    cases hq
  rw [quiet_mem_events_iff hd hseeds earlier rfl, or_iff_right hnew]
  constructor
  · rintro (⟨q, hq, heq⟩ | ⟨file, -, hquiet⟩)
    · obtain ⟨rfl, hrecognized⟩ := Event.seeded.inj heq
      exact ⟨hq, hrecognized.symm⟩
    · exact absurd hquiet Setting.seeded_notMem_quietOf
  · rintro ⟨hp, hrecognized⟩
    exact .inl ⟨p, hp, by rw [hrecognized]⟩

/-- Which references a run reports to lead to no file: all that do, but for those that lead to a
    path that it started from and recognised. -/
theorem notAFile_mem_events_iff (hd : s.disk.HereNamed) (hseeds : ∀ p ∈ seeds, p.Tidy)
    (hearlier : ∀ e ∈ earlier, ∃ p, e = .missingInput p) {source target : Path} :
    .notAFile source target ∈ (discover s seeds earlier rules).events ↔
      s.Reached rules seeds source ∧
        .seeded target true ∉ (discover s seeds earlier rules).events ∧
        ∃ r ∈ s.referencesOf source, s.answer rules (s.siteOf source) r = .noFile target := by
  have hnew : .notAFile source target ∉ earlier := by
    intro h
    obtain ⟨p, hp⟩ := hearlier _ h
    cases hp
  have hnotSeeded : ¬ ∃ p ∈ seeds, Event.notAFile source target =
      .seeded p (s.registry.isRecognized p) := by
    rintro ⟨p, -, hp⟩
    cases hp
  have hanswers : ∀ file, (∃ r, (r, .noFile target) ∈ s.answersOf rules file) ↔
      ∃ r ∈ s.referencesOf file, s.answer rules (s.siteOf file) r = .noFile target := by
    simp [Setting.answersOf]
  have hknown : ∀ {r}, s.answer rules (s.siteOf source) r = .noFile target →
      (target.isIn ((distinct seeds).filter s.registry.isRecognized) = false ↔
        ¬ (target ∈ seeds ∧ s.registry.isRecognized target = true)) := by
    intro r hanswer
    obtain ⟨-, p, rfl⟩ := Setting.not_isFile_of_answer hanswer
    rw [← Bool.not_eq_true, isIn_iff_mem (s.tidy_identity hd p) fun q hq =>
      hseeds q (mem_of_mem_distinct (List.mem_filter.mp hq).1), List.mem_filter,
      mem_distinct hseeds]
  rw [quiet_mem_events_iff hd hseeds earlier rfl, or_iff_right hnew, or_iff_right hnotSeeded,
    seeded_mem_events_iff hd hseeds hearlier]
  simp only [Setting.notAFile_mem_quietOf_iff, hanswers]
  constructor
  · rintro ⟨file, hreached, rfl, hout, r, hr, hanswer⟩
    exact ⟨hreached, (hknown hanswer).mp hout, r, hr, hanswer⟩
  · rintro ⟨hreached, hout, r, hr, hanswer⟩
    exact ⟨source, hreached, rfl, (hknown hanswer).mpr hout, r, hr, hanswer⟩

end

theorem Seeds.Of.missing_events {s : Setting} {inputs : List Path} {seeds : Seeds}
    (h : seeds.Of s inputs) : ∀ e ∈ seeds.missing, ∃ p, e = .missingInput p := by
  intro e he
  rw [h.missing, Setting.missing] at he
  obtain ⟨p, -, rfl⟩ := List.mem_map.mp he
  exact ⟨_, rfl⟩

theorem Setting.Reached.isAbsolute {s : Setting} {rules : RuleCache} {seeds : List Path}
    (hd : s.disk.HereNamed) (hroot : s.root.isAbsolute = true)
    (hseeds : ∀ p ∈ seeds, p.isAbsolute = true) {p : Path} (h : s.Reached rules seeds p) : p.isAbsolute = true := by
  cases h with
  | seed hp => exact hseeds p hp
  | follow _ hleads =>
    obtain ⟨r, -, found, via, -, rfl, -, -⟩ := hleads
    exact (isFull_identity_of_root hd hroot found).absolute

theorem Seeds.Of.isAbsolute {s : Setting} {inputs : List Path} {seeds : Seeds}
    (hd : s.disk.HereNamed) (hroot : s.root.isAbsolute = true) (h : seeds.Of s inputs) :
    ∀ p ∈ seeds.files, p.isAbsolute = true := by
  intro p hp
  obtain ⟨input, -, hfile⟩ := (h.files p).mp hp
  obtain ⟨q, -, rfl⟩ := List.mem_map.mp hfile
  exact (s.isFull_identity_of_root hd hroot q).absolute

/-- **What a language finds is the file that it tested, unless a detour leads to it.**  Each of the
    languages known from the start gives the normal spelling of the first path it tries that leads
    to a file, and that is the same file, or the path goes up again behind a link.  So a run reports
    of a reference that it leads to no file exactly if what is found is lost again by such a detour,
    and is neither left out nor one of the recognised paths that the run started from. -/
theorem notAFile_iff_lost {s : Setting} (hd : s.disk.Proper) (hfits : s.disk.root.Fits)
    (hroot : s.root.isAbsolute = true)
    (hlanguages : ∀ l ∈ s.registry.languages, l ∈ Registry.builtinLanguages) :
    (∀ l ∈ Registry.builtinLanguages, ∃ tried, (l, tried) ∈ Registry.builtinTried ∧
      ∀ look, l.resolver = some look → ∀ disk site r found, site.Absolute →
        look disk site r = some found →
        ∃ tested, (tried disk site r).find? disk.isFile = some tested ∧ found = tested.normal ∧
          (disk.isFile found = true ∧ disk.SameFile found tested ∨ disk.Detours tested)) ∧
    ∀ order inputs report, fromInputs s order inputs = .ok report → ∀ source target,
      .notAFile source target ∈ report.events ↔
        source ∈ report.files ∧ .seeded target true ∉ report.events ∧
        ∃ r ∈ s.referencesOf source, ∃ found via,
          s.resolve (s.siteOf source) r = some (found, via) ∧ target = s.identity found ∧
          ((s.matcher.isIgnored s.disk target).run (seedsOf s order inputs).rules).1 = false ∧
          s.disk.isFile target = false ∧ s.Lost found := by
  constructor
  · intro l hl
    obtain ⟨tried, htried⟩ := Registry.exists_builtinTried hl
    refine ⟨tried, htried, ?_⟩
    intro look hlook disk site r found hsite hfound
    obtain ⟨tested, hfind, habs, rfl⟩ := Registry.exists_tested htried hlook hsite hfound
    refine ⟨tested, hfind, rfl, ?_⟩
    by_cases hdetour : disk.Detours tested
    · exact .inr hdetour
    · exact .inl (Disk.isFile_normal habs (List.find?_some hfind) hdetour)
  · intro order inputs report hreport source target
    have hof := seedsOf_of hd order inputs
    have htidy := hof.tidy hd
    rw [eq_discover_of_fromInputs hreport, notAFile_mem_events_iff hd.here htidy hof.missing_events,
      mem_files_iff hd.here htidy]
    refine and_congr_right fun hreached => and_congr_right fun _ =>
      exists_congr fun r => and_congr_right fun _ => ?_
    rw [Setting.answer_eq_noFile]
    have hsite := Setting.absolute_siteOf hroot
      (hreached.isAbsolute hd.here hroot (hof.isAbsolute hd.here hroot))
    constructor
    · rintro ⟨found, via, hfound, rfl, hkept, hfile⟩
      exact ⟨found, via, hfound, rfl, hkept, hfile, Setting.lost_of_tested hd hfits
        (Setting.tested_of_resolve hlanguages hsite hfound) hfile⟩
    · rintro ⟨found, via, hfound, rfl, hkept, hfile, -⟩
      exact ⟨found, via, hfound, rfl, hkept, hfile⟩

/-- A project in which the header above the directory behind a link is included. -/
def includeSetting : Setting where
  disk := ⟨.folder "p" (.link "link" "real/sub" (.file "main.c" "#include \"link/../y.h\"".toUTF8
    (.folder "real" (.folder "sub" .empty (.file "y.h" "".toUTF8 .empty)) .empty))) .empty, [], []⟩
  registry := .builtin
  matcher := ⟨⟨"/p"⟩, none, true, true⟩
  canonicalize := true

/-- The header is found, but under a path that leads nowhere. -/
theorem include_lost : includeSetting.disk.Proper ∧ includeSetting.disk.root.Fits ∧
    includeSetting.root.isAbsolute = true ∧
    (∀ l ∈ includeSetting.registry.languages, l ∈ Registry.builtinLanguages) ∧
    ∃ report, fromInputs includeSetting .listed [⟨"/p/main.c"⟩] = .ok report ∧
      .notAFile ⟨"/p/main.c"⟩ ⟨"/p/y.h"⟩ ∈ report.events := by
  have hd : includeSetting.disk.Proper := by
    constructor
    · simp [includeSetting, Folder.Proper, IsName, Text.Holds, Folder.get?, Folder.entries]
    · simp [includeSetting, Disk.HereNamed]
  have hfits : includeSetting.disk.root.Fits := by
    intro name hname
    have hmem : name = "p" ∨ name = "link" ∨ name = "main.c" ∨ name = "real" ∨ name = "sub" ∨
        name = "y.h" := by
      simpa [includeSetting, Folder.allNames] using hname
    rcases hmem with rfl | rfl | rfl | rfl | rfl | rfl <;>
      exact ⟨by simp [Text.Holds], by decide⟩
  have hinput : ∀ input ∈ [(⟨"/p/main.c"⟩ : Path)],
      includeSetting.disk.exists (includeSetting.identity input) = true := by
    decide +kernel
  have hreport := fromInputs_eq hd .listed hinput
  refine ⟨hd, hfits, rfl, fun l hl => hl, _, hreport, ?_⟩
  have hof := seedsOf_of hd .listed [⟨"/p/main.c"⟩]
  have hlanguage : includeSetting.registry.languageOf? ⟨"/p/main.c"⟩ = some Language.cFamily := by
    have hname : fileName? ⟨"/p/main.c"⟩ = some "main.c" := by decide +kernel
    have hending : ".c" ∈ includeSetting.registry.endings := by decide +kernel
    exact Registry.languageOf?_of_forall hname hending (by decide +kernel) (by decide +kernel)
  have hreference : .kinded "include" "link/../y.h" ∈
      includeSetting.referencesOf ⟨"/p/main.c"⟩ := by
    have hread : includeSetting.disk.read ⟨"/p/main.c"⟩ =
        .ok "#include \"link/../y.h\"".toUTF8 := by
      decide +kernel
    simp only [Setting.referencesOf, hlanguage, hread]
    decide +kernel
  have hsource : includeSetting.Reached (seedsOf includeSetting .listed [⟨"/p/main.c"⟩]).rules
      (seedsOf includeSetting .listed [⟨"/p/main.c"⟩]).files ⟨"/p/main.c"⟩ :=
    .seed (by decide +kernel)
  obtain ⟨-, hevents⟩ := notAFile_iff_lost hd hfits rfl fun l hl => hl
  refine (hevents _ _ _ hreport _ _).mpr ⟨(mem_files_iff hd.here (hof.tidy hd) _).mpr hsource, ?_,
    _, hreference, ⟨"/p/y.h"⟩, "c_family", by decide +kernel, by decide +kernel,
    by decide +kernel, by decide +kernel, ?_⟩
  · rw [seeded_mem_events_iff hd.here (hof.tidy hd) (by simp)]
    exact fun h => absurd h.1 (by decide +kernel)
  refine ⟨⟨"/p/link/../y.h"⟩, by decide +kernel, by decide +kernel, by decide +kernel, ?_⟩
  -- the `..` stands behind the link in the directory of the project
  refine ⟨[.root, .name "p", .name "link"], [.name "y.h"], by decide +kernel, ?_⟩
  exact ⟨⟨"/p"⟩, "link", ["p"], "real/sub", by simp [IsName, Text.Holds], by decide +kernel,
    by decide +kernel, by decide +kernel⟩

end Discovery

end SourceWeb
