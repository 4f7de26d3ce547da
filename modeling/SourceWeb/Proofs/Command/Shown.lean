/-
  What commands that search show when JSON is asked for.

  The value of a command is told from what its search finds.  If JSON is asked for and the result is
  to be shown, a command that does not fail shows a document of its value and a line feed.  There is
  one exception: where no file has text and it may speak, the command for figures shows a sentence
  instead, which is no document of anything.
-/
import SourceWeb.Command.Run
import SourceWeb.Proofs.Json.Written

namespace SourceWeb

open SourceWeb.Json (IsDocument Spelled)

/-! ### Values have their numbers spelled -/

theorem Settings.spelled_toJson (s : Settings) : Spelled s.toJson := by
  simp [toJson]

theorem Discovery.Event.spelled_toJson (e : Event) : Spelled e.toJson := by
  cases e <;> simp [toJson]

theorem Forest.spelled_toMembers (f : Forest) : ∀ m ∈ f.toMembers, Spelled m.2 := by
  induction f with
  | empty => simp [toMembers]
  | node name below others ihBelow ihOthers =>
    rw [toMembers, List.forall_mem_cons]
    refine ⟨?_, ihOthers⟩
    split
    · simp
    · simpa using ihBelow

theorem Tree.spelled_toJson (t : Tree) : Spelled t.toJson := by
  have hbelow := t.below.spelled_toMembers
  rw [toJson]
  split
  · simp
  · simpa using hbelow

theorem Bundle.Stats.spelled_toJson (s : Stats) : Spelled s.toJson := by
  simp [toJson, fileJson]

theorem Bundle.Document.spelled_memberOf (key : String) {o : Option Json}
    (h : ∀ v ∈ o, Spelled v) : ∀ m ∈ memberOf key o, Spelled m.2 := by
  cases o with
  | none => simp [memberOf]
  | some v => simpa [memberOf] using h

theorem Bundle.Document.spelled_toJson (d : Document) : Spelled d.toJson := by
  have hroot := spelled_memberOf "projectRoot" (o := d.projectRoot.map .str) (by simp)
  have htime := spelled_memberOf "generatedAt" (o := d.generatedAt.map .str) (by simp)
  have htree := spelled_memberOf "tree"
    (o := d.tree.map fun lines => .arr (lines.map .str)) (by simp)
  simp only [toJson, Json.spelled_obj, List.forall_mem_append]
  exact ⟨⟨⟨⟨by simp, hroot⟩, htime⟩, htree⟩, by simp⟩

namespace Command

theorem Inspection.spelled_toJson (i : Inspection) : Spelled i.toJson := by
  simp [toJson, languageJson, Settings.spelled_toJson, Discovery.Event.spelled_toJson]

/-! ### The value of a command -/

/-- What a command searches, how the result is to be shaped, and where it goes. -/
def search? : Command → Option (Search × Shape × Target)
  | bundle s shape target _ | list s shape target _ | tree s shape target => some (s, shape, target)
  | stats s shape | debug s shape => some (s, shape, .screen)
  | completion .. | config .. => none

/-- The value of a command, by what its search finds. -/
def valueOf (around : Surroundings) (f : Found) : Command → Json
  | bundle _ _ _ noTree =>
    (documentOf around f (f.settings.output.includeTree && !noTree)
      f.settings.output.includeProjectRoot f.settings.output.includeTimestamp).toJson
  | list _ _ _ absolute =>
    .arr ((if absolute then f.report.sortedFiles.map Path.text else f.relativeFiles).map .str)
  | tree .. => (Tree.ofSorted f.name f.relativeFiles).toJson
  | stats .. =>
    (Bundle.Stats.ofFiles around.tokens (documentOf around f false false false).files).toJson
  | debug .. => (Inspection.ofFound around.disk f).toJson
  | completion .. | config .. => .null

/-- The command tells figures, may speak, and no file that was found can be read as text. -/
def HasNoFigures (around : Surroundings) (quiet : Bool) (f : Found) : Command → Prop
  | stats .. => quiet = false ∧ ∀ p ∈ f.report.files, ∀ text, around.disk.readText p ≠ .ok text
  | _ => False

theorem spelled_valueOf (around : Surroundings) (f : Found) (c : Command) :
    Spelled (c.valueOf around f) := by
  cases c with
  | bundle => exact Bundle.Document.spelled_toJson _
  | list => simp [valueOf]
  | tree => exact Tree.spelled_toJson _
  | stats => exact Bundle.Stats.spelled_toJson _
  | debug => exact Inspection.spelled_toJson _
  | completion | config => exact .null

/-! ### Jobs -/

variable {around : Surroundings} {quiet : Bool} {disk : Disk} {s : Search} {shape : Shape}
  {f : Found}

theorem ofJob_search_ok (h : s.run around.disk around.env shape = .ok f) (k : Found → Job Unit) :
    Session.ofJob quiet disk (search around s shape >>= k) = Session.ofJob quiet disk (k f) := by
  rw [search, h]
  rfl

theorem ofJob_search_error {t : Trouble} (h : s.run around.disk around.env shape = .error t)
    (k : Found → Job Unit) : ∃ told,
    Session.ofJob quiet disk (search around s shape >>= k) =
      .finished ⟨t.cause.exitCode, "", told, disk⟩ := by
  rw [search, h]
  exact ⟨_, rfl⟩

theorem ofJob_display (text : String) :
    Session.ofJob quiet disk (Job.display text) = .finished ⟨0, text, "", disk⟩ := by
  rw [← String.empty_append (s := text)]
  rfl

theorem session_error {c : Command} {target : Target} {t : Trouble}
    (hc : c.search? = some (s, shape, target))
    (h : s.run around.disk around.env shape = .error t) : ∃ told,
    c.session around quiet = .finished ⟨t.cause.exitCode, "", told, around.disk⟩ := by
  cases c with
  | bundle | list | tree | stats | debug =>
    cases hc
    exact ofJob_search_error h _
  | completion | config => simp [search?] at hc

theorem askedFormat_json (h : shape.format = some "json") :
    askedFormat shape = pure (some .json) := by
  rw [askedFormat, h]
  rfl

theorem exitCode_ne_zero (c : Cause) : c.exitCode ≠ 0 := by
  cases c with
  | failure f => cases f <;> simp [Cause.exitCode]
  | system | inTheWay | noScriptDir => simp [Cause.exitCode]

/-- A document ends in no line feed, so one is added. -/
theorem displayLine_of_isDocument {text : String} {v : Json} (h : IsDocument text v) :
    Job.displayLine text = Job.display (text ++ "\n") := by
  obtain ⟨c, hlast, hspace⟩ := Json.Says.isSpace_last h
  have hends : Text.endsWith "\n" text = false := by
    rw [← Bool.not_eq_true, Text.endsWith, List.isSuffixOf_iff_suffix]
    rintro ⟨init, hinit⟩
    rw [← hinit] at hlast
    have hfeed : c = '\n' := by simpa using hlast.symm
    subst hfeed
    exact absurd hspace (by decide)
  rw [Job.displayLine, hends]
  rfl

theorem exists_of_bind_ok {ε α β : Type} {r : Except ε α} {k : α → Except ε β} {b : β}
    (h : r >>= k = .ok b) : ∃ a, r = .ok a ∧ k a = .ok b := by
  cases r with
  | error e => cases h
  | ok a => exact ⟨a, rfl, h⟩

theorem within_eq_ok {α : Type} {doing : String} {r : Except Trouble α} {a : α} :
    within doing r = .ok a ↔ r = .ok a := by
  cases r <;> simp [within, Except.mapError]

theorem format_of_settingsFor {env : Environment} {root : Path} {settings : Settings}
    {name : String}
    (h : settingsFor disk env root s shape = .ok settings) (hshape : shape.format = some name) :
    settings.output.format = name := by
  rw [settingsFor] at h
  obtain ⟨file, -, h⟩ := exists_of_bind_ok h
  cases file with
  | none =>
    cases h
    simp [withName, overlay, hshape]
  | some path =>
    obtain ⟨loaded, -, h⟩ := exists_of_bind_ok h
    cases h
    simp [withName, overlay, hshape]

/-- The format that is asked for is the one in the settings of a search. -/
theorem format_of_run {env : Environment} {name : String}
    (h : s.run disk env shape = .ok f) (hshape : shape.format = some name) :
    f.settings.output.format = name := by
  rw [Search.run] at h
  obtain ⟨root, -, h⟩ := exists_of_bind_ok h
  obtain ⟨settings, hsettings, h⟩ := exists_of_bind_ok h
  obtain ⟨matcher, -, h⟩ := exists_of_bind_ok h
  obtain ⟨report, -, h⟩ := exists_of_bind_ok h
  cases h
  exact format_of_settingsFor (within_eq_ok.mp hsettings) hshape

def jsonText (f : Found) (v : Json) : String :=
  if f.pretty then v.pretty else v.compact

theorem files_isEmpty_iff :
    (documentOf around f false false false).files.isEmpty = true ↔
      ∀ p ∈ f.report.files, ∀ text, around.disk.readText p ≠ .ok text := by
  have hread (p : Path) : Bundle.Document.readFile around.disk f.root p = none ↔
      ∀ text, around.disk.readText p ≠ .ok text := by
    rw [Bundle.Document.readFile]
    cases around.disk.readText p <;> simp
  rw [documentOf, Bundle.Document.build, List.isEmpty_iff, ← List.length_eq_zero_iff,
    List.length_mergeSort, List.length_eq_zero_iff, List.filterMap_eq_nil_iff]
  simp only [hread, Discovery.Report.sortedFiles, Path.sort, List.mem_mergeSort]

/-- If JSON is asked for and the result is to be shown, a search that succeeds ends in showing the
    value of the command, unless there are no figures. -/
theorem session_json {c : Command} (hc : c.search? = some (s, shape, .screen))
    (hjson : shape.format = some "json") (h : s.run around.disk around.env shape = .ok f)
    (hfigures : ¬ c.HasNoFigures around quiet f) :
    c.session around quiet =
      .finished ⟨0, jsonText f (c.valueOf around f) ++ "\n", "", around.disk⟩ := by
  have hshow : Session.ofJob quiet around.disk (Job.displayLine (jsonText f (c.valueOf around f))) =
      .finished ⟨0, jsonText f (c.valueOf around f) ++ "\n", "", around.disk⟩ := by
    have hdocument := (spelled_valueOf around f c).isDocument f.pretty
    rw [jsonText, displayLine_of_isDocument hdocument, ofJob_display]
  rw [← hshow]
  cases c with
  | bundle s shape target noTree =>
    cases hc
    have hformat : f.settings.format = .ok .json := by
      rw [Settings.format, format_of_run h hjson]
      rfl
    rw [session, bundleJob, ofJob_search_ok h]
    simp only [hformat, Bundle.Document.render, Bool.not_not]
    rfl
  | list s shape target absolute =>
    cases hc
    rw [session, listJob, ofJob_search_ok h, askedFormat_json hjson]
    rfl
  | tree s shape target =>
    cases hc
    rw [session, treeJob, ofJob_search_ok h, askedFormat_json hjson]
    rfl
  | stats s shape =>
    cases hc
    have hspeaks : ((documentOf around f false false false).files.isEmpty && !quiet) = false := by
      rw [← Bool.not_eq_true, Bool.and_eq_true, files_isEmpty_iff]
      intro hboth
      exact hfigures ⟨by simpa using hboth.2, hboth.1⟩
    rw [session, statsJob, ofJob_search_ok h, askedFormat_json hjson]
    simp only [pure_bind, hspeaks]
    rfl
  | debug s shape =>
    cases hc
    rw [session, debugJob, ofJob_search_ok h, askedFormat_json hjson]
    rfl
  | completion | config => simp [search?] at hc

/-- Without figures a sentence is shown, whatever format is asked for. -/
theorem session_noFigures {c : Command} (hc : c.search? = some (s, shape, .screen))
    (hjson : shape.format = some "json") (h : s.run around.disk around.env shape = .ok f)
    (hfigures : c.HasNoFigures around quiet f) :
    c.session around quiet =
      .finished ⟨0, "No text files discovered to calculate statistics.\n", "", around.disk⟩ := by
  cases c with
  | stats s shape =>
    cases hc
    obtain ⟨hquiet, hnone⟩ := hfigures
    rw [session, statsJob, ofJob_search_ok h, askedFormat_json hjson]
    simp only [pure_bind, files_isEmpty_iff.mpr hnone, hquiet]
    exact ofJob_display _
  | bundle | list | tree | debug | completion | config => exact hfigures.elim

/-- The sentence is no document, since no value starts with such a letter. -/
theorem sentence_ne_document {text : String} {v : Json} (h : IsDocument text v) :
    "No text files discovered to calculate statistics.\n" ≠ text ++ "\n" := by
  intro heq
  have hlist : "No text files discovered to calculate statistics.".toList ++ ['\n'] =
      text.toList ++ ['\n'] := by
    simpa using congrArg String.toList heq
  obtain ⟨c, rest, hskip, hc⟩ := Json.Says.head h
  rw [← List.append_cancel_right hlist] at hskip
  obtain ⟨rfl, -⟩ := List.cons.inj (show 'N' :: _ = c :: rest from hskip)
  exact absurd hc (by decide)

/-- If JSON is asked for and the result is to be shown, a command that searches ends with code 0 if
    and only if the search succeeds.  Then it shows a document of its value and a line feed, unless
    it has no figures to tell: what it shows then is no document at all. -/
theorem run_shows_json {words : List String} {c : Command}
    (hrequest : request words = .run quiet c) (hc : c.search? = some (s, shape, .screen))
    (hjson : shape.format = some "json") :
    ∃ o, run around words = .finished o ∧
      (o.code = 0 ↔ ∃ f, s.run around.disk around.env shape = .ok f) ∧
      ∀ f, s.run around.disk around.env shape = .ok f →
        (¬ c.HasNoFigures around quiet f →
          IsDocument (jsonText f (c.valueOf around f)) (c.valueOf around f) ∧
            o.shown = jsonText f (c.valueOf around f) ++ "\n") ∧
        (c.HasNoFigures around quiet f → ∀ text v, IsDocument text v → o.shown ≠ text ++ "\n") := by
  have hrun : run around words = c.session around quiet := by
    rw [run, hrequest]
  rw [hrun]
  cases h : s.run around.disk around.env shape with
  | error t =>
    obtain ⟨told, htold⟩ := session_error hc h
    refine ⟨_, htold, ?_, by simp⟩
    simpa using exitCode_ne_zero t.cause
  | ok f =>
    by_cases hfigures : c.HasNoFigures around quiet f
    · refine ⟨_, session_noFigures hc hjson h hfigures, by simp, ?_⟩
      rintro f' ⟨⟩
      exact ⟨fun hnot => absurd hfigures hnot, fun _ text v hdocument =>
        sentence_ne_document hdocument⟩
    · refine ⟨_, session_json hc hjson h hfigures, by simp, ?_⟩
      rintro f' ⟨⟩
      exact ⟨fun _ => ⟨(spelled_valueOf around f c).isDocument f.pretty, rfl⟩,
        fun hnone => absurd hnone hfigures⟩

/-- A disk with an empty project, and nothing else around it. -/
def emptySurroundings : Surroundings where
  disk := ⟨.folder "p" .empty .empty, [], []⟩
  env := {}
  time := ""
  tokens := String.length

theorem eq_ok_of_toOption {ε α : Type} {r : Except ε α} {a : α} (h : r.toOption = some a) :
    r = .ok a := by
  cases r with
  | error e => cases h
  | ok b =>
    cases h
    rfl

/-- The figures of an empty project are told in a sentence. -/
theorem empty_shows_no_json :
    ∃ o, run emptySurroundings ["stats", "-e", "", "p", "-f", "json"] = .finished o ∧ o.code = 0 ∧
      ∀ text v, IsDocument text v → o.shown ≠ text ++ "\n" := by
  obtain ⟨s, hs⟩ : ∃ s : Search,
      s = ⟨[⟨"p"⟩], none, none, false, none, some "", false, false, []⟩ := ⟨_, rfl⟩
  obtain ⟨shape, hshape⟩ : ∃ shape : Shape, shape = ⟨some "json", none⟩ := ⟨_, rfl⟩
  have hrequest : request ["stats", "-e", "", "p", "-f", "json"] = .run false (.stats s shape) := by
    rw [hs, hshape]
    decide +kernel
  have hfiles : (s.run emptySurroundings.disk emptySurroundings.env shape).toOption.map
      (fun f => f.report.files) = some [] := by
    rw [hs, hshape]
    decide +kernel
  obtain ⟨f, hf, hnone⟩ := Option.map_eq_some_iff.mp hfiles
  obtain ⟨o, hrun, hcode, hshown⟩ :=
    @run_shows_json emptySurroundings _ _ _ _ _ hrequest rfl (by rw [hshape])
  have hok := eq_ok_of_toOption hf
  exact ⟨o, hrun, hcode.mpr ⟨f, hok⟩, (hshown f hok).2 ⟨rfl, by simp [hnone]⟩⟩

end Command
end SourceWeb
