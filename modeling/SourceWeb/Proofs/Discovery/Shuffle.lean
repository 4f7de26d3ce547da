/-
  Runs do not depend on the order of their inputs, nor on that of directories.

  What a run reports of a file can be told from the file and from what the run starts from, whenever
  it comes to look at it.  Only which reference is credited with a file that was reached depends on
  the order.
-/
import SourceWeb.Proofs.Discovery.Input
import SourceWeb.Proofs.First
import SourceWeb.Proofs.Ignore.Shuffle
import SourceWeb.Proofs.Language.Shuffle

namespace SourceWeb.Discovery

open SourceWeb.Path
open SourceWeb.Ignore (RuleCache Matcher)

/-! ### Reports that tell the same -/

/-- Reports of the same files and the same events, but for their order and for which reference is
    credited with a file that was reached. -/
structure Report.Alike (r r' : Report) : Prop where
  files : ∀ p, p ∈ r.files ↔ p ∈ r'.files
  scanCount : r.scanCount = r'.scanCount
  quiet : (r.events.filter Event.isQuiet).Perm (r'.events.filter Event.isQuiet)
  reached : (r.events.filterMap Event.reached?).Perm (r'.events.filterMap Event.reached?)

theorem Event.isQuiet_of_isScanned {e : Event} (h : e.isScanned = true) : e.isQuiet = true := by
  cases e <;> simp_all [isScanned, isQuiet, reached?]

/-- Scans can be counted among the quiet events. -/
theorem Event.countP_isScanned_filter (events : List Event) :
    (events.filter Event.isQuiet).countP Event.isScanned = events.countP Event.isScanned := by
  rw [List.countP_filter]
  refine List.countP_congr fun e _ => ?_
  rw [Bool.and_eq_true]
  exact and_iff_left_of_imp isQuiet_of_isScanned

/-! ### Settings that tell the same -/

/-- Settings that tell the same of every file, for matchers that know some rules already. -/
structure Setting.Alike (s s' : Setting) (rules rules' : RuleCache) : Prop where
  registry : s.registry = s'.registry
  opening : s.opening = s'.opening
  answers : s.answersOf rules = s'.answersOf rules'

namespace Setting.Alike

variable {s s' : Setting} {rules rules' : RuleCache} {seeds seeds' : List Path}

theorem symm (h : s.Alike s' rules rules') : s'.Alike s rules' rules :=
  ⟨h.registry.symm, h.opening.symm, h.answers.symm⟩

theorem leads (h : s.Alike s' rules rules') {f t : Path} :
    s.Leads rules f t ↔ s'.Leads rules' f t := by
  rw [leads_iff, leads_iff, h.answers]

theorem reached_of_reached (h : s.Alike s' rules rules') (hseeds : ∀ p ∈ seeds, p ∈ seeds')
    {p : Path} (hp : s.Reached rules seeds p) : s'.Reached rules' seeds' p := by
  induction hp with
  | seed hp => exact .seed (hseeds _ hp)
  | follow _ hleads ih => exact .follow ih (h.leads.mp hleads)

theorem reached (h : s.Alike s' rules rules') (hseeds : ∀ p, p ∈ seeds ↔ p ∈ seeds') {p : Path} :
    s.Reached rules seeds p ↔ s'.Reached rules' seeds' p :=
  ⟨h.reached_of_reached fun q => (hseeds q).mp, h.symm.reached_of_reached fun q => (hseeds q).mpr⟩

theorem quietOf (h : s.Alike s' rules rules') {known known' : List Path}
    (hknown : ∀ p, p ∈ known ↔ p ∈ known') : s.quietOf rules known = s'.quietOf rules' known' := by
  have hquiet : ∀ (source : Path) (r : Reference) (a : Answer),
      a.quiet? source known r = a.quiet? source known' r := by
    intro source r a
    cases a with
    | nowhere => rfl
    | leftOut target => rfl
    | noFile target => rw [Answer.quiet?, Answer.quiet?, isIn_eq_of_mem_iff hknown]
    | file target via => rfl
  funext file
  simp only [Setting.quietOf, h.opening, h.answers, hquiet]

/-- **Runs that start from the same files tell the same.** -/
theorem discover (h : s.Alike s' rules rules') (hd : s.disk.HereNamed) (hd' : s'.disk.HereNamed)
    (htidy : ∀ p ∈ seeds, p.Tidy) (hseeds : ∀ p, p ∈ seeds ↔ p ∈ seeds')
    {earlier earlier' : List Event} (hearlier : earlier.Perm earlier') :
    Report.Alike (Discovery.discover s seeds earlier rules)
      (Discovery.discover s' seeds' earlier' rules') := by
  have hperm : (distinct seeds).Perm (distinct seeds') := perm_distinct htidy hseeds
  have htidy' : ∀ p ∈ seeds', p.Tidy := fun p hp => htidy p ((hseeds p).mpr hp)
  obtain ⟨found, st, hprogress, hexact, heq, -⟩ :=
    discover_exact rules hd htidy earlier
  obtain ⟨found', st', hprogress', hexact', heq', -⟩ :=
    discover_exact rules' hd' htidy' earlier'
  replace htidy : ∀ p ∈ distinct seeds, p.Tidy := fun p hp => htidy p (mem_of_mem_distinct hp)
  replace htidy' : ∀ p ∈ distinct seeds', p.Tidy := fun p hp => htidy' p (mem_of_mem_distinct hp)
  have hknown : ∀ p, p ∈ (distinct seeds).filter s.registry.isRecognized ↔
      p ∈ (distinct seeds').filter s'.registry.isRecognized := by
    intro p
    rw [List.mem_filter, List.mem_filter, hperm.mem_iff, h.registry]
  have hfound : ∀ t, t ∈ found ↔ t ∈ found' := by
    intro t
    rw [hexact.mem_found_iff hprogress hd htidy, hexact'.mem_found_iff hprogress' hd' htidy',
      hknown]
    simp only [h.reached fun _ => hperm.mem_iff, h.leads]
  have hpermFound : found.Perm found' :=
    (List.perm_ext_iff_of_nodup hprogress.nodup_found hprogress'.nodup_found).mpr hfound
  have hquiet : (st.events.filter Event.isQuiet).Perm (st'.events.filter Event.isQuiet) := by
    rw [hexact.quiet, hexact'.quiet, h.quietOf hknown, h.registry]
    exact ((hearlier.filter _).append (hperm.map _)).append
      ((hperm.append hpermFound).flatMap_right _)
  rw [heq, heq']
  refine ⟨fun p => ?_, ?_, hquiet, ?_⟩
  · rw [State.report, State.report, hprogress.mem_files_iff hd htidy,
      hprogress'.mem_files_iff hd' htidy', List.mem_append, List.mem_append, hperm.mem_iff, hfound]
  · have hscans := hprogress.scans
    have hscans' := hprogress'.scans
    rw [← Event.countP_isScanned_filter, hquiet.countP_eq, Event.countP_isScanned_filter,
      hearlier.countP_eq, hscans'] at hscans
    exact (Nat.add_left_cancel hscans).symm
  · rw [State.report, State.report, hprogress.reached, hprogress'.reached]
    exact (hearlier.filterMap _).append hpermFound

end Setting.Alike

/-! ### Disks in another order -/

theorem load_shuffle {d d' : Disk} (h : d.Shuffle d') : Alias.load d = Alias.load d' := by
  have hin : Alias.configIn d = Alias.configIn d' := by
    funext dir
    unfold Alias.configIn
    rw [h.isFile]
  have halong : ∀ root dirs, Alias.configAlong d root dirs = Alias.configAlong d' root dirs := by
    intro root dirs
    induction dirs with
    | nil => rfl
    | cons dir above ih => rw [Alias.configAlong, Alias.configAlong, hin, ih]
  funext root file
  simp only [Alias.load, Alias.configFor, halong, hin, h.isDir, h.readText]

namespace Setting

variable {s : Setting} {d' : Disk} {rules rules' : RuleCache}

def on (s : Setting) (disk : Disk) : Setting :=
  { s with disk := disk }

theorem identity_shuffle (h : s.disk.Shuffle d') : (s.on d').identity = s.identity := by
  funext p
  unfold identity
  rw [on, h.absolute, h.canonical]
  rfl

theorem resolve_shuffle (hd : s.disk.Proper) (h : s.disk.Shuffle d')
    (hlanguages : ∀ l ∈ s.registry.languages, l ∈ Registry.builtinLanguages) :
    (s.on d').resolve = s.resolve := by
  have hlook : ∀ l ∈ s.registry.languages, ∀ look, l.resolver = some look →
      look d' = look s.disk := by
    intro l hl look hlook
    exact (Registry.blind_of_mem_builtinLanguages (hlanguages l hl) hlook _ _ hd h).symm
  have hprobe : (s.on d').probeRelative = s.probeRelative := by
    funext dir value
    simp only [probeRelative, on, h.isFile]
  funext site r
  unfold resolve
  rw [hprobe]
  dsimp only [on]
  split
  · rfl
  · refine findSome?_congr fun l hl => ?_
    cases hresolver : l.resolver with
    | none => rfl
    | some look =>
      dsimp only
      rw [hlook l (Registry.mem_languages_of_mem_resolvers hl) look hresolver]

theorem siteOf_shuffle (h : s.disk.Shuffle d') : (s.on d').siteOf = s.siteOf := by
  funext file
  simp only [siteOf, on, root, load_shuffle h]

/-- A setting tells the same of every file, whatever the order of the directories. -/
theorem alike_on (hd : s.disk.Proper) (h : s.disk.Shuffle d')
    (hlanguages : ∀ l ∈ s.registry.languages, l ∈ Registry.builtinLanguages)
    (hrules : ∀ p, rules.get? p = rules'.get? p) : s.Alike (s.on d') rules rules' := by
  have hreferences : (s.on d').referencesOf = s.referencesOf := by
    funext file
    simp only [referencesOf, on, h.read]
  have hanswer : (s.on d').answer rules' = s.answer rules := by
    funext site r
    unfold answer
    rw [resolve_shuffle hd h hlanguages, identity_shuffle h]
    cases s.resolve site r with
    | none => rfl
    | some found =>
      simp only [Matcher.isIgnored_start, s.matcher.leavesOut_shuffle h hrules, h.isFile]
      rfl
  refine ⟨rfl, ?_, ?_⟩
  · funext file
    simp only [opening, hreferences]
    simp only [on, h.read]
  · funext file
    simp only [answersOf, hreferences, hanswer, siteOf_shuffle h]

theorem filesOf_shuffle (h : s.disk.Shuffle d') (input : Path) :
    (s.filesOf input).Perm ((s.on d').filesOf input) := by
  rw [filesOf, filesOf, identity_shuffle h]
  exact (s.matcher.listed_shuffle h _).map _

theorem dirsOf_shuffle (h : s.disk.Shuffle d') (input : Path) :
    (s.dirsOf input).Perm ((s.on d').dirsOf input) := by
  rw [dirsOf, dirsOf, identity_shuffle h]
  exact s.matcher.askedFrom_shuffle h _

theorem missing_shuffle (h : s.disk.Shuffle d') : (s.on d').missing = s.missing := by
  funext inputs
  unfold missing
  rw [identity_shuffle h, on, h.exists]

end Setting

/-! ### Runs from inputs -/

/-- The seeds of the same inputs in another order are the same, and so is what the matcher knows. -/
theorem Seeds.Of.alike {s : Setting} {d' : Disk} {inputs inputs' : List Path}
    {seeds seeds' : Seeds} (h : s.disk.Shuffle d') (hinputs : inputs.Perm inputs')
    (hof : seeds.Of s inputs) (hof' : seeds'.Of (s.on d') inputs') :
    (∀ p, p ∈ seeds.files ↔ p ∈ seeds'.files) ∧ seeds.missing.Perm seeds'.missing ∧
      ∀ p, seeds.rules.get? p = seeds'.rules.get? p := by
  refine ⟨fun p => ?_, ?_, ?_⟩
  · rw [hof.files, hof'.files]
    simp only [hinputs.mem_iff, (Setting.filesOf_shuffle h _).mem_iff]
  · rw [hof.missing, hof'.missing, Setting.missing_shuffle h]
    exact (hinputs.filter _).map _
  · refine (hof.rules.shuffle h).get?_eq hof'.rules fun dir => ?_
    simp only [List.mem_flatMap, hinputs.mem_iff, (Setting.dirsOf_shuffle h _).mem_iff]

/-- **A run does not depend on any order.**  With languages known from the start, inputs in another
    order and directories that list their entries in another order make no run either, or one that
    tells the same. -/
theorem fromInputs_alike {s : Setting} (hd : s.disk.Proper)
    (hlanguages : ∀ l ∈ s.registry.languages, l ∈ Registry.builtinLanguages) {d' : Disk}
    (h : s.disk.Shuffle d') {inputs inputs' : List Path} (hinputs : inputs.Perm inputs')
    (order order' : SeedOrder) :
    (fromInputs s order inputs = .error ⟨inputs⟩ ∧
        fromInputs (s.on d') order' inputs' = .error ⟨inputs'⟩) ∨
      ∃ r r', fromInputs s order inputs = .ok r ∧ fromInputs (s.on d') order' inputs' = .ok r' ∧
        r.Alike r' := by
  have hd' : (s.on d').disk.Proper := h.proper hd
  have hof := seedsOf_of hd order inputs
  have hof' := seedsOf_of hd' order' inputs'
  obtain ⟨hfiles, hmissing, hrules⟩ := hof.alike h hinputs hof'
  have hempty : inputs.isEmpty = inputs'.isEmpty := by
    rw [Bool.eq_iff_iff, List.isEmpty_iff_length_eq_zero, List.isEmpty_iff_length_eq_zero,
      hinputs.length_eq]
  rw [fromInputs, fromInputs]
  simp only [hempty, hmissing.length_eq, hinputs.length_eq]
  split
  · exact .inl ⟨rfl, rfl⟩
  · exact .inr ⟨_, _, rfl, rfl, (Setting.alike_on hd h hlanguages hrules).discover hd.here hd'.here
      (hof.tidy hd) hfiles hmissing⟩

/-- A project with two files, the first of which refers to the second. -/
def pairSetting : Setting where
  disk := ⟨.folder "p" (.file "a.js" "import './b'".toUTF8 (.file "b.js" "".toUTF8 .empty)) .empty,
    [], []⟩
  registry := .builtin
  matcher := ⟨⟨"/p"⟩, none, true, true⟩
  canonicalize := true

/-- The same project with its files listed the other way round. -/
def swappedDisk : Disk :=
  ⟨.folder "p" (.file "b.js" "".toUTF8 (.file "a.js" "import './b'".toUTF8 .empty)) .empty, [], []⟩

theorem pair_alike : pairSetting.disk.Proper ∧ pairSetting.disk.Shuffle swappedDisk ∧
    ((fromInputs pairSetting .listed [⟨"/p"⟩, ⟨"/q"⟩] = .error ⟨[⟨"/p"⟩, ⟨"/q"⟩]⟩ ∧
        fromInputs (pairSetting.on swappedDisk) .sorted [⟨"/q"⟩, ⟨"/p"⟩] =
          .error ⟨[⟨"/q"⟩, ⟨"/p"⟩]⟩) ∨
      ∃ r r', fromInputs pairSetting .listed [⟨"/p"⟩, ⟨"/q"⟩] = .ok r ∧
        fromInputs (pairSetting.on swappedDisk) .sorted [⟨"/q"⟩, ⟨"/p"⟩] = .ok r' ∧
        r.Alike r') := by
  have hd : pairSetting.disk.Proper := by
    constructor
    · simp [pairSetting, Folder.Proper, IsName, Text.Holds, Folder.get?, Folder.entries]
    · simp [pairSetting, Disk.HereNamed]
  have h : pairSetting.disk.Shuffle swappedDisk :=
    ⟨.folder "p" (.swap (by decide) (.file "import './b'".toUTF8) (.file "".toUTF8) .empty) .empty,
      rfl, rfl⟩
  exact ⟨hd, h, fromInputs_alike hd (fun _ hl => hl) h (.swap _ _ _) .listed .sorted⟩

end SourceWeb.Discovery
