/-
  Runs that free paths from links.

  With the languages known from the start, a reference leads to a file under its canonical path, or
  under a normal one if the canonical path is too long to be spelled out; or it is dropped because
  what it spells is no file.  So every file is known under one path only, but for those that have no
  canonical path, and a run takes no more than two steps for each file there is and each such path.
-/
import Mathlib.Data.List.Nodup
import SourceWeb.Proofs.Discovery.Input
import SourceWeb.Proofs.Disk.Detour
import SourceWeb.Proofs.Language.Absolute

namespace SourceWeb

open SourceWeb.Path

namespace Disk

/-- Does the path lead to a regular file? -/
def LeadsToFile (d : Disk) (p : Path) : Prop :=
  ∃ at_ content, d.LeadsTo p at_ ∧ d.root.at? at_ = some (.file content)

/-- Is the path its own canonical path? -/
def IsCanonical (d : Disk) (p : Path) : Prop :=
  d.canonical p = .ok p

instance (d : Disk) (p : Path) : Decidable (d.IsCanonical p) :=
  inferInstanceAs (Decidable (_ = _))

/-- Is this a full path that leads to a regular file, and has no other canonical path? -/
structure KnownFile (d : Disk) (p : Path) : Prop where
  full : p.IsFull
  leads : d.LeadsToFile p
  canonical : ∀ q, d.canonical p = .ok q → q = p

/-- Is the path that of an absolute one that leads to a regular file, in normal spelling? -/
def Tested (d : Disk) (p : Path) : Prop :=
  ∃ tested, tested.isAbsolute = true ∧ d.isFile tested = true ∧ p = tested.normal

variable {d : Disk} {p : Path}

theorem leadsToFile_of_isFile (h : d.isFile p = true) : d.LeadsToFile p := by
  obtain ⟨content, hentry⟩ := isFile_iff.mp h
  obtain ⟨at_, hleads, hat⟩ := leadsTo_of_entry? hentry
  exact ⟨at_, content, hleads, hat⟩

theorem Tested.isFull (h : d.Tested p) : p.IsFull := by
  obtain ⟨tested, habs, -, rfl⟩ := h
  exact ⟨by rw [isAbsolute_normal, habs], normal_normal tested⟩

/-- Where no path is too long, every file is known under its canonical path. -/
theorem KnownFile.isCanonical (h : d.KnownFile p) (hshort : d.root.ShortPlaces) :
    d.IsCanonical p := by
  obtain ⟨at_, content, hleads, -⟩ := h.leads
  have hcanonical := hleads.canonical hshort
  rwa [h.canonical _ hcanonical] at hcanonical

/-- Such a path spells the place of the file. -/
theorem KnownFile.exists_place (h : d.KnownFile p) (hcanonical : d.IsCanonical p) :
    ∃ at_ content, p = pathOf at_ ∧ d.root.at? at_ = some (.file content) := by
  obtain ⟨at_, content, hleads, hat⟩ := h.leads
  exact ⟨at_, content, hleads.eq_pathOf hcanonical, hat⟩

end Disk

namespace Discovery

open SourceWeb.Ignore (RuleCache Matcher)

variable {s : Setting}

namespace Setting

/-! ### Identities -/

theorem isAbsolute_absoluteOf_of_root (hroot : s.root.isAbsolute = true) (p : Path) :
    (s.absoluteOf p).isAbsolute = true := by
  by_cases hp : p.text = ""
  · have hempty : p = ⟨""⟩ := ext_text hp
    subst hempty
    exact isAbsolute_join hroot
  · exact isAbsolute_absoluteOf hp

theorem isFull_identity_of_root (hd : s.disk.HereNamed) (hroot : s.root.isAbsolute = true)
    (p : Path) : (s.identity p).IsFull :=
  isFull_identity hd (isAbsolute_absoluteOf_of_root hroot p)

/-- A full path that leads to a file is known under its canonical path, or stays as it is. -/
theorem knownFile_identity (hd : s.disk.Proper) (hfits : s.disk.root.Fits)
    (hcanonicalize : s.canonicalize = true) {p : Path} (hp : p.IsFull)
    (hleads : s.disk.LeadsToFile p) : s.disk.KnownFile (s.identity p) := by
  cases hcanonical : s.disk.canonical p with
  | ok q =>
    have hidentity : s.identity p = q := by
      simp only [identity, hp.absolute, hcanonicalize, if_true, hcanonical]
    obtain ⟨at_, content, hat⟩ := hleads
    have hplace := Disk.leadsTo_pathOf hd hfits hat.2 (by simp)
    rw [hidentity, hat.1.eq_pathOf hcanonical]
    exact ⟨Disk.isFull_pathOf (hd.root.of_at? hat.2).1, ⟨at_, content, hplace, hat.2⟩,
      fun r => hplace.eq_pathOf⟩
  | error e =>
    have hidentity : s.identity p = p := by
      simp only [identity, hp.absolute, hcanonicalize, if_true, hcanonical, hp.normal]
    rw [hidentity]
    refine ⟨hp, hleads, fun q hq => ?_⟩
    rw [hcanonical] at hq
    simp at hq

/-- What is known as a file was one before. -/
theorem leadsToFile_of_identity (hd : s.disk.Proper) (hcanonicalize : s.canonicalize = true)
    {p : Path} (hp : p.IsFull) (h : s.disk.isFile (s.identity p) = true) :
    s.disk.LeadsToFile p := by
  cases hcanonical : s.disk.canonical p with
  | ok q =>
    have hidentity : s.identity p = q := by
      simp only [identity, hp.absolute, hcanonicalize, if_true, hcanonical]
    obtain ⟨at_, hleads, rfl⟩ := Disk.exists_leadsTo_of_canonical hcanonical
    obtain ⟨e, hat, hlink⟩ := hleads.exists_entry
    rw [hidentity] at h
    obtain ⟨at', content, hleads', hat'⟩ := Disk.leadsToFile_of_isFile h
    rw [Disk.follow_pathOf (hd.root.of_at? hat).1 hat hlink hleads'.follow] at hat'
    exact ⟨at_, content, hleads, hat'⟩
  | error e =>
    have hidentity : s.identity p = p := by
      simp only [identity, hp.absolute, hcanonicalize, if_true, hcanonical, hp.normal]
    rw [hidentity] at h
    exact Disk.leadsToFile_of_isFile h

/-! ### Files to start from -/

/-- What a walk lists leads to a file, if it may be too long to be looked up as a whole. -/
theorem leadsToFile_of_mem_listed (hd : s.disk.Proper) (hfits : s.disk.root.Fits) {dir p : Path}
    (h : p ∈ s.matcher.listed s.disk dir) :
    s.disk.LeadsToFile p ∧ (dir.IsFull → p.IsFull) := by
  unfold Matcher.listed at h
  split at h
  · rename_i content hentry
    rw [List.mem_singleton.mp h]
    obtain ⟨at_, hleads, hat⟩ := Disk.leadsTo_of_entry? hentry
    exact ⟨⟨at_, content, hleads, hat⟩, id⟩
  · rename_i f hentry
    obtain ⟨at_, hleads, hat⟩ := Disk.leadsTo_of_entry? hentry
    have hproper : f.Proper := (hd.root.of_at? hat).2 f rfl
    obtain ⟨names, e, he, hlists, rfl, -⟩ := (Matcher.mem_listFolder_iff hproper).mp h
    refine ⟨?_, fun hdir => hdir.downNames (hproper.of_at? he).1⟩
    cases e with
    | folder inside | special => exact hlists.elim
    | link target => exact Disk.leadsToFile_of_isFile hlists
    | file content =>
      have hat' : s.disk.root.at? (at_ ++ names) = some (.file content) := by
        rw [Folder.at?_append hat, he]
      have hin := (Folder.names_of_at? (Option.isSome_iff_exists.mpr ⟨_, hat'⟩)).1
      have hnames : ∀ n ∈ names, IsName n ∧ ¬ Text.Holds '\x00' n ∧ Disk.isLongName n = false :=
        fun n hn => ⟨(hproper.of_at? he).1 n hn, hfits n (hin n (List.mem_append_right _ hn))⟩
      exact ⟨_, content, hleads.downNames hat hnames he (by simp), hat'⟩
  · simp at h

theorem knownFile_of_mem_filesOf (hd : s.disk.Proper) (hfits : s.disk.root.Fits)
    (hroot : s.root.isAbsolute = true) (hcanonicalize : s.canonicalize = true) {input p : Path}
    (h : p ∈ s.filesOf input) : s.disk.KnownFile p := by
  obtain ⟨q, hq, rfl⟩ := List.mem_map.mp h
  obtain ⟨hleads, hfull⟩ := leadsToFile_of_mem_listed hd hfits hq
  exact knownFile_identity hd hfits hcanonicalize
    (hfull (isFull_identity_of_root hd.here hroot input)) hleads

/-! ### References -/

theorem absolute_siteOf (hroot : s.root.isAbsolute = true) {f : Path} (hf : f.isAbsolute = true) :
    (s.siteOf f).Absolute := by
  refine ⟨hroot, hf, ?_, fun aliases haliases => Alias.isAbsolute_of_load hroot hf haliases⟩
  intro base hbase
  obtain ⟨aliases, haliases, rfl⟩ := Option.map_eq_some_iff.mp hbase
  exact (Alias.isAbsolute_of_load hroot hf haliases).1

/-- What a reference is resolved to was tested, whether it is read as a relative path or looked up
    by a language known from the start. -/
theorem tested_of_resolve (hlanguages : ∀ l ∈ s.registry.languages, l ∈ Registry.builtinLanguages)
    {site : Site} (hsite : site.Absolute) {r : Reference} {found : Path} {via : String}
    (h : s.resolve site r = some (found, via)) : s.disk.Tested found := by
  unfold resolve at h
  dsimp only at h
  split at h
  · rename_i p hprobe
    cases h
    split at hprobe
    · have hbase : (site.dir.child r.value).normal.IsFull :=
        ⟨by rw [isAbsolute_normal]; exact hsite.dir_child _, normal_normal _⟩
      have hfull : found.IsFull := by
        rcases List.mem_cons.mp (List.mem_of_find?_eq_some hprobe) with rfl | hmem
        · exact hbase
        · obtain ⟨e, he, rfl⟩ := List.mem_map.mp hmem
          exact hbase.withSuffix (Registry.isEnding_of_mem_probeEndings hlanguages he)
      exact ⟨found, hfull.absolute, List.find?_some hprobe, hfull.normal.symm⟩
    · simp at hprobe
  · obtain ⟨l, hl, hlook⟩ := List.exists_of_findSome?_eq_some h
    split at hlook
    · rename_i look hresolver
      obtain ⟨p, hp, heq⟩ := Option.map_eq_some_iff.mp hlook
      cases heq
      obtain ⟨tried, htried⟩ := Registry.exists_builtinTried
        (hlanguages l (Registry.mem_languages_of_mem_resolvers hl))
      obtain ⟨tested, hfind, habs, hnormal⟩ :=
        Registry.exists_tested htried hresolver hsite hp
      exact ⟨tested, habs, List.find?_some hfind, hnormal⟩
    · simp at hlook

section

variable (hd : s.disk.Proper) (hfits : s.disk.root.Fits) (hroot : s.root.isAbsolute = true)
  (hcanonicalize : s.canonicalize = true)
  (hlanguages : ∀ l ∈ s.registry.languages, l ∈ Registry.builtinLanguages) {rules : RuleCache}

include hd hfits hroot hcanonicalize hlanguages

theorem Leads.knownFile {f t : Path} (hf : f.isAbsolute = true) (h : s.Leads rules f t) :
    s.disk.KnownFile t := by
  obtain ⟨r, -, found, via, hfound, rfl, -, hfile⟩ := h
  have hfull := (tested_of_resolve hlanguages (absolute_siteOf hroot hf) hfound).isFull
  exact knownFile_identity hd hfits hcanonicalize hfull
    (leadsToFile_of_identity hd hcanonicalize hfull hfile)

theorem Reached.knownFile {seeds : List Path} (hseeds : ∀ p ∈ seeds, s.disk.KnownFile p) {p : Path}
    (h : s.Reached rules seeds p) : s.disk.KnownFile p := by
  induction h with
  | seed hp => exact hseeds _ hp
  | follow _ hleads ih =>
    exact hleads.knownFile hd hfits hroot hcanonicalize hlanguages ih.full.absolute

/-- The files of a run from inputs are known ones. -/
theorem knownFile_of_mem_files {seeds : Seeds} {inputs : List Path} (hof : seeds.Of s inputs)
    {earlier : List Event} {p : Path}
    (h : p ∈ (Discovery.discover s seeds.files earlier rules).files) : s.disk.KnownFile p := by
  rw [mem_files_iff hd.here (hof.tidy hd)] at h
  refine h.knownFile hd hfits hroot hcanonicalize hlanguages fun q hq => ?_
  obtain ⟨input, -, hfile⟩ := (hof.files q).mp hq
  exact knownFile_of_mem_filesOf hd hfits hroot hcanonicalize hfile

end

end Setting

/-! ### How many files and scans -/

/-- The paths in a list that are not canonical. -/
def stuck (d : Disk) (ps : List Path) : List Path :=
  ps.filter fun p => ¬ d.IsCanonical p

theorem exists_places {d : Disk} {ps : List Path}
    (h : ∀ p ∈ ps, d.KnownFile p ∧ d.IsCanonical p) : ∃ places : List Location,
      ps = places.map Disk.pathOf ∧
      ∀ at_ ∈ places, ∃ content, d.root.at? at_ = some (.file content) := by
  induction ps with
  | nil => exact ⟨[], rfl, by simp⟩
  | cons p ps ih =>
    obtain ⟨places, rfl, hplaces⟩ := ih fun q hq => h q (List.mem_cons_of_mem p hq)
    obtain ⟨hknown, hcanonical⟩ := h p List.mem_cons_self
    obtain ⟨at_, content, rfl, hat⟩ := hknown.exists_place hcanonical
    exact ⟨at_ :: places, rfl, List.forall_mem_cons.mpr ⟨⟨content, hat⟩, hplaces⟩⟩

/-- Different canonical paths of files are the paths of different places. -/
theorem exists_nodup_places {d : Disk} {ps : List Path} (hnodup : ps.Nodup)
    (h : ∀ p ∈ ps, d.KnownFile p) : ∃ places : List Location, places.Nodup ∧
      (ps.filter fun p => d.IsCanonical p) = places.map Disk.pathOf ∧
      ∀ at_ ∈ places, ∃ content, d.root.at? at_ = some (.file content) := by
  have hspelled : ∀ p ∈ ps.filter fun p => d.IsCanonical p, d.KnownFile p ∧ d.IsCanonical p := by
    intro p hp
    obtain ⟨hp, hcanonical⟩ := List.mem_filter.mp hp
    exact ⟨h p hp, by simpa using hcanonical⟩
  obtain ⟨places, hmap, hplaces⟩ := exists_places hspelled
  exact ⟨places, List.Nodup.of_map _ (hmap ▸ hnodup.filter _), hmap, hplaces⟩

/-- Of different known paths there are no more than files and paths that are not canonical. -/
theorem length_le_of_knownFile {d : Disk} {ps qs : List Path} (hnodup : ps.Nodup)
    (hsub : ps ⊆ qs) (h : ∀ p ∈ qs, d.KnownFile p) :
    ps.length ≤ (Disk.filesIn d.root).length + (stuck d qs).length := by
  obtain ⟨places, hplaces, hmap, hfiles⟩ :=
    exists_nodup_places hnodup fun p hp => h p (hsub hp)
  have hcanonical := congrArg List.length hmap
  rw [List.length_map] at hcanonical
  have hstuck : (stuck d ps).length ≤ (stuck d qs).length :=
    (List.Nodup.subperm (hnodup.filter _) (List.filter_subset _ hsub)).length_le
  have hle := Folder.length_le_files hplaces hfiles
  have hsplit := List.length_eq_length_filter_add (l := ps) fun p => decide (d.IsCanonical p)
  have hrest : (ps.filter fun p => !decide (d.IsCanonical p)) = stuck d ps := by
    simp [stuck]
  rw [hrest] at hsplit
  omega

/-- Only files of a language are scanned, each at most once. -/
theorem Progress.scanCount_le {seeds done found : List Path} {earlier : List Event} {st : State}
    (h : Progress s seeds earlier done found st) (hearlier : earlier.filterMap Event.opened? = []) :
    st.scanCount ≤ (done.filter s.registry.isRecognized).length := by
  have hopened := congrArg List.length h.opened
  have hscans := h.scans
  rw [hearlier, List.nil_append, List.length_filterMap_eq_countP] at hopened
  have hle : st.events.countP Event.isScanned ≤
      st.events.countP fun e => e.opened?.isSome := by
    refine List.countP_mono_left fun e _ hscanned => ?_
    by_contra hnone
    rw [Event.isScanned_of_opened? (by simpa using hnone)] at hscanned
    simp at hscanned
  omega

theorem Progress.nodup_files {seeds done found : List Path} {earlier : List Event} {st : State}
    (h : Progress s seeds earlier done found st) (hseeds : seeds.Nodup) : st.files.Nodup := by
  rw [h.files]
  refine List.nodup_append.mpr ⟨hseeds, h.nodup_found.filter _, ?_⟩
  rintro p hp q hq rfl
  have hnew := (List.mem_filter.mp hq).2
  simp [isIn_of_mem hp] at hnew

/-- The files that a run opens are different ones. -/
theorem Progress.nodup_opened {seeds done found : List Path} {earlier : List Event} {st : State}
    (h : Progress s seeds earlier done found st) :
    ((seeds ++ found).filter s.registry.isRecognized).Nodup := by
  have hvisited := h.apart.nodup
  rw [h.visited] at hvisited
  rw [List.filter_append]
  exact hvisited.sublist (List.Sublist.append_left List.filter_sublist _)

/-- If every input is missing, none of them leads anywhere. -/
theorem exists_eq_false_of_missing {seeds : Seeds} {inputs : List Path} (h : seeds.Of s inputs)
    (hlen : seeds.missing.length = inputs.length) :
    ∀ input ∈ inputs, s.disk.exists (s.identity input) = false := by
  rw [h.missing, Setting.missing, List.length_map, List.length_filter_eq_length_iff] at hlen
  intro input hinput
  simpa using hlen input hinput

/-- **Every file is known under one path, as long as its canonical path can be spelled out.**  With
    the languages known from the start and paths freed from links, from whatever inputs, with links
    to files and to directories, in circles too: only where no input leads anywhere is there no
    report.  Else the run is over after at most two steps for each file there is and each path of
    the report that is not canonical, and no more files are scanned than these are.  The paths of
    the report are full and lead to regular files, the canonical ones of them to different files;
    the others have no canonical path, and where no place of the disk has a long path there are
    none. -/
theorem fromInputs_knownFiles {s : Setting} (hd : s.disk.Proper) (hfits : s.disk.root.Fits)
    (hroot : s.root.isAbsolute = true) (hcanonicalize : s.canonicalize = true)
    (hlanguages : ∀ l ∈ s.registry.languages, l ∈ Registry.builtinLanguages) (order : SeedOrder)
    (inputs : List Path) :
    let seeds := seedsOf s order inputs
    let start := State.start s (distinct seeds.files) seeds.missing seeds.rules
    let fileCount := (Disk.filesIn s.disk.root).length
    (fromInputs s order inputs = .error ⟨inputs⟩ ∧
        ∀ input ∈ inputs, s.disk.exists (s.identity input) = false) ∨
      ∃ n report, n ≤ 2 * (fileCount + (stuck s.disk report.files).length) ∧
        (start.run s n).queue = [] ∧ (start.run s n).report = report ∧
        fromInputs s order inputs = .ok report ∧
        (∃ places : List Location, places.Nodup ∧
          (report.files.filter fun p => s.disk.IsCanonical p) = places.map Disk.pathOf ∧
          ∀ at_ ∈ places, ∃ content, s.disk.root.at? at_ = some (.file content)) ∧
        (∀ p ∈ report.files, s.disk.KnownFile p) ∧
        report.scanCount ≤ fileCount + (stuck s.disk report.files).length ∧
        (s.disk.root.ShortPlaces → stuck s.disk report.files = []) := by
  intro seeds start fileCount
  have hof : seeds.Of s inputs := seedsOf_of hd order inputs
  obtain ⟨found, st, hprogress, -, heq, hrun⟩ :=
    discover_exact seeds.rules hd.here (hof.tidy hd) seeds.missing
  have hmem : ∀ p, p ∈ st.files ↔ p ∈ distinct seeds.files ++ found := fun p =>
    hprogress.mem_files_iff hd.here fun q hq => hof.tidy hd q (mem_of_mem_distinct hq)
  have hknown : ∀ p ∈ st.report.files, s.disk.KnownFile p := fun p hp =>
    Setting.knownFile_of_mem_files hd hfits hroot hcanonicalize hlanguages hof (heq ▸ hp)
  have hnodup : (distinct seeds.files).Nodup := (apart_distinct seeds.files).nodup
  have hcount : ∀ ps : List Path, ps.Nodup → ps ⊆ distinct seeds.files ++ found →
      ps.length ≤ fileCount + (stuck s.disk st.files).length := fun ps hps hsub =>
    length_le_of_knownFile hps (fun p hp => (hmem p).mpr (hsub hp)) hknown
  have hmissing : seeds.missing.filterMap Event.opened? = [] := by
    rw [hof.missing]
    simp [Setting.missing, List.filterMap_map, Function.comp_def, Event.opened?]
  unfold fromInputs
  dsimp only
  split
  · rename_i hnone
    refine .inl ⟨rfl, fun input hinput => ?_⟩
    rw [Bool.and_eq_true, decide_eq_true_eq] at hnone
    exact exists_eq_false_of_missing hof hnone.2 input hinput
  · refine .inr ⟨(distinct seeds.files ++ found).length, st.report, ?_, ?_, by rw [hrun],
      congrArg Except.ok heq, exists_nodup_places (hprogress.nodup_files hnodup) hknown, hknown,
      ?_, fun hshort => ?_⟩
    · have hlen := hcount _ hnodup (List.subset_append_left _ _)
      have hlen' := hcount _ hprogress.nodup_found (List.subset_append_right _ _)
      rw [List.length_append]
      simp only [State.report]
      omega
    · have hqueue := hprogress.queue
      rw [hrun]
      simpa using hqueue
    · calc st.scanCount
          ≤ ((distinct seeds.files ++ found).filter s.registry.isRecognized).length :=
            hprogress.scanCount_le hmissing
        _ ≤ fileCount + (stuck s.disk st.files).length :=
            hcount _ hprogress.nodup_opened (List.filter_subset_self _)
    · rw [stuck, List.filter_eq_nil_iff]
      intro p hp
      simpa using (hknown p hp).isCanonical hshort

/-- A project with two files that refer to each other through a link to the project itself. -/
def circleSetting : Setting where
  disk := ⟨.folder "p" (.file "a.js" "import './self/self/b'".toUTF8
    (.file "b.js" "import './self/a'".toUTF8 (.link "self" "." .empty))) .empty, [], []⟩
  registry := .builtinWithout ["Go"]
  matcher := ⟨⟨"/p"⟩, none, true, true⟩
  canonicalize := true

theorem circle_knownFiles : circleSetting.disk.Proper ∧ circleSetting.disk.root.Fits ∧
    circleSetting.root.isAbsolute = true ∧ circleSetting.canonicalize = true ∧
    (∀ l ∈ circleSetting.registry.languages, l ∈ Registry.builtinLanguages) ∧
    circleSetting.disk.root.ShortPlaces ∧
    ∃ report, fromInputs circleSetting .listed [⟨"/p/self/self/a.js"⟩] = .ok report ∧
      (∃ places : List Location, places.Nodup ∧ report.files = places.map Disk.pathOf) ∧
      report.scanCount ≤ 2 := by
  have hd : circleSetting.disk.Proper := by
    constructor
    · simp [circleSetting, Folder.Proper, IsName, Text.Holds, Folder.get?, Folder.entries]
    · simp [circleSetting, Disk.HereNamed]
  have hnames : circleSetting.disk.root.allNames = ["p", "a.js", "b.js", "self"] := rfl
  have hfits : circleSetting.disk.root.Fits := by
    intro name hname
    rw [hnames] at hname
    revert name
    decide +kernel
  have hshort : circleSetting.disk.root.ShortPlaces := by
    have hsizes : ∀ name ∈ circleSetting.disk.root.allNames, name.utf8ByteSize ≤ 4 := by
      rw [hnames]
      decide +kernel
    exact Folder.shortPlaces_of_names hsizes (by rw [hnames]; decide)
  have hlanguages : ∀ l ∈ circleSetting.registry.languages, l ∈ Registry.builtinLanguages :=
    fun l hl => (List.mem_filter.mp hl).1
  have hinput : ∀ input ∈ [(⟨"/p/self/self/a.js"⟩ : Path)],
      circleSetting.disk.exists (circleSetting.identity input) = true := by
    decide +kernel
  have hrun := fromInputs_eq hd .listed hinput
  rcases fromInputs_knownFiles hd hfits rfl rfl hlanguages .listed [⟨"/p/self/self/a.js"⟩] with
    ⟨hnone, -⟩ | ⟨n, report, -, -, -, hreport, ⟨places, hplaces, hmap, -⟩, hknown, hscans, hstuck⟩
  · rw [hnone] at hrun
    simp at hrun
  · have hcanonical : report.files.filter (fun p => circleSetting.disk.IsCanonical p) =
        report.files := List.filter_eq_self.mpr fun p hp => by
      simpa using (hknown p hp).isCanonical hshort
    rw [hcanonical] at hmap
    rw [hstuck hshort] at hscans
    exact ⟨hd, hfits, rfl, rfl, hlanguages, hshort, report, hreport, ⟨places, hplaces, hmap⟩,
      hscans⟩

/-! ### A file that is known twice -/

/-- A name of 250 bytes. -/
def longName : String :=
  String.ofList (List.replicate 250 'd')

theorem eq_of_holds_replicate {n : Nat} {c d : Char}
    (h : Text.Holds c (String.ofList (List.replicate n d))) : c = d := by
  rw [Text.Holds, String.toList_ofList] at h
  exact List.eq_of_mem_replicate h

theorem size_longName : longName.utf8ByteSize = 250 := by
  decide +kernel

theorem isName_longName : IsName longName ∧ ¬ Text.Holds '\x00' longName := by
  have hchars : ∀ c, Text.Holds c longName → c = 'd' := fun c => eq_of_holds_replicate
  have hne : ∀ s : String, s.utf8ByteSize ≠ 250 → longName ≠ s := by
    rintro s hs rfl
    exact hs size_longName
  exact ⟨⟨hne _ (by decide), hne _ (by decide), hne _ (by decide),
    fun h => absurd (hchars _ h) (by decide)⟩, fun h => absurd (hchars _ h) (by decide)⟩

/-- So many directories inside each other, each with a link to the next one, and a file in the
    innermost. -/
def deepFolder : Nat → Folder
  | 0 => .file "f.js" "".toUTF8 .empty
  | n + 1 => .folder longName (deepFolder n) (.link "l" longName .empty)

def deepPlace (n : Nat) : Location :=
  List.replicate n longName ++ ["f.js"]

theorem size_deepPlace (n : Nat) :
    (Disk.pathOf (deepPlace n)).text.utf8ByteSize = n * 251 + 5 := by
  have hfile : String.utf8ByteSize "f.js" = 4 := by decide
  rw [Disk.size_pathOf (by simp [deepPlace]), deepPlace, Disk.spelledSize_append,
    Disk.spelledSize_replicate, size_longName]
  simp [Disk.spelledSize, hfile]

theorem get?_deepFolder (n : Nat) :
    (deepFolder (n + 1)).get? longName = some (.folder (deepFolder n)) ∧
      (deepFolder (n + 1)).get? "l" = some (.link longName) := by
  have hne : ("l" == longName) = false := by decide +kernel
  simp [deepFolder, Folder.get?, Folder.entries, List.lookup_cons, hne]

theorem at?_deepPlace (n : Nat) : (deepFolder n).at? (deepPlace n) = some (.file "".toUTF8) := by
  induction n with
  | zero => rfl
  | succ n ih =>
    rw [deepPlace, List.replicate_succ, List.cons_append, Folder.at?_cons_eq,
      (get?_deepFolder n).1, Option.bind_some]
    exact ih

theorem proper_deepFolder (n : Nat) : (deepFolder n).Proper := by
  induction n with
  | zero => simp [deepFolder, Folder.Proper, IsName, Text.Holds, Folder.get?, Folder.entries]
  | succ n ih =>
    have hne : (longName == "l") = false := by decide +kernel
    refine ⟨isName_longName.1, ?_, ih, ?_⟩
    · simp [Folder.get?, Folder.entries, List.lookup_cons, hne]
    · simp [Folder.Proper, IsName, Text.Holds, Folder.get?, Folder.entries]

theorem fits_deepFolder (n : Nat) : (deepFolder n).Fits := by
  have hnames : ∀ name ∈ (deepFolder n).allNames,
      name = longName ∨ name = "l" ∨ name = "f.js" := by
    induction n with
    | zero => simp [deepFolder, Folder.allNames]
    | succ n ih =>
      intro name hname
      simp only [deepFolder, Folder.allNames, List.mem_cons, List.mem_append, List.not_mem_nil,
        or_false] at hname
      rcases hname with rfl | hname | rfl
      · exact .inl rfl
      · exact ih name hname
      · exact .inr (.inl rfl)
  intro name hname
  rcases hnames name hname with rfl | rfl | rfl
  · exact ⟨isName_longName.2, by simp [Disk.isLongName, Disk.nameLimit, size_longName]⟩
  · exact ⟨by simp [Text.Holds], by decide⟩
  · exact ⟨by simp [Text.Holds], by decide⟩

/-- In each directory the next one is found under its name and through the link. -/
theorem exists_way_deep {names : List String} (hnames : ∀ s ∈ names, s = "l" ∨ s = longName)
    {root : Folder} {at_ : Location}
    (hat : root.at? at_ = some (.folder (deepFolder names.length))) : ∃ n ≤ names.length,
      Disk.Way root at_ (names ++ ["f.js"]) n (at_ ++ deepPlace names.length) := by
  induction names generalizing at_ with
  | nil =>
    have hdown : Disk.stride root at_ "f.js" = some (.to (at_ ++ ["f.js"])) :=
      Disk.stride_down hat (e := .file "".toUTF8) (by simp [IsName, Text.Holds]) (by decide) rfl
        (by simp)
    exact ⟨0, le_rfl, .step hdown (.done _)⟩
  | cons s names ih =>
    have hshort : Disk.isLongName longName = false := by
      simp [Disk.isLongName, Disk.nameLimit, size_longName]
    obtain ⟨hfolder, hlink⟩ := get?_deepFolder names.length
    have hdown := Disk.stride_down hat isName_longName.1 hshort hfolder (by simp)
    have hat' : root.at? (at_ ++ [longName]) = some (.folder (deepFolder names.length)) := by
      rw [Folder.at?_append_singleton, hat]
      exact hfolder
    obtain ⟨n, hn, hway⟩ := ih (fun t ht => hnames t (List.mem_cons_of_mem s ht)) hat'
    have hplace : at_ ++ [longName] ++ deepPlace names.length =
        at_ ++ deepPlace (s :: names).length := by
      simp [deepPlace, List.replicate_succ]
    rw [hplace] at hway
    rcases hnames s List.mem_cons_self with rfl | rfl
    · have hjump := Disk.stride_along_link hat (by simp [IsName, Text.Holds]) (by decide) hlink
      have hrel : Path.isAbsolute ⟨longName⟩ = false :=
        isAbsolute_eq_false_of_segment isName_longName.1.2.2.2
      have hsplit : Text.splitChar '/' longName = [longName] :=
        segments_of_not_holds isName_longName.1.2.2.2
      rw [hrel, if_neg Bool.false_ne_true] at hjump
      refine ⟨n + 1, Nat.succ_le_succ hn, .jump hjump ?_⟩
      rw [hsplit]
      exact .step hdown hway
    · exact ⟨n, Nat.le_succ_of_le hn, .step hdown hway⟩

/-- A project in which the file in the innermost directory has no canonical path. -/
def deepSetting : Setting where
  disk := ⟨deepFolder 17, [], []⟩
  registry := .builtin
  matcher := ⟨⟨"/"⟩, none, true, true⟩
  canonicalize := true

/-- The names through which a path leads to this file: that of the first directory, or the link to
    it, and then links. -/
def deepNames (first : String) : List String :=
  first :: List.replicate 16 "l" ++ ["f.js"]

theorem size_deepNames (first : String) :
    (Disk.pathOf (deepNames first)).text.utf8ByteSize = first.utf8ByteSize + 38 := by
  have hlink : String.utf8ByteSize "l" = 1 := by decide
  have hfile : String.utf8ByteSize "f.js" = 4 := by decide
  rw [Disk.size_pathOf (by simp [deepNames]), deepNames, Disk.spelledSize_append,
    Disk.spelledSize, Disk.spelledSize_replicate]
  simp [Disk.spelledSize, hlink, hfile]

theorem leadsTo_deepNames {first : String} (hfirst : first = "l" ∨ first = longName) :
    (Disk.pathOf (deepNames first)).IsFull ∧
      deepSetting.disk.isFile (Disk.pathOf (deepNames first)) = true ∧
      deepSetting.disk.LeadsTo (Disk.pathOf (deepNames first)) (deepPlace 17) := by
  have hdirs : ∀ s ∈ first :: List.replicate 16 "l", s = "l" ∨ s = longName := by
    intro s hs
    rcases List.mem_cons.mp hs with rfl | hs
    · exact hfirst
    · exact .inl (List.eq_of_mem_replicate hs)
  have hnames : ∀ s ∈ deepNames first, IsName s ∧ ¬ Text.Holds '\x00' s := by
    intro s hs
    rcases List.mem_append.mp hs with hs | hs
    · rcases hdirs s hs with rfl | rfl
      · simp [IsName, Text.Holds]
      · exact ⟨isName_longName.1, isName_longName.2⟩
    · rw [List.mem_singleton.mp hs]
      simp [IsName, Text.Holds]
  have hsize : (Disk.pathOf (deepNames first)).text.utf8ByteSize ≤ Disk.pathLimit := by
    rw [size_deepNames]
    rcases hfirst with rfl | rfl
    · decide
    · rw [size_longName]
      decide
  have hroot : deepSetting.disk.root.at? [] =
      some (.folder (deepFolder (first :: List.replicate 16 "l").length)) := rfl
  obtain ⟨n, hn, hway⟩ := exists_way_deep hdirs hroot
  have hleads : deepSetting.disk.LeadsTo (Disk.pathOf (deepNames first)) (deepPlace 17) :=
    Disk.leadsTo_of_way (List.cons_ne_nil _ _) hnames
      (hn.trans (by simp [Disk.linkLimit])) hway
  exact ⟨Disk.isFull_pathOf fun s hs => (hnames s hs).1,
    Disk.isFile_iff.mpr ⟨_, hleads.entry?_eq_ok (at?_deepPlace 17) hsize⟩, hleads⟩

/-- It cannot be spelled out. -/
theorem not_canonical_deepNames {first : String} (hfirst : first = "l" ∨ first = longName)
    (q : Path) : deepSetting.disk.canonical (Disk.pathOf (deepNames first)) ≠ .ok q := by
  intro hcanonical
  obtain ⟨hfull, -, hleads⟩ := leadsTo_deepNames hfirst
  have hsize := Disk.size_canonical_le hfull.absolute hcanonical
  rw [hleads.eq_pathOf hcanonical, size_deepPlace] at hsize
  exact absurd hsize (by decide)

theorem identity_deepNames {first : String} (hfirst : first = "l" ∨ first = longName) :
    deepSetting.identity (Disk.pathOf (deepNames first)) = Disk.pathOf (deepNames first) := by
  obtain ⟨hfull, -, -⟩ := leadsTo_deepNames hfirst
  have hcanonicalize : deepSetting.canonicalize = true := rfl
  rw [Setting.identity, if_pos hfull.absolute, if_pos hcanonicalize]
  cases hcanonical : deepSetting.disk.canonical (Disk.pathOf (deepNames first)) with
  | ok q => exact absurd hcanonical (not_canonical_deepNames hfirst q)
  | error e => exact hfull.normal

/-- So a report has the file twice, under paths that are not canonical. -/
theorem deep_file_twice : deepSetting.disk.Proper ∧ deepSetting.disk.root.Fits ∧
    deepSetting.root.isAbsolute = true ∧ deepSetting.canonicalize = true ∧
    deepSetting.registry = .builtin ∧
    ∃ p q report, fromInputs deepSetting .listed [p, q] = .ok report ∧
      p ∈ report.files ∧ q ∈ report.files ∧ p ≠ q ∧ deepSetting.disk.SameFile p q ∧
      ¬ deepSetting.disk.IsCanonical p ∧ ¬ deepSetting.disk.IsCanonical q := by
  have hd : deepSetting.disk.Proper :=
    ⟨proper_deepFolder 17, by simp [deepSetting, Disk.HereNamed]⟩
  have hlink : "l" = "l" ∨ "l" = longName := .inl rfl
  have hname : longName = "l" ∨ longName = longName := .inr rfl
  have hinputs : ∀ input ∈ [Disk.pathOf (deepNames "l"), Disk.pathOf (deepNames longName)],
      deepSetting.identity input = input ∧ deepSetting.disk.isFile input = true := by
    intro input hinput
    rcases List.mem_pair.mp hinput with rfl | rfl
    · exact ⟨identity_deepNames hlink, (leadsTo_deepNames hlink).2.1⟩
    · exact ⟨identity_deepNames hname, (leadsTo_deepNames hname).2.1⟩
  have hreport := fromInputs_eq hd .listed fun input hinput => by
    obtain ⟨hidentity, hfile⟩ := hinputs input hinput
    obtain ⟨content, hentry⟩ := Disk.isFile_iff.mp hfile
    rw [hidentity, Disk.exists, hentry]
    rfl
  have hreported := fun input hinput => mem_files_of_input hd hreport hinput
    (hinputs input hinput).1 (hinputs input hinput).2
  refine ⟨hd, fits_deepFolder 17, rfl, rfl, rfl, _, _, _, hreport, hreported _ (by simp),
    hreported _ (by simp), fun heq => ?_, ?_, not_canonical_deepNames hlink _,
    not_canonical_deepNames hname _⟩
  · have hsize := size_deepNames "l"
    rw [heq, size_deepNames, size_longName] at hsize
    exact absurd hsize (by decide)
  · exact ⟨deepPlace 17, "".toUTF8, (leadsTo_deepNames hlink).2.2, (leadsTo_deepNames hname).2.2,
      at?_deepPlace 17⟩

end Discovery

end SourceWeb
