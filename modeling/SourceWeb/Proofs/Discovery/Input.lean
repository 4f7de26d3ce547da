/-
  Runs from inputs: which files they start from, and which files of a report are left out.

  The files to start from are the identities of what the walks of the inputs list.  A listed path is
  never left out where its directory is not; its identity may be, since a link to a file is listed
  under its own name and known under that of the file.
-/
import SourceWeb.Discovery.Input
import SourceWeb.Proofs.Discovery.Closure
import SourceWeb.Proofs.Ignore.Listed

namespace SourceWeb.Discovery

open SourceWeb.Path
open SourceWeb.Ignore (RuleCache Matcher)

variable {s : Setting} {order : SeedOrder} {inputs : List Path}

/-! ### Seeds -/

theorem mem_sort {ps : List Path} {p : Path} : p ∈ sort ps ↔ p ∈ ps :=
  List.mem_mergeSort

namespace State

theorem mem_addPath {ps : List Path} {p q : Path} (hps : ∀ r ∈ ps, r.Tidy) (hp : p.Tidy) :
    q ∈ addPath ps p ↔ q ∈ ps ∨ q = p := by
  unfold addPath
  split
  · rename_i hin
    have hmem : p ∈ ps := (isIn_iff_mem hp hps).mp hin
    constructor
    · exact .inl
    · rintro (h | rfl)
      · exact h
      · exact hmem
  · simp

theorem mem_foldl_addPath {ps new : List Path} {q : Path} (hps : ∀ r ∈ ps, r.Tidy)
    (hnew : ∀ r ∈ new, r.Tidy) : q ∈ new.foldl addPath ps ↔ q ∈ ps ∨ q ∈ new := by
  induction new generalizing ps with
  | nil => simp
  | cons p new ih =>
    have hp : p.Tidy := hnew p (by simp)
    have hadd : ∀ r ∈ addPath ps p, r.Tidy := by
      intro r hr
      rcases (mem_addPath hps hp).mp hr with hr | rfl
      · exact hps r hr
      · exact hp
    rw [List.foldl_cons, ih hadd fun r hr => hnew r (by simp [hr]), mem_addPath hps hp, or_assoc,
      List.mem_cons]

end State

namespace Setting

/-- The files that an input stands for, as they are known. -/
def filesOf (s : Setting) (input : Path) : List Path :=
  (s.matcher.listed s.disk (s.identity input)).map s.identity

/-- The directories that an input makes the matcher look into. -/
def dirsOf (s : Setting) (input : Path) : List Path :=
  s.matcher.askedFrom s.disk (s.identity input)

/-- What is reported of an input that leads nowhere. -/
def missing (s : Setting) (inputs : List Path) : List Event :=
  (inputs.filter fun p => !s.disk.exists (s.identity p)).map fun p => .missingInput (s.identity p)

end Setting

/-- The seeds of some inputs. -/
structure Seeds.Of (s : Setting) (inputs : List Path) (seeds : Seeds) : Prop where
  files : ∀ p, p ∈ seeds.files ↔ ∃ input ∈ inputs, p ∈ s.filesOf input
  missing : seeds.missing = s.missing inputs
  rules : s.matcher.Asked s.disk (inputs.flatMap s.dirsOf) seeds.rules

theorem Seeds.Of.tidy {seeds : Seeds} (hd : s.disk.Proper) (h : seeds.Of s inputs) :
    ∀ p ∈ seeds.files, p.Tidy := by
  intro p hp
  obtain ⟨input, -, hfile⟩ := (h.files p).mp hp
  obtain ⟨q, -, rfl⟩ := List.mem_map.mp hfile
  exact s.tidy_identity hd.here q

theorem Setting.tidy_of_mem_dirsOf (hd : s.disk.Proper) {dir : Path}
    (h : dir ∈ inputs.flatMap s.dirsOf) : dir.Tidy := by
  obtain ⟨input, -, hdir⟩ := List.mem_flatMap.mp h
  exact Matcher.tidy_of_mem_askedFrom hd (s.tidy_identity hd.here input) hdir

theorem Seeds.Of.add {seeds : Seeds} (hd : s.disk.Proper) (h : seeds.Of s inputs) (input : Path) :
    (seeds.add s order input).Of s (inputs ++ [input]) := by
  have htidy : (s.identity input).Tidy := s.tidy_identity hd.here input
  obtain ⟨rules, hwalk, hasked⟩ := Matcher.walk_asked hd
    (fun _ => Setting.tidy_of_mem_dirsOf hd) h.rules htidy
  have hfound : ∀ p ∈ (s.matcher.listed s.disk (s.identity input)).map s.identity, p.Tidy := by
    intro p hp
    obtain ⟨q, -, rfl⟩ := List.mem_map.mp hp
    exact s.tidy_identity hd.here q
  unfold Seeds.add
  simp only [hwalk]
  split
  · rename_i hexists
    refine ⟨fun p => ?_, ?_, hasked.of_mem_iff fun dir => ?_⟩
    · have hfiles : p ∈ seeds.files ∨ p ∈ s.filesOf input ↔
          ∃ input' ∈ inputs ++ [input], p ∈ s.filesOf input' := by
        rw [h.files]
        simp [or_and_right, exists_or]
      rw [← hfiles]
      cases order with
      | listed => exact State.mem_foldl_addPath (h.tidy hd) hfound
      | sorted =>
        refine (State.mem_foldl_addPath (h.tidy hd) fun r hr => hfound r (mem_sort.mp hr)).trans ?_
        rw [mem_sort]
        rfl
    · simp [h.missing, Setting.missing, hexists]
    · simp [Setting.dirsOf, or_comm]
  · rename_i hexists
    obtain ⟨e, he⟩ : ∃ e, s.disk.entry? (s.identity input) = .error e := by
      cases hentry : s.disk.entry? (s.identity input) with
      | error e => exact ⟨e, rfl⟩
      | ok entry => simp [Disk.exists, hentry, Except.isOk, Except.toBool] at hexists
    refine ⟨fun p => ?_, ?_, h.rules.of_mem_iff fun dir => ?_⟩
    · rw [h.files]
      simp [Setting.filesOf, Matcher.listed, he, or_and_right, exists_or]
    · simp [h.missing, Setting.missing, hexists]
    · simp [Setting.dirsOf, Matcher.askedFrom, he]

theorem seedsOf_of (hd : s.disk.Proper) (order : SeedOrder) (inputs : List Path) :
    (seedsOf s order inputs).Of s inputs := by
  induction inputs using List.reverseRecOn with
  | nil => exact ⟨by simp [seedsOf], rfl, s.matcher.asked_nil s.disk⟩
  | append_singleton inputs input ih =>
    rw [seedsOf, List.foldl_append]
    exact ih.add hd input

/-- A report is that of the run from the files of the inputs. -/
theorem eq_discover_of_fromInputs {report : Report}
    (h : fromInputs s order inputs = .ok report) :
    report = discover s (seedsOf s order inputs).files (seedsOf s order inputs).missing
      (seedsOf s order inputs).rules := by
  unfold fromInputs at h
  dsimp only at h
  split at h
  · cases h
  · exact (Except.ok.inj h).symm

/-! ### Runs from directories -/

theorem Setting.exists_of_isDir {d : Disk} {p : Path} (h : d.isDir p = true) :
    d.exists p = true := by
  obtain ⟨f, hf⟩ := Disk.isDir_iff.mp h
  rw [Disk.exists, hf]
  rfl

theorem fromInputs_eq (hd : s.disk.Proper) (order : SeedOrder)
    (hinputs : ∀ input ∈ inputs, s.disk.exists (s.identity input) = true) :
    fromInputs s order inputs =
      .ok (discover s (seedsOf s order inputs).files [] (seedsOf s order inputs).rules) := by
  have hmissing : (seedsOf s order inputs).missing = [] := by
    rw [(seedsOf_of hd order inputs).missing, Setting.missing, List.map_eq_nil_iff,
      List.filter_eq_nil_iff]
    intro input hinput
    simp [hinputs input hinput]
  rw [fromInputs]
  simp only [hmissing]
  split
  · rename_i hfail
    cases inputs <;> simp at hfail
  · rfl

/-- A file that is an input and known under its own path is in the report. -/
theorem mem_files_of_input (hd : s.disk.Proper) {order : SeedOrder} {report : Report}
    (hreport : fromInputs s order inputs = .ok report) {input : Path} (hinput : input ∈ inputs)
    (hidentity : s.identity input = input) (hfile : s.disk.isFile input = true) :
    input ∈ report.files := by
  have hof := seedsOf_of hd order inputs
  obtain ⟨content, hentry⟩ := Disk.isFile_iff.mp hfile
  have hseed : input ∈ s.filesOf input := by
    rw [Setting.filesOf, hidentity, Matcher.listed, hentry, List.map_singleton, hidentity]
    exact List.mem_singleton_self input
  rw [eq_discover_of_fromInputs hreport]
  exact (mem_files_iff hd.here (hof.tidy hd) _).mpr
    (.seed ((hof.files input).mpr ⟨input, hinput, hseed⟩))

/-- **Which files of a run from directories are left out.**  Where all inputs are directories of
    the project that are not left out, a report holds a file that is left out if and only if a walk
    lists a path with a link on its way whose identity is left out. -/
theorem exists_leftOut_iff (hd : s.disk.Proper) (hroot : s.root.Tidy) (order : SeedOrder)
    (hinputs : ∀ input ∈ inputs, s.disk.isDir (s.identity input) = true ∧
      (s.identity input).startsWith s.root = true ∧
      ((s.matcher.isIgnored s.disk (s.identity input)).run []).1 = false) :
    ∃ report, fromInputs s order inputs = .ok report ∧
      ((∃ f ∈ report.files, ((s.matcher.isIgnored s.disk f).run []).1 = true) ↔
        ∃ input ∈ inputs, ∃ p ∈ ((s.matcher.walk s.disk (s.identity input)).run []).1,
          ¬ s.disk.Plain p ∧
            ((s.matcher.isIgnored s.disk (s.identity p)).run []).1 = true) := by
  have hof := seedsOf_of hd order inputs
  generalize hseeds : seedsOf s order inputs = seeds at hof
  refine ⟨_, fromInputs_eq hd order fun input h => Setting.exists_of_isDir (hinputs input h).1, ?_⟩
  rw [hseeds]
  have hwalk : ∀ input, ((s.matcher.walk s.disk (s.identity input)).run []).1 =
      s.matcher.listed s.disk (s.identity input) := by
    intro input
    obtain ⟨cache, hrun, -⟩ := Matcher.walk_asked hd (by simp) (s.matcher.asked_nil s.disk)
      (s.tidy_identity hd.here input)
    rw [hrun]
  simp only [hwalk, mem_files_iff hd.here (hof.tidy hd) [], Matcher.isIgnored_start] at hinputs ⊢
  constructor
  · rintro ⟨f, hf, hleft⟩
    cases hf with
    | seed hf =>
      obtain ⟨input, hinput, hfile⟩ := (hof.files f).mp hf
      obtain ⟨p, hp, rfl⟩ := List.mem_map.mp hfile
      obtain ⟨hdir, hbelow, hkept⟩ := hinputs input hinput
      refine ⟨input, hinput, p, hp, fun hplain => ?_, hleft⟩
      rw [Setting.identity_of_plain hd hplain, Matcher.leavesOut_of_mem_listed hd hroot
        (s.tidy_identity hd.here input) hdir hbelow hkept hp] at hleft
      exact Bool.false_ne_true hleft
    | follow _ h =>
      obtain ⟨r, -, found, via, -, -, hignored, -⟩ := h
      rw [Matcher.isIgnored_start, Matcher.leavesOut_eq hroot hof.rules.right, hleft] at hignored
      exact absurd hignored (by simp)
  · rintro ⟨input, hinput, p, hp, -, hleft⟩
    exact ⟨s.identity p, .seed ((hof.files _).mpr ⟨input, hinput, List.mem_map_of_mem hp⟩), hleft⟩

/-- A project in which a link of the project directory leads to a file of a directory that is left
    out. -/
def linkSetting : Setting where
  disk := ⟨.folder "p" (.link "b.txt" "target/a.txt"
    (.folder "target" (.file "a.txt" "".toUTF8 .empty) .empty)) .empty, [], []⟩
  registry := ⟨[lineLanguage]⟩
  matcher := ⟨⟨"/p"⟩, none, true, true⟩
  canonicalize := true

/-- The file behind the link is in the report, although it is left out. -/
theorem leftOut_behind_link :
    ∃ report, fromInputs linkSetting .listed [⟨"/p"⟩] = .ok report ∧ ∃ f ∈ report.files,
      ((linkSetting.matcher.isIgnored linkSetting.disk f).run []).1 = true := by
  have hd : linkSetting.disk.Proper := by
    constructor
    · simp [linkSetting, Folder.Proper, IsName, Text.Holds, Folder.get?, Folder.entries]
    · simp [linkSetting, Disk.HereNamed]
  have hplain : ¬ linkSetting.disk.Plain ⟨"/p/b.txt"⟩ := by
    intro h
    have := Setting.identity_of_plain hd h
    revert this
    decide +kernel
  have hinputs : ∀ input ∈ [(⟨"/p"⟩ : Path)],
      linkSetting.disk.isDir (linkSetting.identity input) = true ∧
      (linkSetting.identity input).startsWith linkSetting.root = true ∧
      ((linkSetting.matcher.isIgnored linkSetting.disk (linkSetting.identity input)).run []).1 =
        false := by
    decide +kernel
  obtain ⟨report, hreport, hiff⟩ := exists_leftOut_iff hd rfl .listed hinputs
  refine ⟨report, hreport, hiff.mpr ⟨⟨"/p"⟩, by simp, ⟨"/p/b.txt"⟩, ?_, hplain, ?_⟩⟩
  · decide +kernel
  · decide +kernel

end SourceWeb.Discovery
