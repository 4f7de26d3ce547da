/-
  Runs that leave out more.

  With a matcher that goes by more of what a project may leave out, a run starts from fewer files
  and follows fewer references.  So all that it reaches is also reached with the other matcher.
-/
import SourceWeb.Proofs.Discovery.Input
import SourceWeb.Proofs.Ignore.Weaker

namespace SourceWeb.Discovery

open SourceWeb.Path
open SourceWeb.Ignore (RuleCache Matcher Exclude)

namespace Setting

def withMatcher (s : Setting) (m : Matcher) : Setting :=
  { s with matcher := m }

variable {s : Setting} {m : Matcher} (h : s.matcher.Weaker m)

include h

theorem identity_withMatcher : (s.withMatcher m).identity = s.identity := by
  funext p
  have hroot : (s.withMatcher m).root = s.root := h.projectRoot.symm
  simp only [identity, hroot]
  rfl

theorem missing_withMatcher (inputs : List Path) :
    (s.withMatcher m).missing inputs = s.missing inputs := by
  simp only [missing, identity_withMatcher h]
  rfl

theorem siteOf_withMatcher : (s.withMatcher m).siteOf = s.siteOf := by
  funext file
  have hroot : (s.withMatcher m).root = s.root := h.projectRoot.symm
  simp only [siteOf, hroot]
  rfl

/-- A file of an input is a file of it with the other matcher too. -/
theorem mem_filesOf_of_weaker (hd : s.disk.Proper) {input p : Path}
    (hp : p ∈ (s.withMatcher m).filesOf input) : p ∈ s.filesOf input := by
  rw [filesOf, identity_withMatcher h] at hp
  obtain ⟨q, hq, rfl⟩ := List.mem_map.mp hp
  exact List.mem_map_of_mem (h.listed hd hq)

/-- A reference that is followed is followed with the other matcher too, if both know only what
    walks taught them. -/
theorem Leads.of_weaker (hroot : s.disk.ReadsThrough s.root) {rules rules' : RuleCache}
    (hrules : RuleCache.Right (s.matcher.freshRules s.disk) rules)
    (hrules' : RuleCache.Right (m.freshRules s.disk) rules') {f t : Path}
    (hleads : (s.withMatcher m).Leads rules' f t) : s.Leads rules f t := by
  obtain ⟨r, hr, found, via, hfound, ht, hkept, hfile⟩ := hleads
  rw [siteOf_withMatcher h] at hfound
  rw [identity_withMatcher h] at ht
  refine ⟨r, hr, found, via, hfound, ht, ?_, hfile⟩
  have hroot' : s.disk.ReadsThrough m.projectRoot := h.projectRoot ▸ hroot
  have hkept : ((m.isIgnored s.disk t).run rules').1 = false := hkept
  rw [Matcher.isIgnored_start, Matcher.leavesOut_of_right hroot' hrules'] at hkept
  rw [Matcher.isIgnored_start, Matcher.leavesOut_of_right hroot hrules, ← Bool.not_eq_true]
  intro hleft
  rw [h.leavesOut hleft] at hkept
  exact Bool.false_ne_true hkept.symm

theorem Reached.of_weaker (hroot : s.disk.ReadsThrough s.root) {rules rules' : RuleCache}
    (hrules : RuleCache.Right (s.matcher.freshRules s.disk) rules)
    (hrules' : RuleCache.Right (m.freshRules s.disk) rules') {seeds seeds' : List Path}
    (hseeds : ∀ p ∈ seeds', p ∈ seeds) {p : Path}
    (hp : (s.withMatcher m).Reached rules' seeds' p) : s.Reached rules seeds p := by
  induction hp with
  | seed hp => exact .seed (hseeds _ hp)
  | follow _ hleads ih => exact .follow ih (hleads.of_weaker h hroot hrules hrules')

end Setting

/-- **What is left out only takes away.**  If a run with the matcher that goes by more succeeds, so
    does the run with the other one; and every file that it reports, and every scan, is reported
    there too.  The project root may be spelled in any way that the file system does not mind. -/
theorem fromInputs_of_weaker {s : Setting} {m : Matcher} (h : s.matcher.Weaker m)
    (hd : s.disk.Proper) (hroot : s.disk.ReadsThrough s.root) (order : SeedOrder)
    {inputs : List Path} {report' : Report}
    (hrun : fromInputs (s.withMatcher m) order inputs = .ok report') :
    ∃ report, fromInputs s order inputs = .ok report ∧
      (∀ p ∈ report'.files, p ∈ report.files) ∧
      ∀ p language n, .scanned p language n ∈ report'.events →
        .scanned p language n ∈ report.events := by
  have hd' : (s.withMatcher m).disk.Proper := hd
  have hof := seedsOf_of hd order inputs
  have hof' := seedsOf_of hd' order inputs
  unfold fromInputs at hrun ⊢
  generalize seedsOf s order inputs = seeds at hof ⊢
  generalize seedsOf (s.withMatcher m) order inputs = seeds' at hof' hrun
  have hmissing : seeds'.missing = seeds.missing := by
    rw [hof'.missing, hof.missing, Setting.missing_withMatcher h]
  have hseeds : ∀ p ∈ seeds'.files, p ∈ seeds.files := by
    intro p hp
    obtain ⟨input, hinput, hfile⟩ := (hof'.files p).mp hp
    exact (hof.files p).mpr ⟨input, hinput, Setting.mem_filesOf_of_weaker h hd hfile⟩
  have hreached : ∀ p, (s.withMatcher m).Reached seeds'.rules seeds'.files p →
      s.Reached seeds.rules seeds.files p :=
    fun p => Setting.Reached.of_weaker h hroot hof.rules.right hof'.rules.right hseeds
  dsimp only at hrun ⊢
  rw [hmissing] at hrun
  split at hrun
  · simp at hrun
  · rename_i hsome
    cases hrun
    refine ⟨_, if_neg hsome, fun p hp => ?_, fun p language n hp => ?_⟩
    · rw [mem_files_iff hd'.here (hof'.tidy hd')] at hp
      rw [mem_files_iff hd.here (hof.tidy hd)]
      exact hreached p hp
    · rw [scanned_mem_events_iff hd'.here (hof'.tidy hd')] at hp
      rw [scanned_mem_events_iff hd.here (hof.tidy hd)]
      exact hp.imp_right fun hp => ⟨hreached p hp.1, hp.2⟩

/-- A matcher for the chain of three files that leaves out the last one. -/
def shortMatcher : Matcher :=
  ⟨⟨"/"⟩, some ⟨"c", .set (.ranges [(67, 67), (99, 99)])⟩, true, true⟩

theorem chain_of_weaker : chainSetting.matcher.Weaker shortMatcher ∧ chainSetting.disk.Proper ∧
    chainSetting.disk.ReadsThrough chainSetting.root ∧
    ∃ report report',
      fromInputs (chainSetting.withMatcher shortMatcher) .listed [⟨"/b.txt"⟩] = .ok report' ∧
      fromInputs chainSetting .listed [⟨"/b.txt"⟩] = .ok report ∧
      ∀ p ∈ report'.files, p ∈ report.files := by
  have h : chainSetting.matcher.Weaker shortMatcher :=
    ⟨rfl, .inl rfl, fun _ => rfl, fun _ => rfl⟩
  have hd : chainSetting.disk.Proper := by
    constructor
    · simp [chainSetting, Folder.Proper, IsName, Text.Holds, Folder.get?, Folder.entries]
    · simp [chainSetting, Disk.HereNamed]
  have htidy : chainSetting.root.Tidy := rfl
  have hroot : chainSetting.disk.ReadsThrough chainSetting.root :=
    htidy.readsThrough chainSetting.disk
  have hinput : ∀ input ∈ [(⟨"/b.txt"⟩ : Path)], (chainSetting.withMatcher shortMatcher).disk.exists
      ((chainSetting.withMatcher shortMatcher).identity input) = true := by
    decide +kernel
  have hd' : (chainSetting.withMatcher shortMatcher).disk.Proper := hd
  have hrun' := fromInputs_eq hd' .listed hinput
  obtain ⟨report, hrun, hfiles, -⟩ := fromInputs_of_weaker h hd hroot .listed hrun'
  exact ⟨h, hd, hroot, report, _, hrun', hrun, hfiles⟩

/-- A project directory beside a file that refers to one in it, which its ignore file leaves out. -/
def maskedDisk : Disk :=
  ⟨.file "a.txt" "p/b.txt".toUTF8 (.folder "p"
    (.file ".gitignore" "b.txt".toUTF8 (.file "b.txt" "".toUTF8 .empty)) .empty), [], []⟩

/-- A matcher for this project that goes by its ignore files and an exclude pattern. -/
def maskedMatcher (exclude : Option Exclude) : Matcher :=
  ⟨⟨"/p"⟩, exclude, false, true⟩

/-- A run on this project. -/
def maskedSetting (exclude : Option Exclude) : Setting where
  disk := maskedDisk
  registry := ⟨[lineLanguage]⟩
  matcher := maskedMatcher exclude
  canonicalize := true

/-- The same run with the project root spelled in another way. -/
def maskedSetting.rootedAt (exclude : Option Exclude) (root : Path) : Setting :=
  (maskedSetting exclude).withMatcher ((maskedMatcher exclude).rootedAt root)

namespace maskedSetting

variable {exclude : Option Exclude} {root : Path}
  (hroot : root.components = Path.components ⟨"/p"⟩)
  (hlong : Disk.pathLimit < root.text.utf8ByteSize)

theorem identity_rootedAt {p : Path} (hp : p.isAbsolute = true) :
    (rootedAt exclude root).identity p = (maskedSetting none).identity p := by
  simp only [Setting.identity, hp, if_true]
  rfl

include hroot

/-- From the top, a run starts as with the short root. -/
theorem seedsOf_rootedAt {walked : List Path} {rules : RuleCache}
    (hrun : ((maskedMatcher exclude).walk maskedDisk ⟨"/"⟩).run [] = (walked, rules))
    (h : ∀ p ∈ walked, p.isAbsolute = true) :
    seedsOf (rootedAt exclude root) .listed [⟨"/"⟩] =
      ⟨(walked.map (maskedSetting none).identity).foldl State.addPath [], [], rules⟩ := by
  have hsame : root.same (maskedMatcher exclude).projectRoot = true := same_iff.mpr hroot
  have hwalk : (rootedAt exclude root).matcher.walk maskedDisk =
      (maskedMatcher exclude).walk maskedDisk :=
    funext (Matcher.walk_rootedAt hsame)
  have hinput : (maskedSetting none).identity ⟨"/"⟩ = ⟨"/"⟩ := by decide +kernel
  have hexists : maskedDisk.exists ⟨"/"⟩ = true := by decide +kernel
  have hmap : walked.map (rootedAt exclude root).identity =
      walked.map (maskedSetting none).identity :=
    List.map_congr_left fun p hp => identity_rootedAt (h p hp)
  have hdisk : (rootedAt exclude root).disk = maskedDisk := rfl
  rw [seedsOf, List.foldl_cons, List.foldl_nil, Seeds.add, identity_rootedAt (by decide), hinput,
    hdisk, hwalk]
  simp only [hrun, hmap, hexists, if_true]

include hlong

/-- Where nothing can be looked up through the root, what the ignore file says counts only as far as
    a walk remembers it. -/
theorem leavesOut_rootedAt (exclude : Option Exclude) (rules : RuleCache) :
    ((maskedMatcher exclude).rootedAt root).leavesOut maskedDisk rules ⟨"/p/b.txt"⟩ =
      (maskedMatcher exclude).covers ⟨"/p/b.txt"⟩ false ((rules.get? ⟨"/p"⟩).getD []) := by
  have hname : IsName "b.txt" := by simp [IsName, Text.Holds]
  have hgit : IsName ".gitignore" := by simp [IsName, Text.Holds]
  have hsize : ∀ n, IsName n → Disk.pathLimit < (root.child n).text.utf8ByteSize :=
    fun n hn => Nat.lt_of_lt_of_le hlong (size_le_size_child root hn)
  have hsame : root.same (maskedMatcher exclude).projectRoot = true := same_iff.mpr hroot
  have hknown : rules.get? root = rules.get? ⟨"/p"⟩ := rules.get?_eq_of_same hsame
  have hcomponents : Path.components ⟨"/p/b.txt"⟩ = root.components ++ [.name "b.txt"] := by
    rw [hroot]
    decide
  have hcovers := Matcher.covers_rootedAt hsame
  generalize hm : (maskedMatcher exclude).rootedAt root = m at hcovers ⊢
  have hmroot : m.projectRoot = root := hm ▸ rfl
  have huse : m.useIgnoreFiles = true := hm ▸ rfl
  have hrules : m.rulesUsed maskedDisk rules m.projectRoot = (rules.get? ⟨"/p"⟩).getD [] := by
    rw [Matcher.rulesUsed, huse, if_pos rfl]
    cases hget : rules.get? ⟨"/p"⟩ with
    | some found => exact Matcher.rulesIn_of_known (hmroot ▸ hknown.trans hget)
    | none =>
      rw [Matcher.rulesIn_root (hmroot ▸ hknown.trans hget), Matcher.localRules, hmroot]
      simp [Disk.isFile_of_long _ (hsize ".gitignore" hgit)]
  rw [Matcher.leavesOut_of_child hname (hmroot ▸ hcomponents), hrules, hcovers, hmroot,
    Disk.isDir_of_long _ (hsize "b.txt" hname)]

/-- The first file leads to the one in the project directory, as far as that is not left out. -/
theorem leads_rootedAt_iff {rules : RuleCache} {t : Path} :
    (rootedAt exclude root).Leads rules ⟨"/a.txt"⟩ t ↔ t = ⟨"/p/b.txt"⟩ ∧
      (maskedMatcher exclude).covers ⟨"/p/b.txt"⟩ false
        ((rules.get? ⟨"/p"⟩).getD []) = false := by
  have hreferences : (rootedAt exclude root).referencesOf ⟨"/a.txt"⟩ = [.plain "p/b.txt"] := by
    change (maskedSetting none).referencesOf ⟨"/a.txt"⟩ = _
    decide +kernel
  have hdir : ((rootedAt exclude root).siteOf ⟨"/a.txt"⟩).dir = ⟨"/"⟩ := by
    have hparent : Path.parent? ⟨"/a.txt"⟩ = some ⟨"/"⟩ := by decide
    rw [Site.dir, Setting.siteOf, hparent, Option.getD_some]
  have hresolve : (rootedAt exclude root).resolve ((rootedAt exclude root).siteOf ⟨"/a.txt"⟩)
      (.plain "p/b.txt") = some (⟨"/p/b.txt"⟩, "lines") := by
    change some (Path.child (Site.dir _) "p/b.txt", "lines") = _
    rw [hdir]
    decide
  have hidentity : (rootedAt exclude root).identity ⟨"/p/b.txt"⟩ = ⟨"/p/b.txt"⟩ := by
    rw [identity_rootedAt (by decide)]
    decide +kernel
  have hfile : maskedDisk.isFile ⟨"/p/b.txt"⟩ = true := by decide +kernel
  have hleft := leavesOut_rootedAt hroot hlong exclude rules
  constructor
  · rintro ⟨r, hr, found, via, hfound, ht, hkept, -⟩
    rw [hreferences, List.mem_singleton] at hr
    subst hr
    rw [hresolve] at hfound
    cases hfound
    rw [hidentity] at ht
    subst ht
    rw [Matcher.isIgnored_start] at hkept
    exact ⟨rfl, hleft.symm.trans hkept⟩
  · rintro ⟨rfl, hkept⟩
    refine ⟨.plain "p/b.txt", by simp [hreferences], ⟨"/p/b.txt"⟩, "lines", hresolve,
      hidentity.symm, ?_, hfile⟩
    rw [Matcher.isIgnored_start]
    exact hleft.trans hkept

/-- A run from the top reports the file of the project directory unless the walk taught the matcher
    to leave it out. -/
theorem exists_report (exclude : Option Exclude) (hwalked :
    (((maskedMatcher exclude).walk maskedDisk ⟨"/"⟩).run []).1 = [⟨"/a.txt"⟩] ∨
      (((maskedMatcher exclude).walk maskedDisk ⟨"/"⟩).run []).1 =
        [⟨"/a.txt"⟩, ⟨"/p/.gitignore"⟩]) :
    ∃ report, fromInputs (rootedAt exclude root) .listed [⟨"/"⟩] = .ok report ∧
      (⟨"/p/b.txt"⟩ ∈ report.files ↔ (maskedMatcher exclude).covers ⟨"/p/b.txt"⟩ false
        (((((maskedMatcher exclude).walk maskedDisk ⟨"/"⟩).run []).2.get? ⟨"/p"⟩).getD []) =
          false) := by
  generalize hrun : ((maskedMatcher exclude).walk maskedDisk ⟨"/"⟩).run [] = out at hwalked ⊢
  obtain ⟨walked, rules⟩ := out
  dsimp only at hwalked ⊢
  have hd : (rootedAt exclude root).disk.Proper := by
    constructor
    · simp [rootedAt, maskedSetting, maskedDisk, Setting.withMatcher, Folder.Proper, IsName,
        Text.Holds, Folder.get?, Folder.entries]
    · simp [rootedAt, maskedSetting, maskedDisk, Setting.withMatcher, Disk.HereNamed]
  have hinput : ∀ input ∈ [(⟨"/"⟩ : Path)], (rootedAt exclude root).disk.exists
      ((rootedAt exclude root).identity input) = true := by
    intro input hinput
    rw [List.mem_singleton.mp hinput, identity_rootedAt (by decide)]
    change maskedDisk.exists _ = true
    decide +kernel
  have hfiles : (walked.map (maskedSetting none).identity).foldl State.addPath [] = walked ∧
      (∀ p ∈ walked, p.isAbsolute = true) ∧ (∀ p ∈ walked, ofComponents p.components = p) ∧
      ⟨"/a.txt"⟩ ∈ walked ∧ ⟨"/p/b.txt"⟩ ∉ walked ∧
      ∀ p ∈ walked, p = ⟨"/a.txt"⟩ ∨ (maskedSetting none).referencesOf p = [] := by
    rcases hwalked with rfl | rfl <;> decide +kernel
  obtain ⟨hsame, habsolute, htidy, hfirst, hlast, hothers⟩ := hfiles
  have hseeds := seedsOf_rootedAt hroot hrun habsolute
  rw [hsame] at hseeds
  refine ⟨_, fromInputs_eq hd .listed hinput, ?_⟩
  rw [hseeds, mem_files_iff hd.here htidy]
  constructor
  · intro hreached
    have hall : ∀ p, (rootedAt exclude root).Reached rules walked p → p ∈ walked ∨
        p = ⟨"/p/b.txt"⟩ ∧ (maskedMatcher exclude).covers ⟨"/p/b.txt"⟩ false
          ((rules.get? ⟨"/p"⟩).getD []) = false := by
      intro p hp
      induction hp with
      | seed hp => exact .inl hp
      | @follow f t _ hleads ih =>
        -- only the first file refers to anything
        refine .inr ((leads_rootedAt_iff hroot hlong).mp ?_)
        have hsource : f = ⟨"/a.txt"⟩ ∨ (maskedSetting none).referencesOf f = [] := by
          rcases ih with hf | ⟨rfl, -⟩
          · exact hothers f hf
          · exact .inr (by decide +kernel)
        rcases hsource with rfl | hnone
        · exact hleads
        · obtain ⟨r, hr, -⟩ := hleads
          change r ∈ (maskedSetting none).referencesOf f at hr
          simp [hnone] at hr
    exact ((hall _ hreached).resolve_left hlast).2
  · intro hkept
    exact .follow (.seed hfirst) ((leads_rootedAt_iff hroot hlong).mpr ⟨rfl, hkept⟩)

end maskedSetting

/-- The pattern `^$`, which matches the relative path of the project root alone. -/
def rootExclude : Exclude :=
  ⟨"^$", .seq (.place .textStart) (.place .textEnd)⟩

/-- A run that a pattern keeps away from the project reports the file, one without it does not. -/
theorem more_files_rootedAt {root : Path} (hroot : root.components = Path.components ⟨"/p"⟩)
    (hlong : Disk.pathLimit < root.text.utf8ByteSize) :
    let s := maskedSetting.rootedAt none root
    let m := (maskedMatcher (some rootExclude)).rootedAt root
    s.matcher.Weaker m ∧ ∃ report report', fromInputs s .listed [⟨"/"⟩] = .ok report ∧
      fromInputs (s.withMatcher m) .listed [⟨"/"⟩] = .ok report' ∧
      ⟨"/p/b.txt"⟩ ∈ report'.files ∧ ⟨"/p/b.txt"⟩ ∉ report.files := by
  obtain ⟨report, hrun, hiff⟩ := maskedSetting.exists_report hroot hlong none
    (.inr (by decide +kernel))
  obtain ⟨report', hrun', hiff'⟩ := maskedSetting.exists_report hroot hlong
    (some rootExclude) (.inl (by decide +kernel))
  refine ⟨⟨rfl, .inl rfl, id, id⟩, report, report', hrun, hrun', hiff'.mpr ?_, ?_⟩
  · decide +kernel
  · rw [hiff]
    decide +kernel

/-- If the project root is spelled so long that its ignore file cannot be looked up, a file that is
    left out where a walk comes by that ignore file is reported once a pattern keeps the walk away
    from it. -/
theorem more_files_of_long_root :
    let root := Path.padded ⟨"/p"⟩ (Disk.pathLimit + 1)
    let s := maskedSetting.rootedAt none root
    let m := (maskedMatcher (some rootExclude)).rootedAt root
    s.matcher.Weaker m ∧ ∃ report report', fromInputs s .listed [⟨"/"⟩] = .ok report ∧
      fromInputs (s.withMatcher m) .listed [⟨"/"⟩] = .ok report' ∧
      ⟨"/p/b.txt"⟩ ∈ report'.files ∧ ⟨"/p/b.txt"⟩ ∉ report.files :=
  more_files_rootedAt (components_padded (by decide) _) (le_size_padded ⟨"/p"⟩ _)

end SourceWeb.Discovery
