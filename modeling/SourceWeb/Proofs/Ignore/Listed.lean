/-
  Which paths a walk lists.

  A walk tests every entry once, under the rules for its directory, and does not enter directories
  that are left out; a question about a path tests all directories on its way again.  From a
  directory of the project that is not left out, both leave out the same.
-/
import SourceWeb.Proofs.Disk.Names
import SourceWeb.Proofs.Ignore.Spelling
import SourceWeb.Proofs.Path.Apart

namespace SourceWeb

open SourceWeb.Path

namespace Ignore.Matcher

open RuleCache (Grown)

variable {m : Matcher} {disk : Disk} {rules : Path → List Rule} {start : RuleCache}

/-! ### The listed paths -/

/-- Does a walk list an entry of this kind, if it is kept? -/
def lists (disk : Disk) (p : Path) : Entry → Prop
  | .file _ => True
  | .link _ => disk.isFile p = true
  | .special | .folder _ => False

/-- Are all entries on the way of the names kept, the last of which stands for no directory? -/
def passes (m : Matcher) (rules : Path → List Rule) : Path → List String → Bool
  | _, [] => true
  | dir, name :: names =>
    m.keeps rules dir name (!names.isEmpty) && passes m rules (dir.child name) names

/-- Does a walk list the path for the entry that names lead to? -/
def ListedAt (m : Matcher) (disk : Disk) (rules : Path → List Rule) (dir p : Path)
    (names : List String) (e : Entry) : Prop :=
  lists disk p e ∧ p = dir.downNames names ∧ m.passes rules dir names = true ∧
    disk.opensAlong dir names = true

theorem not_listedAt_folder {dir p : Path} {names : List String} (f : Folder) :
    ¬ m.ListedAt disk rules dir p names (.folder f) :=
  fun h => h.1

/-- An entry that is no directory is listed if it is kept. -/
theorem exists_listedAt_iff {dir p : Path} (hopen : disk.canList dir = true) {name : String}
    {e : Entry} (he : ∀ f, e ≠ .folder f) :
    (∃ names e', e.at? names = some e' ∧ m.ListedAt disk rules dir p (name :: names) e') ↔
      m.keeps rules dir name false = true ∧ lists disk (dir.child name) e ∧ p = dir.child name := by
  simp only [Entry.at?_eq_some he, ListedAt]
  constructor
  · rintro ⟨_, _, ⟨rfl, rfl⟩, hlists, hp, hpasses, -⟩
    rw [downNames_singleton] at hp
    exact ⟨by simpa [passes] using hpasses, hp ▸ hlists, hp⟩
  · rintro ⟨hkeeps, hlists, rfl⟩
    exact ⟨[], e, ⟨rfl, rfl⟩, hlists, rfl, by simpa [passes] using hkeeps,
      by simp [Disk.opensAlong, hopen]⟩

/-- What a directory holds is listed if the directory is entered and it is listed from there. -/
theorem exists_listedAt_folder {dir p : Path} (hopen : disk.canList dir = true) {name : String}
    {inside : Folder} :
    (∃ names e, (Entry.folder inside).at? names = some e ∧
        m.ListedAt disk rules dir p (name :: names) e) ↔
      m.enters disk rules dir name = true ∧
        ∃ names e, inside.at? names = some e ∧
          m.ListedAt disk rules (dir.child name) p names e := by
  rw [enters, Bool.and_eq_true]
  constructor
  · rintro ⟨names, e, hat, hlists, hp, hpasses, hopens⟩
    rw [passes, Bool.and_eq_true] at hpasses
    rw [Disk.opensAlong, Bool.and_eq_true] at hopens
    cases names with
    | nil =>
      cases hat
      exact hlists.elim
    | cons n names =>
      have hlist := (Bool.and_eq_true _ _).mp hopens.2
      exact ⟨⟨hpasses.1, hlist.1⟩, n :: names, e, hat, hlists, hp, hpasses.2, hopens.2⟩
  · rintro ⟨⟨hkeeps, -⟩, names, e, hat, hlists, hp, hpasses, hopens⟩
    refine ⟨names, e, hat, hlists, hp, ?_, by rw [Disk.opensAlong, hopen, hopens]; rfl⟩
    cases names with
    | nil =>
      cases hat
      exact hlists.elim
    | cons n names =>
      rw [passes, hpasses, Bool.and_true]
      exact hkeeps

theorem exists_listedAt_cons {dir p : Path} {name : String} {e : Entry} {others : Folder}
    (hnew : others.get? name = none) :
    (∃ names e', (Folder.cons name e others).at? names = some e' ∧
        m.ListedAt disk rules dir p names e') ↔
      (∃ names e', e.at? names = some e' ∧ m.ListedAt disk rules dir p (name :: names) e') ∨
        ∃ names e', others.at? names = some e' ∧ m.ListedAt disk rules dir p names e' :=
  Folder.exists_at?_cons hnew fun f => not_listedAt_folder f

/-- **What a walk lists.**  The paths of files and of links to files, if they are kept and so are
    all directories on the way, which can be listed. -/
theorem mem_listFolder {f : Folder} (hf : f.Proper) {dir p : Path}
    (hopen : disk.canList dir = true) :
    p ∈ m.listFolder disk rules dir f ↔
      ∃ names e, f.at? names = some e ∧ m.ListedAt disk rules dir p names e := by
  induction f generalizing dir with
  | empty =>
    simp only [listFolder, List.not_mem_nil, false_iff]
    rintro ⟨names, e, hat, hlisted⟩
    cases names with
    | nil =>
      cases hat
      exact not_listedAt_folder _ hlisted
    | cons name names => simp [Folder.at?_cons_eq, Folder.get?, Folder.entries] at hat
  | file name content others ih =>
    refine Iff.trans ?_ (exists_listedAt_cons (e := .file content) hf.2.1).symm
    rw [listFolder, List.mem_append, ih hf.2.2 hopen, exists_listedAt_iff hopen (by simp)]
    refine or_congr_left ?_
    cases m.keeps rules dir name false <;> simp [lists]
  | link name target others ih =>
    refine Iff.trans ?_ (exists_listedAt_cons (e := .link target) hf.2.1).symm
    rw [listFolder, List.mem_append, ih hf.2.2 hopen, exists_listedAt_iff hopen (by simp)]
    refine or_congr_left ?_
    by_cases hfile : disk.isFile (dir.child name) = true <;>
      cases m.keeps rules dir name false <;> simp [lists, hfile]
  | special name others ih =>
    refine Iff.trans ?_ (exists_listedAt_cons (e := .special) hf.2.1).symm
    rw [listFolder, ih hf.2.2 hopen, exists_listedAt_iff hopen (by simp)]
    simp [lists]
  | folder name inside others ihInside ih =>
    refine Iff.trans ?_ (exists_listedAt_cons (e := .folder inside) hf.2.1).symm
    rw [listFolder, List.mem_append, ih hf.2.2.2 hopen, exists_listedAt_folder hopen]
    refine or_congr_left ?_
    cases henters : m.enters disk rules dir name with
    | false => simp
    | true => simp [ihInside hf.2.2.1 ((Bool.and_eq_true _ _).mp henters).2]

/-- From a directory that cannot be listed itself nothing is listed. -/
theorem mem_listFolder_iff {f : Folder} (hf : f.Proper) {dir p : Path} :
    (p ∈ if disk.canList dir then m.listFolder disk rules dir f else []) ↔
      ∃ names e, f.at? names = some e ∧ m.ListedAt disk rules dir p names e := by
  split
  · exact mem_listFolder hf ‹_›
  · rename_i hclosed
    simp only [List.not_mem_nil, false_iff]
    rintro ⟨names, e, hat, hlists, -, -, hopens⟩
    cases names with
    | nil =>
      cases hat
      exact hlists.elim
    | cons name names => exact hclosed ((Bool.and_eq_true _ _).mp hopens).1

/-- A listed path goes down from the directory through one of its entries. -/
theorem exists_of_mem_listFolder {f : Folder} (hf : f.Proper) {dir p : Path}
    (hopen : disk.canList dir = true) (h : p ∈ m.listFolder disk rules dir f) :
    ∃ name names, (f.get? name).isSome = true ∧
      (∀ s ∈ name :: names, IsName s) ∧ p = dir.downNames (name :: names) := by
  obtain ⟨names, e, hat, hlisted⟩ := (mem_listFolder hf hopen).mp h
  cases names with
  | nil =>
    cases hat
    exact absurd hlisted (not_listedAt_folder _)
  | cons name names =>
    refine ⟨name, names, ?_, (hf.of_at? hat).1, hlisted.2.1⟩
    rw [Folder.at?_cons_eq] at hat
    cases hget : f.get? name with
    | none => simp [hget] at hat
    | some e => rfl

/-- What goes down through one entry is apart from what is listed through others. -/
theorem same_eq_false_of_mem {others : Folder} (hothers : others.Proper) {name : String}
    (hnew : others.get? name = none) {dir q : Path} (hopen : disk.canList dir = true)
    {names : List String} (hnames : ∀ s ∈ name :: names, IsName s)
    (hq : q ∈ m.listFolder disk rules dir others) :
    (dir.downNames (name :: names)).same q = false := by
  obtain ⟨name', names', hget, hnames', rfl⟩ := exists_of_mem_listFolder hothers hopen hq
  have hne : name ≠ name' := by
    rintro rfl
    simp [hnew] at hget
  rw [← Bool.not_eq_true, same_iff, components_downNames _ hnames, components_downNames _ hnames']
  intro heq
  have hheads := List.append_cancel_left heq
  simp [hne] at hheads

/-- No path is listed twice. -/
theorem apart_listFolder {f : Folder} (hf : f.Proper) {dir : Path}
    (hopen : disk.canList dir = true) : Apart (m.listFolder disk rules dir f) := by
  have hone : ∀ (b : Bool) (p : Path), Apart (if b then [p] else []) := by
    intro b p
    cases b
    · exact .nil
    · exact List.pairwise_singleton _ _
  induction f generalizing dir with
  | empty => exact .nil
  | file name content others ih =>
    refine List.pairwise_append.mpr ⟨hone _ _, ih hf.2.2 hopen, ?_⟩
    intro p hp q hq
    split at hp
    · rw [List.mem_singleton.mp hp, ← downNames_singleton]
      exact same_eq_false_of_mem hf.2.2 hf.2.1 hopen (by simpa using hf.1) hq
    · simp at hp
  | link name target others ih =>
    refine List.pairwise_append.mpr ⟨hone _ _, ih hf.2.2 hopen, ?_⟩
    intro p hp q hq
    split at hp
    · rw [List.mem_singleton.mp hp, ← downNames_singleton]
      exact same_eq_false_of_mem hf.2.2 hf.2.1 hopen (by simpa using hf.1) hq
    · simp at hp
  | special name others ih => exact ih hf.2.2 hopen
  | folder name inside others ihInside ih =>
    obtain ⟨hname, hnew, hinside, hothers⟩ := hf
    refine List.pairwise_append.mpr ⟨?_, ih hothers hopen, ?_⟩
    · split
      · rename_i henters
        exact ihInside hinside ((Bool.and_eq_true _ _).mp henters).2
      · exact .nil
    · intro p hp q hq
      split at hp
      · rename_i henters
        obtain ⟨n, names, -, hnames, rfl⟩ :=
          exists_of_mem_listFolder hinside ((Bool.and_eq_true _ _).mp henters).2 hp
        rw [← downNames_cons]
        exact same_eq_false_of_mem hothers hnew hopen (List.forall_mem_cons.mpr ⟨hname, hnames⟩) hq
      · simp at hp

/-! ### Questions about listed paths -/

/-- Is one of the directories that lead from `parent` down through the components left out? -/
def leavesOutWay (m : Matcher) (rules : Path → List Rule) : Path → List Component → Bool
  | _, [] => false
  | parent, c :: cs =>
    m.covers (parent.child c.text) true (rules parent) ||
      leavesOutWay m rules (parent.child c.text) cs

theorem leavesOut_of_components {p : Path} {cs : List Component}
    (h : p.components = m.projectRoot.components ++ cs) :
    m.leavesOut disk start p = m.leavesOutBelow disk start m.projectRoot cs := by
  simp only [leavesOut, below?_eq_some.mpr h]

/-- An entry of the project directory is left out or not by what is known about this directory. -/
theorem leavesOut_of_child {p : Path} {n : String} (hn : IsName n)
    (h : p.components = m.projectRoot.components ++ [.name n]) :
    m.leavesOut disk start p = m.covers p (disk.isDir (m.projectRoot.child n))
      (m.rulesUsed disk start m.projectRoot) := by
  have hsame : (m.projectRoot.child n).same p = true := by
    rw [same_iff, components_child_name _ hn, h]
  rw [leavesOut_of_components h, leavesOutBelow, leavesOutBelow, Bool.or_false,
    ← m.covers_eq_of_same hsame]
  rfl

/-- A path is left out on the way to a directory, or from there. -/
theorem leavesOutBelow_append (parent : Path) (cs : List Component) {ds : List Component}
    (hds : ds ≠ []) : m.leavesOutBelow disk start parent (cs ++ ds) =
      (m.leavesOutWay (m.rulesUsed disk start) parent cs ||
        m.leavesOutBelow disk start (parent.down cs) ds) := by
  induction cs generalizing parent with
  | nil => rfl
  | cons c cs ih =>
    have hmore : (cs ++ ds).isEmpty = false := by simp [hds]
    rw [List.cons_append, leavesOutBelow, ih, leavesOutWay, Bool.or_assoc, hmore]
    rfl

/-- On the way to what is in a directory that is not left out nothing is left out. -/
theorem leavesOutWay_eq_false {parent : Path} {cs : List Component}
    (h : m.leavesOutBelow disk start parent cs = false)
    (hdir : disk.isDir (parent.down cs) = true) :
    m.leavesOutWay (m.rulesUsed disk start) parent cs = false := by
  induction cs generalizing parent with
  | nil => rfl
  | cons c cs ih =>
    rw [leavesOutBelow, Bool.or_eq_false_iff] at h
    rw [leavesOutWay, ih h.2 hdir, Bool.or_false]
    refine Eq.trans ?_ h.1
    cases cs with
    | nil =>
      have hdir : disk.isDir (parent.child c.text) = true := hdir
      rw [hdir]
      rfl
    | cons d cs => rfl

/-- From a directory on, a path is left out unless a walk passes all of its names. -/
theorem leavesOutBelow_names {dir : Path} {names : List String} (hne : names ≠ [])
    (hend : disk.isDir (dir.downNames names) = false) :
    m.leavesOutBelow disk start dir (names.map .name) =
      !m.passes (m.rulesUsed disk start) dir names := by
  induction names generalizing dir with
  | nil => exact absurd rfl hne
  | cons name names ih =>
    rw [List.map_cons, leavesOutBelow, passes]
    cases names with
    | nil =>
      rw [downNames_singleton] at hend
      simp [Component.text, hend, passes, keeps, leavesOutBelow]
    | cons n names =>
      rw [downNames_cons] at hend
      have hrest := ih (by simp) hend
      simp only [Component.text, hrest, keeps]
      simp

theorem passes_eq_of_same (hrules : ∀ p q : Path, p.same q = true → rules p = rules q)
    {names : List String} (hnames : ∀ s ∈ names, IsName s) {p q : Path} (h : p.same q = true) :
    m.passes rules p names = m.passes rules q names := by
  induction names generalizing p q with
  | nil => rfl
  | cons name names ih =>
    have hname : IsName name := hnames name (by simp)
    have hchild : (p.child name).same (q.child name) = true := by
      rw [same_iff, components_child_name p hname, components_child_name q hname, same_iff.mp h]
    rw [passes, passes, keeps, keeps, m.covers_eq_of_same hchild, hrules p q h,
      ih (fun s hs => hnames s (by simp [hs])) hchild]

section

variable (hroot : disk.ReadsThrough m.projectRoot) {dir : Path} (hdir : disk.ReadsThrough dir)
  (hisDir : disk.isDir dir = true) (hbelow : dir.startsWith m.projectRoot = true)
  (hkept : m.leavesOut disk start dir = false)

include hroot hdir hisDir hbelow hkept

/-- Below a directory of the project that is not left out, a path that leads to no directory is left
    out unless a walk passes its names. -/
theorem leavesOut_downNames {names : List String} (hne : names ≠ [])
    (hnames : ∀ s ∈ names, IsName s) (hend : disk.isDir (dir.downNames names) = false) :
    m.leavesOut disk start (dir.downNames names) =
      !m.passes (m.rulesUsed disk start) dir names := by
  obtain ⟨cs, hcs⟩ := startsWith_iff.mp hbelow
  have hspelled : Spelled (m.projectRoot.components ++ cs) := hcs ▸ spelled_components dir
  have hnamed : (dir.downNames names).components =
      m.projectRoot.components ++ (cs ++ names.map .name) := by
    rw [components_downNames _ hnames, hcs, List.append_assoc]
  have hsame : (m.projectRoot.down cs).same dir = true := by
    rw [same_iff, components_down hspelled, hcs]
  have hdown : disk.isDir ((m.projectRoot.down cs).downNames names) = false := by
    rw [← hend, downNames, downNames, ← down_append]
    refine (hroot.alike hdir ?_ ?_).isDir
    · rw [← hnamed]
      exact spelled_components _
    · rw [hcs, List.append_assoc]
  have hway : m.leavesOutWay (m.rulesUsed disk start) m.projectRoot cs = false := by
    rw [leavesOut_of_components hcs] at hkept
    refine leavesOutWay_eq_false hkept ?_
    have halike : disk.Alike (m.projectRoot.down cs) (dir.down []) :=
      hroot.alike hdir hspelled (by rw [hcs, List.append_nil])
    exact halike.isDir.trans hisDir
  rw [leavesOut_of_components hnamed, leavesOutBelow_append _ _ (by simpa using hne), hway,
    Bool.false_or, leavesOutBelow_names hne hdown]
  refine congrArg (!·) (passes_eq_of_same ?_ hnames hsame)
  intro p q hpq
  rw [rulesUsed, rulesUsed, rulesIn_eq_of_same m disk start hpq]

end

/-- A chain of names to a file or to a link to one leads to no directory. -/
theorem isDir_eq_false_of_lists {dir : Path} {f : Folder} (hdir : disk.entry? dir = .ok (.folder f))
    {names : List String} (hnames : ∀ s ∈ names, IsName s) {e : Entry}
    (hat : f.at? names = some e) (hlists : lists disk (dir.downNames names) e) :
    names ≠ [] ∧ disk.isDir (dir.downNames names) = false := by
  rcases List.eq_nil_or_concat names with rfl | ⟨init, name, rfl⟩
  · cases hat
    exact hlists.elim
  · rw [List.concat_eq_append] at hnames hat hlists ⊢
    refine ⟨by simp, ?_⟩
    cases e with
    | folder inside => exact hlists.elim
    | special => exact hlists.elim
    | link target => exact Disk.isDir_eq_false_of_isFile hlists
    | file content =>
      have hne : dir.text ≠ "" := by
        intro hempty
        obtain ⟨hcheck, -⟩ := Disk.entry?_eq_ok.mp hdir
        simp [Disk.checkPath, hempty] at hcheck
      have hstands := (Disk.stands_of_entry? hdir).downNames hne hnames hat (by simp)
      rw [downNames_concat] at hstands ⊢
      exact hstands.isDir_eq_false (c := .name name) (hnames name (by simp)) (by simp)

theorem fileBelow_iff {dir p : Path} {f : Folder} (hdir : disk.entry? dir = .ok (.folder f)) :
    disk.FileBelow dir p ↔
      ∃ names e, f.at? names = some e ∧ lists disk p e ∧ p = dir.downNames names ∧
        disk.opensAlong dir names = true := by
  have hlists : ∀ e, lists disk p e ↔
      (∃ content, e = .file content) ∨ (∃ target, e = .link target) ∧ disk.isFile p = true := by
    intro e
    cases e <;> simp [lists]
  simp only [Disk.FileBelow, hdir, hlists]
  constructor
  · rintro ⟨f, names, e, hf, hat, hp, hopens, hlists⟩
    cases hf
    exact ⟨names, e, hat, hlists, hp, hopens⟩
  · rintro ⟨names, e, hat, hlists, hp, hopens⟩
    exact ⟨f, names, e, rfl, hat, hp, hopens, hlists⟩

/-- From a directory of the project that is not left out, a walk lists the files below it that are
    not left out. -/
theorem walk_of_kept (hd : disk.Proper) (hroot : disk.ReadsThrough m.projectRoot) {dir : Path}
    (hdir : disk.ReadsAlong dir) (hisDir : disk.isDir dir = true)
    (hbelow : dir.startsWith m.projectRoot = true) (hkept : m.leavesOut disk start dir = false) :
    ∃ listed after, (m.walk disk dir).run start = (listed, after) ∧ Apart listed ∧
      (∀ p, p ∈ listed ↔ disk.FileBelow dir p ∧ m.leavesOut disk start p = false) ∧
      Grown start (m.rulesIn disk start) after := by
  obtain ⟨f, hf⟩ := Disk.isDir_iff.mp hisDir
  have hproper : f.Proper := proper_of_entry_eq hd hf
  obtain ⟨after, hrun, hgrown⟩ : ∃ after, (m.walk disk dir).run start =
      (if disk.canList dir then m.listFolder disk (m.rulesUsed disk start) dir f else [], after) ∧
        Grown start (m.rulesIn disk start) after := by
    simp only [walk, hf]
    split
    · exact (asking_grown hroot start).walkFolder [] (m.grown_start disk start) ⟨hbelow, hdir⟩
        hproper
    · exact ⟨start, rfl, m.grown_start disk start⟩
  refine ⟨_, after, hrun, ?_, fun p => ?_, hgrown⟩
  · split
    · exact apart_listFolder hproper ‹_›
    · exact .nil
  rw [mem_listFolder_iff hproper, fileBelow_iff hf]
  constructor
  · rintro ⟨names, e, hat, hlists, rfl, hpasses, hopens⟩
    have hnames := (hproper.of_at? hat).1
    obtain ⟨hne, hend⟩ := isDir_eq_false_of_lists hf hnames hat hlists
    refine ⟨⟨names, e, hat, hlists, rfl, hopens⟩, ?_⟩
    rw [leavesOut_downNames hroot hdir.here hisDir hbelow hkept hne hnames hend, hpasses]
    rfl
  · rintro ⟨⟨names, e, hat, hlists, rfl, hopens⟩, hleft⟩
    have hnames := (hproper.of_at? hat).1
    obtain ⟨hne, hend⟩ := isDir_eq_false_of_lists hf hnames hat hlists
    rw [leavesOut_downNames hroot hdir.here hisDir hbelow hkept hne hnames hend] at hleft
    exact ⟨names, e, hat, hlists, rfl, by simpa using hleft, hopens⟩

/-- From a directory at or below the project root that is not left out, a walk lists only paths
    that are not left out either. -/
theorem leavesOut_of_mem_listed (hd : disk.Proper) (hroot : m.projectRoot.Tidy) {dir : Path}
    (hdir : dir.Tidy) (hisDir : disk.isDir dir = true)
    (hbelow : dir.startsWith m.projectRoot = true) (hkept : m.leavesOut disk [] dir = false)
    {p : Path} (hp : p ∈ m.listed disk dir) : m.leavesOut disk [] p = false := by
  obtain ⟨listed, after, hrun, -, hmem, -⟩ := walk_of_kept hd (hroot.readsThrough disk)
    (hdir.readsAlong disk) hisDir hbelow hkept
  obtain ⟨cache, hlisted, -⟩ := walk_asked hd (by simp) (m.asked_nil disk) hdir
  rw [hlisted] at hrun
  cases hrun
  exact ((hmem p).mp hp).2

/-- **A walk lists what is not left out.**  From a directory of the project that is not left out,
    it lists, once, every file and every link to a file that is not left out either and that real
    directories lead to, if these can be listed, and no other path.  It does not change what is
    left out.  The project root and the directory may be spelled in any way that the file system
    does not mind. -/
theorem mem_walk_iff (hd : disk.Proper) (hroot : disk.ReadsThrough m.projectRoot) {dir : Path}
    (hdir : disk.ReadsAlong dir) (hisDir : disk.isDir dir = true)
    (hbelow : dir.startsWith m.projectRoot = true) (start : RuleCache)
    (hkept : ((m.isIgnored disk dir).run start).1 = false) :
    ∃ listed after, (m.walk disk dir).run start = (listed, after) ∧ Apart listed ∧
      (∀ p, p ∈ listed ↔
        disk.FileBelow dir p ∧ ((m.isIgnored disk p).run start).1 = false) ∧
      ∀ p, ((m.isIgnored disk p).run after).1 = ((m.isIgnored disk p).run start).1 := by
  rw [isIgnored_start] at hkept
  obtain ⟨listed, after, hrun, hapart, hmem, hgrown⟩ :=
    walk_of_kept hd hroot hdir hisDir hbelow hkept
  refine ⟨listed, after, hrun, hapart, fun p => ?_, fun p => ?_⟩
  · rw [isIgnored_start]
    exact hmem p
  · obtain ⟨cache, hafter, -⟩ := isIgnored_run hgrown p
    rw [hafter, isIgnored_start]

/-- A project with an ignore file that speaks of everything whose name starts with a `b`, as far as
    it is a directory. -/
def blanketDisk : Disk :=
  ⟨.folder "p" (.file ".gitignore" "b**/".toUTF8 (.file "a" "".toUTF8
    (.folder "build" (.file "x" "".toUTF8 .empty) .empty))) .empty, [], []⟩

/-- A matcher for this project, which goes by the ignore file alone. -/
def blanketMatcher : Matcher :=
  ⟨⟨"/p"⟩, none, false, true⟩

theorem proper_blanketDisk : blanketDisk.Proper := by
  constructor
  · simp [blanketDisk, Folder.Proper, IsName, Text.Holds, Folder.get?, Folder.entries]
  · simp [blanketDisk, Disk.HereNamed]

theorem blanket_mem_walk_iff : blanketDisk.Proper ∧
    blanketDisk.ReadsThrough blanketMatcher.projectRoot ∧ blanketDisk.ReadsAlong ⟨"/p"⟩ ∧
    blanketDisk.isDir ⟨"/p"⟩ = true ∧
    Path.startsWith ⟨"/p"⟩ blanketMatcher.projectRoot = true ∧
    ((blanketMatcher.isIgnored blanketDisk ⟨"/p"⟩).run []).1 = false ∧
    ∃ listed after, (blanketMatcher.walk blanketDisk ⟨"/p"⟩).run [] = (listed, after) ∧
      Apart listed ∧ ∀ p, p ∈ listed ↔ blanketDisk.FileBelow ⟨"/p"⟩ p ∧
        ((blanketMatcher.isIgnored blanketDisk p).run []).1 = false := by
  have hd : blanketDisk.Proper := proper_blanketDisk
  have htidy : Path.Tidy ⟨"/p"⟩ := rfl
  have hdir : blanketDisk.isDir ⟨"/p"⟩ = true := by decide +kernel
  have hbelow : Path.startsWith ⟨"/p"⟩ blanketMatcher.projectRoot = true := by decide +kernel
  have hkept : ((blanketMatcher.isIgnored blanketDisk ⟨"/p"⟩).run []).1 = false := by
    decide +kernel
  obtain ⟨listed, after, hrun, hapart, hmem, -⟩ := mem_walk_iff hd (htidy.readsThrough blanketDisk)
    (htidy.readsAlong blanketDisk) hdir hbelow [] hkept
  exact ⟨hd, htidy.readsThrough blanketDisk, htidy.readsAlong blanketDisk, hdir, hbelow, hkept,
    listed, after, hrun, hapart, hmem⟩

/-- Where the project root is spelled with so many slashes that nothing can be looked up through it,
    a directory of the project is taken for none when asked about, but not on the way to what it
    holds.  So a walk from a directory that is not left out lists a file that is. -/
theorem walk_of_long_root :
    let m := blanketMatcher.rootedAt (Path.padded ⟨"/p"⟩ (Disk.pathLimit + 1))
    let start := ((m.walk blanketDisk ⟨"/p/build"⟩).run []).2
    blanketDisk.isDir ⟨"/p/build"⟩ = true ∧
      Path.startsWith ⟨"/p/build"⟩ m.projectRoot = true ∧
      ((m.isIgnored blanketDisk ⟨"/p/build"⟩).run start).1 = false ∧
      ⟨"/p/build/x"⟩ ∈ ((m.walk blanketDisk ⟨"/p/build"⟩).run start).1 ∧
      ((m.isIgnored blanketDisk ⟨"/p/build/x"⟩).run start).1 = true := by
  intro m start
  have hroot : m.projectRoot.components = Path.components ⟨"/p"⟩ :=
    components_padded (by decide) _
  have hsame : m.projectRoot.same blanketMatcher.projectRoot = true := same_iff.mpr hroot
  have hwalk : ∀ p, m.walk blanketDisk p = blanketMatcher.walk blanketDisk p :=
    walk_rootedAt hsame
  have hstart : start = ((blanketMatcher.walk blanketDisk ⟨"/p/build"⟩).run []).2 := by
    rw [← hwalk]
  have hbuild : Path.components ⟨"/p/build"⟩ = m.projectRoot.components ++ [.name "build"] := by
    rw [hroot]
    decide
  have hx : Path.components ⟨"/p/build/x"⟩ =
      m.projectRoot.components ++ [.name "build", .name "x"] := by
    rw [hroot]
    decide
  have hname : IsName "build" := by simp [IsName, Text.Holds]
  have hisDir : blanketDisk.isDir (m.projectRoot.child "build") = false := by
    refine Disk.isDir_of_long _ (Nat.lt_of_lt_of_le ?_ (size_le_size_child _ hname))
    exact le_size_padded ⟨"/p"⟩ (Disk.pathLimit + 1)
  have hcovers : m.covers = blanketMatcher.covers := covers_rootedAt hsame
  -- the walk read the ignore file of the project, and remembers it under the project root
  obtain ⟨found, hfound, hpair⟩ : ∃ found, start.get? ⟨"/p"⟩ = some found ∧
      (blanketMatcher.covers ⟨"/p/build"⟩ false found,
        blanketMatcher.covers ⟨"/p/build"⟩ true found) = (false, true) := by
    rw [hstart]
    exact Option.map_eq_some_iff.mp (by decide +kernel)
  have hrules : m.rulesUsed blanketDisk start m.projectRoot = found := by
    refine (if_pos rfl).trans (rulesIn_of_known ?_)
    rw [start.get?_eq_of_same hsame]
    exact hfound
  refine ⟨by decide +kernel, startsWith_iff.mpr ⟨_, hbuild⟩, ?_, ?_, ?_⟩
  · rw [isIgnored_start, leavesOut_of_child hname hbuild, hisDir, hrules, hcovers]
    exact (Prod.mk.inj hpair).1
  · rw [hstart, hwalk]
    decide +kernel
  · have hchild : (m.projectRoot.child "build").same ⟨"/p/build"⟩ = true := by
      rw [same_iff, components_child_name _ hname, hbuild]
    rw [isIgnored_start, leavesOut_of_components hx, leavesOutBelow]
    simp only [Component.text, hrules, m.covers_eq_of_same hchild, hcovers]
    simp [(Prod.mk.inj hpair).2]

end Ignore.Matcher

end SourceWeb
