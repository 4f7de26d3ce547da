/-
  How far an ignore file reaches in a walk.

  Within the project the rules of a directory are in force in everything below it, so what one of
  them covers is not listed, and neither is what lies beneath that.  Directories elsewhere take over
  nothing from the one above; there a rule reaches the entries of its own directory, and what these
  hold.
-/
import SourceWeb.Proofs.Ignore.Questions

namespace SourceWeb

open SourceWeb.Path

theorem Disk.ReadsAlong.downNames {disk : Disk} {dir : Path} (h : disk.ReadsAlong dir)
    {names : List String} (hnames : ∀ s ∈ names, IsName s) :
    disk.ReadsAlong (dir.downNames names) := by
  induction names generalizing dir with
  | nil => exact h
  | cons name names ih =>
    obtain ⟨hname, hnames⟩ := List.forall_mem_cons.mp hnames
    exact ih (h.child hname) hnames

namespace Ignore.Matcher

variable {m : Matcher} {disk : Disk} {dir : Path} {r : Rule}

/-! ### Rules in force -/

theorem mem_freshRules_of_mem_localRules (hdir : disk.ReadsThrough dir)
    (hr : r ∈ m.localRules disk dir) : r ∈ m.freshRules disk dir := by
  rw [freshRules_eq hdir]
  exact List.mem_append_right _ hr

theorem inherits_child (hbelow : dir.startsWith m.projectRoot = true) {name : String}
    (hname : IsName name) : m.inherits (dir.child name) = true := by
  have hsame : (dir.child name).same m.projectRoot = false := by
    obtain ⟨cs, hcs⟩ := startsWith_iff.mp hbelow
    rw [← Bool.not_eq_true, same_iff, components_child_name _ hname, hcs]
    simp
  rw [inherits, hsame, startsWith_child hbelow hname]
  rfl

/-- A directory of the project hands its rules down. -/
theorem mem_freshRules_child (hdir : disk.ReadsAlong dir)
    (hbelow : dir.startsWith m.projectRoot = true) {name : String} (hname : IsName name)
    (hr : r ∈ m.freshRules disk dir) : r ∈ m.freshRules disk (dir.child name) := by
  have hparent : (dir.child name).parent? = some dir.trimmed :=
    parent?_child dir (c := .name name) hname
  have hsame : dir.trimmed.same dir = true := by simp [same]
  rw [freshRules_eq (hdir.child hname).here, takenOver, hparent]
  simp only [inherits_child hbelow hname, if_true, freshRules_eq_of_same m disk hsame]
  exact List.mem_append_left _ hr

theorem mem_freshRules_downNames (hdir : disk.ReadsAlong dir)
    (hbelow : dir.startsWith m.projectRoot = true) {names : List String}
    (hnames : ∀ s ∈ names, IsName s) (hr : r ∈ m.freshRules disk dir) :
    r ∈ m.freshRules disk (dir.downNames names) := by
  induction names generalizing dir with
  | nil => exact hr
  | cons name names ih =>
    obtain ⟨hname, hnames⟩ := List.forall_mem_cons.mp hnames
    rw [downNames_cons]
    exact ih (hdir.child hname) (startsWith_child hbelow hname) hnames
      (mem_freshRules_child hdir hbelow hname hr)

/-! ### Ways that are barred -/

/-- A walk that passes names keeps each entry on the way. -/
theorem keeps_of_passes {rules : Path → List Rule} {init rest : List String} {name : String}
    (h : m.passes rules dir (init ++ name :: rest) = true) :
    m.keeps rules (dir.downNames init) name (!rest.isEmpty) = true := by
  induction init generalizing dir with
  | nil =>
    rw [List.nil_append, passes, Bool.and_eq_true] at h
    exact h.1
  | cons n init ih =>
    rw [List.cons_append, passes, Bool.and_eq_true] at h
    exact ih h.2

/-- What is covered by a rule in force is not kept. -/
theorem keeps_eq_false {rules : Path → List Rule} {name : String} {isDir : Bool}
    (hr : r ∈ rules dir) (hcovers : r.covers (m.relative (dir.child name)) isDir = true) :
    m.keeps rules dir name isDir = false := by
  have hany : (rules dir).any (·.covers (m.relative (dir.child name)) isDir) = true :=
    List.any_eq_true.mpr ⟨r, hr, hcovers⟩
  simp [keeps, covers, hany]

/-- The names from a directory to a listed path are determined. -/
theorem passes_of_mem_listed (hd : disk.Proper) {names : List String} (hne : names ≠ [])
    (hnames : ∀ s ∈ names, IsName s) (h : dir.downNames names ∈ m.listed disk dir) :
    m.passes (m.freshRulesUsed disk) dir names = true := by
  have hinj : ∀ names' : List String, (∀ s ∈ names', IsName s) →
      dir.downNames names = dir.downNames names' → names = names' := by
    intro names' hnames' heq
    have hcomponents := congrArg Path.components heq
    rw [components_downNames _ hnames, components_downNames _ hnames'] at hcomponents
    exact List.map_injective_iff.mpr (fun _ _ h => Component.name.inj h)
      (List.append_cancel_left hcomponents)
  unfold listed at h
  split at h
  · -- a file is listed itself, and nothing below it
    exact absurd (hinj [] (by simp) (List.mem_singleton.mp h)) hne
  · rename_i f hf
    have hproper : f.Proper := proper_of_entry_eq hd hf
    obtain ⟨names', e, hat, -, heq, hpasses, -⟩ := (mem_listFolder_iff hproper).mp h
    rw [hinj names' (hproper.of_at? hat).1 heq]
    exact hpasses
  · simp at h

/-- **An ignore file governs what lies below it.**  Let a walk start from a directory that is
    spelled in a way that the file system does not mind, and let the names `above` lead from there
    to a directory with an ignore file.  If one of its rules covers an entry below this directory,
    to which the names `init` and `name` lead, then neither the entry is listed nor anything beneath
    it.  This holds at any depth within the project, and elsewhere for the entries of the directory
    itself. -/
theorem not_mem_walk_of_covers (hd : disk.Proper) (huse : m.useIgnoreFiles = true)
    (hdir : disk.ReadsAlong dir) {cache : RuleCache} (hcache : m.Sound disk cache)
    {above init rest : List String} {name : String}
    (hnames : ∀ s ∈ above ++ init ++ name :: rest, IsName s)
    (hr : r ∈ m.localRules disk (dir.downNames above))
    (hreach : (dir.downNames above).startsWith m.projectRoot = true ∨ init = [])
    (hcovers : r.covers (m.relative (dir.downNames (above ++ init ++ [name]))) (!rest.isEmpty) =
      true) :
    dir.downNames (above ++ init ++ name :: rest) ∉ ((m.walk disk dir).run cache).1 := by
  obtain ⟨hbefore, -⟩ := List.forall_mem_append.mp hnames
  obtain ⟨habove, hinit⟩ := List.forall_mem_append.mp hbefore
  have hsource : disk.ReadsAlong (dir.downNames above) := hdir.downNames habove
  have hinforce : r ∈ m.freshRulesUsed disk (dir.downNames (above ++ init)) := by
    have hlocal := mem_freshRules_of_mem_localRules hsource.here hr
    rw [freshRulesUsed, if_pos huse, downNames, List.map_append, down_append]
    rcases hreach with hbelow | rfl
    · exact mem_freshRules_downNames hsource hbelow hinit hlocal
    · exact hlocal
  obtain ⟨cache', hrun, -⟩ := walk_sound hd (fun _ => hdir) hcache
  rw [hrun]
  intro hlisted
  have hkeeps := keeps_of_passes (passes_of_mem_listed hd (by simp) hnames hlisted)
  rw [downNames_concat] at hcovers
  rw [keeps_eq_false hinforce hcovers] at hkeeps
  exact Bool.false_ne_true hkeeps

/-- A directory with an ignore file, which speaks of the files of one name, and with such a file one
    level further down. -/
def sparedDisk : Disk :=
  ⟨.folder "out" (.file ".gitignore" "x".toUTF8 (.folder "s" (.file "x" "".toUTF8 .empty) .empty))
    (.folder "p" .empty .empty), [], []⟩

theorem proper_sparedDisk : sparedDisk.Proper := by
  constructor
  · simp [sparedDisk, Folder.Proper, IsName, Text.Holds, Folder.get?, Folder.entries]
  · simp [sparedDisk, Disk.HereNamed]

/-- In a project of its own the directory keeps the file from being listed, also in a walk from
    further up. -/
theorem not_mem_walk_sparedDisk :
    let m := blanketMatcher.rootedAt ⟨"/out"⟩
    sparedDisk.Proper ∧ m.useIgnoreFiles = true ∧ sparedDisk.ReadsAlong ⟨"/"⟩ ∧
      m.Sound sparedDisk [] ∧ (∀ s ∈ ["out"] ++ ["s"] ++ "x" :: [], IsName s) ∧
      (∃ r ∈ m.localRules sparedDisk (Path.downNames ⟨"/"⟩ ["out"]),
        r.covers (m.relative (Path.downNames ⟨"/"⟩ (["out"] ++ ["s"] ++ ["x"]))) false = true) ∧
      (Path.downNames ⟨"/"⟩ ["out"]).startsWith m.projectRoot = true ∧
      Path.downNames ⟨"/"⟩ (["out"] ++ ["s"] ++ ["x"]) ∉
        ((m.walk sparedDisk ⟨"/"⟩).run []).1 := by
  intro m
  have htidy : Path.Tidy ⟨"/"⟩ := rfl
  have hnames : ∀ s ∈ ["out"] ++ ["s"] ++ "x" :: [], IsName s := by
    simp [IsName, Text.Holds]
  have hrule : ∃ r ∈ m.localRules sparedDisk (Path.downNames ⟨"/"⟩ ["out"]),
      r.covers (m.relative (Path.downNames ⟨"/"⟩ (["out"] ++ ["s"] ++ ["x"]))) false = true := by
    decide +kernel
  have hbelow : (Path.downNames ⟨"/"⟩ ["out"]).startsWith m.projectRoot = true := by
    decide +kernel
  refine ⟨proper_sparedDisk, rfl, htidy.readsAlong _, sound_nil, hnames, hrule, hbelow, ?_⟩
  obtain ⟨r, hr, hcovers⟩ := hrule
  exact not_mem_walk_of_covers proper_sparedDisk rfl (htidy.readsAlong _) sound_nil hnames hr
    (.inl hbelow) hcovers

/-! ### Where nothing is handed down -/

/-- The rules in force depend on what is known at the start, not on the spellings under which it is
    known. -/
theorem rulesUsed_congr {start start' : RuleCache} (h : ∀ p, start.get? p = start'.get? p)
    (dir : Path) : m.rulesUsed disk start dir = m.rulesUsed disk start' dir := by
  have hbelow : ∀ up, m.rulesBelow disk start up = m.rulesBelow disk start' up := by
    intro up
    induction up with
    | nil => rw [rulesBelow, rulesBelow, h]
    | cons c up ih => simp only [rulesBelow, h, ih]
  simp only [rulesUsed, rulesIn, hbelow, h]

/-- A directory that is asked about first under a spelling too long to read anything through it. -/
theorem rulesFor_long {long : Path} (hlong : Disk.pathLimit < long.text.utf8ByteSize)
    (hsame : long.same m.projectRoot = true) (huse : m.useIgnoreFiles = true) :
    (m.rulesFor disk long).run [] = ([], [(long, [])]) := by
  have hname : IsName ".gitignore" := by simp [IsName, Text.Holds]
  have hinherits : m.inherits long = false := by
    rw [inherits, hsame]
    rfl
  have hlocal : m.localRules disk long = [] := by
    rw [localRules, Disk.isFile_of_long _ (Nat.lt_of_lt_of_le hlong (size_le_size_child _ hname))]
    rfl
  rw [rulesFor, if_pos huse, rulesAlong_of_unknown rfl, askAbove, hinherits, hlocal]
  cases long.parent? <;> rfl

/-- Beside the project the directory hands nothing down, and the file is listed although a rule
    covers it.  In a project of its own it is listed too, if the directory was asked about before
    under a spelling too long to read its ignore file. -/
theorem mem_walk_sparedDisk :
    let inside := blanketMatcher.rootedAt ⟨"/out"⟩
    let long := Path.padded ⟨"/out"⟩ (Disk.pathLimit + 1)
    let asked := ((inside.rulesFor sparedDisk long).run []).2
    ((∃ r ∈ blanketMatcher.localRules sparedDisk ⟨"/out"⟩, r.negated = false ∧
        r.covers (blanketMatcher.relative ⟨"/out/s/x"⟩) false = true) ∧
      ⟨"/out/s/x"⟩ ∈ ((blanketMatcher.walk sparedDisk ⟨"/out"⟩).run []).1) ∧
    (∃ r ∈ inside.localRules sparedDisk ⟨"/out"⟩, r.negated = false ∧
        r.covers (inside.relative ⟨"/out/s/x"⟩) false = true) ∧
      ⟨"/out/s/x"⟩ ∈ ((inside.walk sparedDisk ⟨"/out"⟩).run asked).1 := by
  intro inside long asked
  refine ⟨by decide +kernel, by decide +kernel, ?_⟩
  have hsame : long.same ⟨"/out"⟩ = true := same_iff.mpr (components_padded (by decide) _)
  have hlong : Disk.pathLimit < long.text.utf8ByteSize := le_size_padded ⟨"/out"⟩ _
  have hasked : asked = [(long, [])] := by
    have hrun : (inside.rulesFor sparedDisk long).run [] = ([], [(long, [])]) :=
      rulesFor_long hlong hsame rfl
    simp only [asked, hrun]
  have hknown : ∀ p, asked.get? p = RuleCache.get? [(⟨"/out"⟩, [])] p := by
    intro p
    have hp : long.same p = Path.same ⟨"/out"⟩ p := by rw [Path.same, Path.same, same_iff.mp hsame]
    rw [hasked]
    clear_value long
    simp [RuleCache.get?, hp]
  have hleaves : ∀ p, inside.leavesOut sparedDisk asked p =
      inside.leavesOut sparedDisk [(⟨"/out"⟩, [])] p :=
    leavesOut_congr fun _ _ => rulesUsed_congr hknown _
  have htidy : Path.Tidy ⟨"/out"⟩ := rfl
  have hkept : inside.leavesOut sparedDisk asked ⟨"/out"⟩ = false := by
    rw [hleaves]
    decide +kernel
  have hbelow : Path.startsWith ⟨"/out"⟩ inside.projectRoot = true := by decide +kernel
  obtain ⟨listed, after, hrun, -, hmem, -⟩ := walk_of_kept proper_sparedDisk
    (htidy.readsThrough sparedDisk) (htidy.readsAlong sparedDisk) (by decide +kernel) hbelow hkept
  rw [hrun, hmem, hleaves]
  refine ⟨?_, by decide +kernel⟩
  exact ⟨.file ".gitignore" "x".toUTF8 (.folder "s" (.file "x" "".toUTF8 .empty) .empty),
    ["s", "x"], .file "".toUTF8, by decide +kernel, rfl, by decide +kernel, by decide +kernel,
    .inl ⟨_, rfl⟩⟩

end Ignore.Matcher

end SourceWeb
