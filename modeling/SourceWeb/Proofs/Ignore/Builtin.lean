/-
  What the built-in globs leave out.

  They are matched against whole paths from the project root, and every path on the way down is
  tested again.  What they come to can be read off the names on the way: a directory is left out for
  its name, with everything in it, and so is whatever has a name that a glob for files fits.  Only
  whether the path itself is a directory is asked of the file system, and it is asked under the
  project root as this is spelled.
-/
import SourceWeb.Proofs.Disk.Respelled
import SourceWeb.Proofs.Ignore.Listed
import SourceWeb.Proofs.Path.Relative

namespace SourceWeb.Ignore

open SourceWeb.Path SourceWeb.Text

/-! ### Names and globs -/

namespace Builtin

/-- Does one of the globs for files fit the name? -/
def FitsFile (s : String) : Prop :=
  (∃ t ∈ fileEndings, endsWith t s = true) ∨ s ∈ fileNames

instance (s : String) : Decidable (FitsFile s) :=
  inferInstanceAs (Decidable (_ ∨ _))

/-- The end of a path is the end of its last name. -/
theorem endsWith_intercalate_concat {t : String} (ht : ¬ Holds '/' t) (init : List String)
    (last : String) : endsWith t ("/".intercalate (init ++ [last])) = endsWith t last := by
  cases init with
  | nil => simp
  | cons s init =>
    have htext : ("/".intercalate (s :: init ++ [last])).toList =
        ("/".intercalate (s :: init)).toList ++ '/' :: last.toList := by
      rw [String.intercalate_append_of_ne_nil (List.cons_ne_nil s init) (List.cons_ne_nil last []),
        String.intercalate_singleton]
      simp
    rw [Bool.eq_iff_iff, endsWith, endsWith, List.isSuffixOf_iff_suffix, List.isSuffixOf_iff_suffix,
      htext, suffix_append_cons_iff ht]

theorem not_holds_of_mem_fileEndings : ∀ t ∈ fileEndings, ¬ Holds '/' t := by
  decide +kernel

/-- A path that is no directory is matched by the names above it, and by its own as a file's. -/
theorem covers_false_iff {init : List String} {last : String}
    (hnames : ∀ s ∈ init ++ [last], ¬ Holds '/' s) :
    covers ("/".intercalate (init ++ [last])) false = true ↔
      (∃ s ∈ init, s ∈ dirNames) ∨ FitsFile last := by
  have hsplit : splitChar '/' ("/".intercalate (init ++ [last])) = init ++ [last] :=
    splitChar_intercalate (by simp) hnames
  have hending : (∃ t ∈ fileEndings, endsWith t ("/".intercalate (init ++ [last])) = true) ↔
      ∃ t ∈ fileEndings, endsWith t last = true :=
    exists_congr fun t => and_congr_right fun ht => by
      rw [endsWith_intercalate_concat (not_holds_of_mem_fileEndings t ht)]
  simp only [covers, globs, List.any_append, List.any_map, List.any_eq_true, Bool.or_eq_true,
    Function.comp_apply, Glob.covers, Bool.false_and, Bool.or_false, hending, hsplit, FitsFile]
  simp only [List.dropLast_concat, List.contains_iff_mem, List.getLast?_concat, beq_iff_eq,
    Option.some.injEq]
  constructor
  · rintro ((⟨s, hs, hmem⟩ | hend) | ⟨s, hs, rfl⟩)
    · exact .inl ⟨s, hmem, hs⟩
    · exact .inr (.inl hend)
    · exact .inr (.inr hs)
  · rintro (⟨s, hmem, hs⟩ | hend | hname)
    · exact .inl (.inl ⟨s, hs, hmem⟩)
    · exact .inl (.inr hend)
    · exact .inr ⟨last, hname, rfl⟩

/-- A directory is matched as a file is, or as what stands in it. -/
theorem covers_true (relative : String) :
    covers relative true = (covers relative false || covers (relative ++ probeName) false) := by
  simp only [covers, Bool.true_and, Bool.false_and, Bool.or_false]
  induction globs with
  | nil => rfl
  | cons g globs ih =>
    rw [List.any_cons, List.any_cons, List.any_cons, ih]
    ac_rfl

theorem covers_iff {init : List String} {last : String}
    (hnames : ∀ s ∈ init ++ [last], ¬ Holds '/' s) (isDir : Bool) :
    covers ("/".intercalate (init ++ [last])) isDir = true ↔
      (∃ s ∈ init, s ∈ dirNames) ∨ isDir = true ∧ last ∈ dirNames ∨ FitsFile last := by
  cases isDir with
  | false => simpa using covers_false_iff hnames
  | true =>
    let probe := "dummy_file_for_dir_match"
    have hprobe : ¬ Holds '/' probe := by decide +kernel
    have hunfit : ¬ FitsFile probe := by decide +kernel
    have htext : "/".intercalate (init ++ [last]) ++ probeName =
        "/".intercalate (init ++ [last] ++ [probe]) := by
      have happend := String.intercalate_append_of_ne_nil (s := "/")
        (List.concat_ne_nil last init) (List.cons_ne_nil probe [])
      rw [String.intercalate_singleton, String.append_assoc] at happend
      exact happend.symm
    have hinside : ∀ s ∈ init ++ [last] ++ [probe], ¬ Holds '/' s :=
      List.forall_mem_append.mpr ⟨hnames, by simpa using hprobe⟩
    -- for what stands in it, the directory's own name is one of those above
    rw [covers_true, Bool.or_eq_true, covers_false_iff hnames, htext, covers_false_iff hinside]
    simp only [List.mem_append, List.mem_singleton, or_and_right, exists_or, exists_eq_left, hunfit,
      or_false, true_and]
    grind

end Builtin

/-! ### The way from the project root -/

/-- What a component adds to a path from the project root. -/
def part? : Component → Option String
  | .name s => some s
  | .up => some ".."
  | _ => none

theorem not_holds_of_mem_parts {p : Path} {s : String} (hs : s ∈ p.components.filterMap part?) :
    ¬ Holds '/' s := by
  obtain ⟨c, hc, hpart⟩ := List.mem_filterMap.mp hs
  cases c with
  | root => simp [part?] at hpart
  | here => simp [part?] at hpart
  | up =>
    cases hpart
    decide
  | name t =>
    cases hpart
    exact (isName_of_mem_components hc).2.2.2

/-- A directory's name on the way is that of a component. -/
theorem exists_mem_parts_iff {cs : List Component} :
    (∃ s ∈ cs.filterMap part?, s ∈ Builtin.dirNames) ↔
      ∃ s, .name s ∈ cs ∧ s ∈ Builtin.dirNames := by
  refine exists_congr fun s => and_congr_left fun hs => ?_
  rw [List.mem_filterMap]
  constructor
  · rintro ⟨c, hc, hpart⟩
    cases c with
    | root => simp [part?] at hpart
    | here => simp [part?] at hpart
    | up =>
      cases hpart
      exact absurd hs (by decide +kernel)
    | name t =>
      cases hpart
      exact hc
  · exact fun h => ⟨.name s, h, rfl⟩

namespace Matcher

/-- The matcher of a project that goes by the built-in globs alone. -/
def builtinOnly (root : Path) : Matcher :=
  ⟨root, none, true, false⟩

variable {m : Matcher} {disk : Disk} {start : RuleCache}

/-- From the project root a path below is spelled by what it has more. -/
theorem relative_of_below {p : Path} {cs : List Component}
    (h : p.components = m.projectRoot.components ++ cs) :
    m.relative p = "/".intercalate (cs.filterMap part?) := by
  have hway : ((p.relativeTo? m.projectRoot).getD p).components = cs := by
    cases hroot : m.projectRoot.components with
    | nil =>
      rw [hroot, List.nil_append] at h
      unfold relativeTo?
      split
      · split <;> exact h
      · rw [hroot, ← List.nil_append p.components, wayFrom_append]
        exact (components_ofComponents (spelled_components p)).trans h
    | cons c root =>
      have hspelled := spelled_components p
      rw [h, hroot] at hspelled
      have habs : p.isAbsolute = m.projectRoot.isAbsolute := by
        rw [Bool.eq_iff_iff, isAbsolute_iff_components, isAbsolute_iff_components, h, hroot]
        rfl
      have hsteps : ∀ d ∈ cs, d.IsStep := fun d hd => hspelled.2 d (by simp [hd])
      unfold relativeTo?
      rw [habs, h, hroot, wayFrom_append]
      simpa using components_ofComponents (spelled_of_steps hsteps)
  rw [relative, hway]
  rfl

theorem isStep_of_spelled_concat {cs init : List Component} {c : Component}
    (h : Spelled (cs ++ (init ++ [c]))) (hinit : init ≠ []) : c.IsStep := by
  obtain ⟨d, ds, rfl⟩ := List.exists_cons_of_ne_nil hinit
  cases cs with
  | nil => exact h.2 c (by simp)
  | cons b cs => exact h.2 c (by simp)

/-- A path below the project root is matched by a name of a directory on the way, or by its own. -/
theorem covers_down {root : Path} {init : List Component} {c : Component}
    (h : Spelled (root.components ++ (init ++ [c]))) (isDir : Bool) :
    (builtinOnly root).covers (root.down (init ++ [c])) isDir [] = true ↔
      (∃ s, .name s ∈ init ∧ s ∈ Builtin.dirNames) ∨
        ∃ s, c = .name s ∧ (isDir = true ∧ s ∈ Builtin.dirNames ∨ Builtin.FitsFile s) := by
  have hbelow : (root.down (init ++ [c])).components =
      (builtinOnly root).projectRoot.components ++ (init ++ [c]) := components_down h
  have hcovers : (builtinOnly root).covers (root.down (init ++ [c])) isDir [] =
      Builtin.covers ("/".intercalate ((init ++ [c]).filterMap part?)) isDir := by
    rw [covers, relative_of_below hbelow]
    simp [builtinOnly]
  have hnames : ∀ s ∈ (init ++ [c]).filterMap part?, ¬ Holds '/' s := fun s hs =>
    not_holds_of_mem_parts (p := root.down (init ++ [c])) (by
      rw [hbelow, List.filterMap_append]
      exact List.mem_append_right _ hs)
  rw [hcovers, ← exists_mem_parts_iff]
  rw [List.filterMap_append] at hnames ⊢
  -- what stands for no file or directory that is left out
  have hbare : ∀ t ∈ ["", ".."], t ∉ Builtin.dirNames ∧ ¬ Builtin.FitsFile t := by
    decide +kernel
  have hempty : Builtin.covers "" isDir = false := by
    have hfits : Builtin.covers ("/".intercalate ([] ++ [""])) isDir = true ↔ _ :=
      Builtin.covers_iff (by decide) isDir
    rw [List.nil_append, String.intercalate_singleton] at hfits
    rw [← Bool.not_eq_true, hfits]
    simp [hbare ""]
  cases c with
  | root =>
    obtain rfl : init = [] := by_contra fun hinit => isStep_of_spelled_concat h hinit
    have hparts : [Component.root].filterMap part? = [] := rfl
    simp [hparts, hempty]
  | here =>
    obtain rfl : init = [] := by_contra fun hinit => isStep_of_spelled_concat h hinit
    have hparts : [Component.here].filterMap part? = [] := rfl
    simp [hparts, hempty]
  | up =>
    refine (Builtin.covers_iff hnames isDir).trans ?_
    simp [hbare ".."]
  | name s =>
    refine (Builtin.covers_iff hnames isDir).trans ?_
    simp

/-- A path is left out if it or a directory on the way to it is. -/
theorem leavesOutBelow_iff {before cs : List Component} :
    m.leavesOutBelow disk start (m.projectRoot.down before) cs = true ↔
      ∃ init c rest, cs = init ++ c :: rest ∧
        m.covers (m.projectRoot.down (before ++ init ++ [c]))
          (!rest.isEmpty || disk.isDir (m.projectRoot.down (before ++ init ++ [c])))
          (m.rulesUsed disk start (m.projectRoot.down (before ++ init))) = true := by
  induction cs generalizing before with
  | nil => simp [leavesOutBelow]
  | cons c cs ih =>
    rw [leavesOutBelow, Bool.or_eq_true, ← down_append_singleton, ih]
    constructor
    · rintro (hcovers | ⟨init, d, rest, rfl, hcovers⟩)
      · exact ⟨[], c, cs, rfl, by simpa using hcovers⟩
      · exact ⟨c :: init, d, rest, rfl, by simpa using hcovers⟩
    · rintro ⟨init, d, rest, heq, hcovers⟩
      cases init with
      | nil =>
        cases heq
        exact .inl (by simpa using hcovers)
      | cons c' init =>
        cases heq
        exact .inr ⟨init, d, rest, rfl, by simpa using hcovers⟩

/-- The built-in globs leave out what has the name of a directory above another name, or such a
    name that is a directory's itself, or a file's name. -/
theorem leavesOutBelow_builtinOnly_iff {root : Path} {cs : List Component}
    (h : Spelled (root.components ++ cs)) :
    (builtinOnly root).leavesOutBelow disk start root cs = true ↔
      ∃ init c rest, cs = init ++ c :: rest ∧ ((∃ s, .name s ∈ init ∧ s ∈ Builtin.dirNames) ∨
        ∃ s, c = .name s ∧ ((rest ≠ [] ∨ disk.isDir (root.down (init ++ [c])) = true) ∧
          s ∈ Builtin.dirNames ∨ Builtin.FitsFile s)) := by
  have hfirst : (builtinOnly root).leavesOutBelow disk start (root.down []) cs = true ↔ _ :=
    leavesOutBelow_iff (m := builtinOnly root)
  refine hfirst.trans ?_
  refine exists_congr fun init => exists_congr fun c => exists_congr fun rest =>
    and_congr_right fun hcs => ?_
  have hinit : Spelled (root.components ++ (init ++ [c])) := by
    rw [hcs, List.append_cons] at h
    exact h.of_append_append
  have hroot : (builtinOnly root).projectRoot = root := rfl
  refine (covers_down hinit _).trans ?_
  simp [hroot]

/-- **What the built-in globs leave out.**  A path below the project root is left out if it has the
    name of such a directory in it, in front of others or at its end if it is a directory itself, or
    if one of its names is such a file's.  At the end it counts only if the path is not too long to
    be looked up as it is spelled from the project root. -/
theorem isIgnored_builtinOnly_iff {root p : Path} (hp : ¬ p.Overlong) {cs : List Component}
    (hbelow : p.components = root.components ++ cs) (start : RuleCache) :
    (((builtinOnly root).isIgnored disk p).run start).1 = true ↔
      (∃ init s rest, cs = init ++ .name s :: rest ∧ s ∈ Builtin.dirNames ∧
        (rest ≠ [] ∨ disk.isDir p = true ∧ ¬ (root.down cs).Overlong)) ∨
      ∃ s, .name s ∈ cs ∧ Builtin.FitsFile s := by
  have hspelled : Spelled (root.components ++ cs) := hbelow ▸ spelled_components p
  have hsame : (root.down cs).same p = true := by rw [same_iff, components_down hspelled, hbelow]
  have hisDir : disk.isDir (root.down cs) = true ↔
      disk.isDir p = true ∧ ¬ (root.down cs).Overlong := by
    by_cases hlong : (root.down cs).Overlong
    · simp [hlong, Disk.isDir_of_long disk hlong]
    · simp [hlong, Disk.isDir_of_same hsame hlong hp]
  rw [isIgnored_start, leavesOut_of_components (m := builtinOnly root) hbelow]
  refine (leavesOutBelow_builtinOnly_iff hspelled).trans ?_
  constructor
  · rintro ⟨init, c, rest, rfl, ⟨s, hs, hdir⟩ | ⟨s, rfl, ⟨hmore | hlast, hdir⟩ | hfile⟩⟩
    · obtain ⟨above, between, rfl⟩ := List.append_of_mem hs
      exact .inl ⟨above, s, between ++ c :: rest, by simp, hdir, .inl (by simp)⟩
    · exact .inl ⟨init, s, rest, rfl, hdir, .inl hmore⟩
    · refine .inl ⟨init, s, rest, rfl, hdir, ?_⟩
      by_cases hrest : rest = []
      · subst hrest
        exact .inr (hisDir.mp hlast)
      · exact .inl hrest
    · exact .inr ⟨s, by simp, hfile⟩
  · rintro (⟨init, s, rest, rfl, hdir, hrest⟩ | ⟨s, hs, hfile⟩)
    · refine ⟨init, .name s, rest, rfl, .inr ⟨s, rfl, .inl ⟨?_, hdir⟩⟩⟩
      by_cases hnil : rest = []
      · subst hnil
        exact .inr (hisDir.mpr (hrest.resolve_left (by simp)))
      · exact .inl hnil
    · obtain ⟨init, rest, rfl⟩ := List.append_of_mem hs
      exact ⟨init, .name s, rest, rfl, .inr ⟨s, rfl, .inr hfile⟩⟩

/-- An entry of the project directory is not left out for a directory's name, if it is taken for
    none. -/
theorem isIgnored_child_eq_false {root p : Path} {s : String}
    (hbelow : p.components = root.components ++ [.name s])
    (hdir : disk.isDir (root.child s) = false) (hfile : ¬ Builtin.FitsFile s)
    (start : RuleCache) : (((builtinOnly root).isIgnored disk p).run start).1 = false := by
  have hspelled : Spelled (root.components ++ ([] ++ [.name s])) := by
    rw [List.nil_append, ← hbelow]
    exact spelled_components p
  have hchild : (builtinOnly root).projectRoot.child s = root.child s := rfl
  rw [isIgnored_start, leavesOut_of_components (m := builtinOnly root) hbelow, leavesOutBelow,
    leavesOutBelow, Bool.or_false, ← Bool.not_eq_true]
  refine mt (covers_down hspelled _).mp ?_
  simp [Component.text, hchild, hdir, hfile]

/-- A project with a directory that a build fills. -/
def builtDisk : Disk :=
  ⟨.folder "p" (.folder "target" (.file "x" "".toUTF8 .empty) .empty) .empty, [], []⟩

/-- The directory is left out itself. -/
theorem isIgnored_builtDisk :
    let p : Path := ⟨"/p/target"⟩
    ¬ p.Overlong ∧ p.components = Path.components ⟨"/p"⟩ ++ [.name "target"] ∧
      builtDisk.isDir p = true ∧
      (((builtinOnly ⟨"/p"⟩).isIgnored builtDisk p).run []).1 = true := by
  intro p
  have hp : ¬ p.Overlong := by decide +kernel
  have hbelow : p.components = Path.components ⟨"/p"⟩ ++ [.name "target"] := by decide +kernel
  have hdir : builtDisk.isDir p = true := by decide +kernel
  refine ⟨hp, hbelow, hdir, (isIgnored_builtinOnly_iff hp hbelow []).mpr (.inl ?_)⟩
  exact ⟨[], "target", [], rfl, by decide +kernel, .inr ⟨hdir, by decide +kernel⟩⟩

/-- Under a project root that is spelled with too many slashes it is not left out itself. -/
theorem isIgnored_of_long_root :
    let root := Path.padded ⟨"/p"⟩ (Disk.pathLimit + 1)
    let p : Path := ⟨"/p/target"⟩
    builtDisk.exists p = true ∧ p.components = root.components ++ [.name "target"] ∧
      builtDisk.isDir p = true ∧ "target" ∈ Builtin.dirNames ∧
      (((builtinOnly root).isIgnored builtDisk p).run []).1 = false := by
  intro root p
  have hname : IsName "target" := by simp [IsName, Text.Holds]
  have hroot : root.components = Path.components ⟨"/p"⟩ := components_padded (by decide) _
  have hbelow : p.components = root.components ++ [.name "target"] := by
    rw [hroot]
    decide +kernel
  have hisDir : builtDisk.isDir (root.child "target") = false := by
    refine Disk.isDir_of_long _ (Nat.lt_of_lt_of_le ?_ (size_le_size_child _ hname))
    exact le_size_padded ⟨"/p"⟩ (Disk.pathLimit + 1)
  refine ⟨by decide +kernel, hbelow, by decide +kernel, by decide +kernel, ?_⟩
  exact isIgnored_child_eq_false hbelow hisDir (by decide +kernel) []

end Matcher

end SourceWeb.Ignore
