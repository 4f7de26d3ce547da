/-
  What a line of an ignore file means.

  A line names paths: those that consist of the directory that it stands in, of further directories
  if it is not bound to its own one, and of a text that its glob stands for.  Asked about a
  directory its rule covers exactly what it names and what lies below that (`covers_dir_iff`).
  Asked about a plain file, a rule for directories covers what lies below a named path, but for the
  files that it names themselves (`covers_file_iff`).
-/
import SourceWeb.Ignore.Rule
import SourceWeb.Proofs.Ignore.Glob

namespace SourceWeb.Ignore.Rule

open SourceWeb.Pattern SourceWeb.Text

/-! ### What a line names -/

/-- The start of every path in a directory, which is given from the project root. -/
def startOf (dir : String) : List Char :=
  if dir = "" then [] else dir.toList ++ ['/']

/-- Does the line in the directory name the path?  The slash at its end is no part of the name; a
    slash at its start is none either and binds the line to its directory. -/
def Names (line dir : String) (path : List Char) : Prop :=
  let bare := (takeEnd '/' (trim line.toList)).2
  ∃ pre m, path = startOf dir ++ (pre ++ m) ∧
    (pre = [] ∨ bare.head? ≠ some '/' ∧ pre.getLast? = some '/') ∧
    Glob.Fits (Glob.staged (takeStart '/' bare).2) m

/-- The glob of whole paths for what a line says in a directory. -/
def Line.glob (l : Line) (dir : String) : Glob :=
  (startOf dir).map .char ++ ((if l.rooted then [] else [.anyDirs]) ++ Glob.ofChars l.body)

theorem takeStart_of_not_head {c : Char} {cs : List Char} (h : (takeStart c cs).1 = false) :
    takeStart c cs = (false, cs) ∧ cs.head? ≠ some c := by
  cases cs with
  | nil => exact ⟨rfl, by simp⟩
  | cons d cs =>
    rw [takeStart] at h ⊢
    split at h
    · simp at h
    · rename_i hd
      exact ⟨if_neg hd, by simpa using hd⟩

theorem head_of_takeStart {c : Char} {cs : List Char} (h : (takeStart c cs).1 = true) :
    cs.head? = some c := by
  cases cs with
  | nil => simp [takeStart] at h
  | cons d cs =>
    rw [takeStart] at h
    split at h
    · rename_i hd
      rw [hd, List.head?_cons]
    · simp at h

theorem of_ofChars? {cs : List Char} {l : Line} (h : Line.ofChars? cs = some l)
    (hneg : l.negated = false) : (l.rooted, l.body) = takeStart '/' (takeEnd '/' cs).2 := by
  rw [Line.ofChars?] at h
  split at h
  · simp at h
  dsimp only at h
  split at h
  · simp at h
  cases h
  have hcs : takeStart '!' cs = (false, cs) := (takeStart_of_not_head hneg).1
  dsimp only
  rw [hcs]

theorem fits_startOf {dir : String} {g : Glob} {path : List Char} :
    Glob.Fits ((startOf dir).map .char ++ g) path ↔ ∃ m, path = startOf dir ++ m ∧ g.Fits m := by
  rw [Glob.fits_append]
  constructor
  · rintro ⟨a, b, rfl, ha, hb⟩
    exact ⟨b, by rw [Glob.fits_chars.mp ha], hb⟩
  · rintro ⟨m, rfl, hm⟩
    exact ⟨startOf dir, m, rfl, Glob.fits_chars.mpr rfl, hm⟩

/-- What the rule of a line is made of, if the line takes nothing back. -/
theorem exists_line {line dir : String} {r : Rule} (h : ofLine? line dir = some r)
    (hneg : r.negated = false) :
    ∃ l : Line, r.pattern = l.pattern dir ∧ ∀ path, Names line dir path ↔
      Glob.Fits (l.glob dir) path := by
  rw [ofLine?] at h
  obtain ⟨l, hl, rfl⟩ := Option.map_eq_some_iff.mp h
  refine ⟨l, rfl, fun path => ?_⟩
  have hcut := of_ofChars? hl hneg
  rw [Line.glob, fits_startOf, Names, ← hcut, Glob.ofChars_eq_staged]
  cases hrooted : l.rooted with
  | true =>
    rw [hrooted] at hcut
    have hhead := head_of_takeStart (congrArg Prod.fst hcut.symm)
    simp [hhead]
  | false =>
    rw [hrooted] at hcut
    have hhead := (takeStart_of_not_head (congrArg Prod.fst hcut.symm)).2
    simp only [Glob.Fits, GlobPart.Fits, List.singleton_append, Bool.false_eq_true, if_false]
    constructor
    · rintro ⟨pre, m, rfl, hpre, hm⟩
      exact ⟨pre ++ m, rfl, pre, m, rfl, hpre.imp_right And.right, hm⟩
    · rintro ⟨-, rfl, pre, m, rfl, hpre, hm⟩
      exact ⟨pre, m, rfl, hpre.imp_right fun hlast => ⟨hhead, hlast⟩, hm⟩

/-! ### The pattern of a line -/

/-- What stands behind the glob: whatever lies below, and the end of the path. -/
def ending : Pattern :=
  .seq (.optional (.group 1 (.seq (.text "/") Glob.anyText))) (.seq (.place .textEnd) .empty)

/-- Globs one behind the other are one glob. -/
theorem ways_pattern_append (n : Nat) (g g' : Glob) (p : Pattern) (h : Head) :
    ways n (.seq (Glob.pattern g) (.seq (Glob.pattern g') p)) h =
      ways n (.seq (Glob.pattern (g ++ g')) p) h := by
  induction g generalizing h with
  | nil => exact ways_empty_seq n _ h
  | cons part g ih =>
    rw [show Glob.pattern (part :: g) = .seq (Glob.partPattern part) (Glob.pattern g) from rfl,
      show Glob.pattern (part :: g ++ g') =
        .seq (Glob.partPattern part) (Glob.pattern (g ++ g')) from rfl,
      ways_seq_assoc, ways_seq_assoc, ways_seq, ways_seq]
    simp only [ih]

theorem toList_start (dir : String) : (dir ++ "/").toList = dir.toList ++ ['/'] := by
  simp

theorem pattern_start (dir : String) :
    (if dir = "" then .empty else Pattern.text (dir ++ "/")) =
      Glob.pattern ((startOf dir).map .char) := by
  rw [startOf]
  split
  · rfl
  · rw [Pattern.text, Glob.pattern, toList_start, List.map_map]
    rfl

theorem ways_dirs (n : Nat) (rooted : Bool) (p : Pattern) (h : Head) :
    ways n (.seq (if rooted then .empty else .optional (.seq Glob.anyText (.text "/"))) p) h =
      ways n (.seq (Glob.pattern (if rooted then [] else [.anyDirs])) p) h := by
  cases rooted with
  | true => rfl
  | false =>
    rw [ways_seq, ways_seq]
    exact congrArg (List.flatMap _) (ways_seq_empty n (Glob.partPattern .anyDirs) h).symm

/-- The pattern of a line is that of its glob for whole paths and of what stands behind. -/
theorem ways_pattern (n : Nat) (l : Line) (dir : String) (h : Head) :
    ways n (l.pattern dir) h = ways n (.seq (Glob.pattern (l.glob dir)) ending) h := by
  have hpattern : l.pattern dir =
      .seq (if dir = "" then .empty else .text (dir ++ "/"))
        (.seq (if l.rooted then .empty else .optional (.seq Glob.anyText (.text "/")))
          (.seq (Glob.pattern (Glob.ofChars l.body)) ending)) := rfl
  rw [hpattern, pattern_start, ways_seq]
  simp only [ways_dirs, ways_pattern_append]
  rw [← ways_seq, ways_pattern_append]
  rfl

/-! ### The first match -/

/-- What is left of a path behind the glob decides: if nothing is left the path is named, and if a
    slash comes next it lies below a named one. -/
def standing : List Char → Option Bool
  | [] => some false
  | c :: _ => if c = '/' then some true else none

/-- Does a match tell that the path lies below a named one? -/
def tellsBelow (e : End) : Bool :=
  (groupText 1 none none e.events).isSome

theorem head?_map_tellsBelow (l : List End) :
    l.head?.map tellsBelow = l.findSome? fun e => some (tellsBelow e) := by
  cases l <;> rfl

theorem tellsBelow_ending (n : Nat) {h : Head} (hline : '\n' ∉ h.rest) :
    (ways n ending h).head?.map tellsBelow = standing h.rest := by
  obtain ⟨last, rest, pos⟩ := h
  have hgroup (g : Head) : ways n (.group 1 (.seq (.text "/") Glob.anyText)) g =
      (ways n (.seq (.text "/") Glob.anyText) g).map fun e =>
        ⟨e.head, .opens 1 g :: (e.events ++ [.closes 1 e.head])⟩ := rfl
  rw [ending, ways_seq, ways_optional, hgroup, ways_seq]
  simp only [Glob.ways_text_slash, ways_seq_empty]
  cases rest with
  | nil => simp [ways_set_nil, ways_place, Head.satisfies, Place.holds, standing, tellsBelow,
      groupText, End.after]
  | cons c rest =>
    rw [ways_set]
    by_cases hc : c = '/'
    · subst hc
      have hfree : ∀ d ∈ rest, (CharSet.noneOf ['\n']).has d = true := by
        intro d hd
        have hne : d ≠ '\n' := fun heq => hline (List.mem_cons_of_mem _ (heq ▸ hd))
        simpa using hne
      -- all of the text is taken first, and the group takes part in that
      obtain ⟨e, l, hl, hrest, hevents⟩ :=
        exists_head_many n (h := ⟨some '/', rest, pos + 1⟩) hfree
      simp [Glob.anyText_eq, hl, hrest, hevents, ways_place, Head.satisfies, Place.holds, standing,
        tellsBelow, groupText, End.after]
    · simp [hc, ways_place, Head.satisfies, Place.holds, standing]

/-- Whether the first match of a line's pattern tells that the path lies below a named one: the
    first way through the glob decides that leaves nothing or a slash. -/
theorem matchStart?_pattern (l : Line) (dir : String) {path : List Char} (hline : '\n' ∉ path) :
    ((l.pattern dir).matchStart? path).map (fun m => (m.group? 1).isSome) =
      (ways path.length (Glob.pattern (l.glob dir)) ⟨none, path, 0⟩).findSome? fun e =>
        standing e.head.rest := by
  have htakes := Glob.takes_pattern path.length (l.glob dir) (h := ⟨none, path, 0⟩) hline
  have hmatch : ((l.pattern dir).matchStart? path).map (fun m => (m.group? 1).isSome) =
      (ways path.length (l.pattern dir) ⟨none, path, 0⟩).head?.map tellsBelow := by
    rw [matchStart?_eq, Option.map_map]
    rfl
  rw [hmatch, ways_pattern, ways_seq, head?_map_tellsBelow, findSome?_flatMap]
  refine findSome?_congr fun e he => ?_
  obtain ⟨m, hcut, -⟩ := htakes.exists_of_mem he
  have hline' : '\n' ∉ e.head.rest := by
    intro hmem
    rw [show path = m ++ e.head.rest from hcut] at hline
    exact hline (List.mem_append_right m hmem)
  rw [htakes.quiet e he, after_nil, List.map_id, ← head?_map_tellsBelow,
    tellsBelow_ending _ hline']

theorem covers_eq {r : Rule} (hneg : r.negated = false) (p : String) (isDir : Bool) :
    r.covers p isDir = ((r.pattern.matchStart? p.toList).map fun m => (m.group? 1).isSome).any
      fun below => !r.dirOnly || isDir || below := by
  rw [covers, hneg]
  cases r.pattern.matchStart? p.toList <;> rfl

theorem standing_eq_some {rest : List Char} {below : Bool} :
    standing rest = some below ↔
      (below = false ∧ rest = []) ∨ (below = true ∧ rest.head? = some '/') := by
  cases rest with
  | nil => cases below <;> simp [standing]
  | cons c rest =>
    by_cases hc : c = '/'
    · cases below <;> simp [standing, hc]
    · simp [standing, hc]

/-! ### What a rule covers -/

/-- A path is named, or lies below one that is. -/
def Reaches (line dir : String) (path : List Char) : Prop :=
  ∃ named post, path = named ++ post ∧ (post = [] ∨ post.head? = some '/') ∧
    Names line dir named

section

variable {line dir : String} {r : Rule} {p : String}

/-- What is found in a path tells which paths are named: it is said to lie below no other if and
    only if it is named itself, and anything is found if it is named or lies below a named one. -/
theorem found_pattern (h : ofLine? line dir = some r) (hneg : r.negated = false)
    (hline : '\n' ∉ p.toList) :
    let found := (r.pattern.matchStart? p.toList).map fun m => (m.group? 1).isSome
    (found = some false ↔ Names line dir p.toList) ∧
      (found.isSome = true ↔ Reaches line dir p.toList) := by
  obtain ⟨l, hpattern, hnames⟩ := exists_line h hneg
  have htakes :=
    Glob.takes_pattern p.toList.length (l.glob dir) (h := ⟨none, p.toList, 0⟩) hline
  dsimp only
  rw [hpattern, matchStart?_pattern l dir hline]
  constructor
  · rw [hnames]
    constructor
    · intro hfound
      obtain ⟨e, he, hstanding⟩ := List.exists_of_findSome?_eq_some hfound
      obtain ⟨m, hcut, hm⟩ := htakes.exists_of_mem he
      have hrest : e.head.rest = [] := by simpa [standing_eq_some] using hstanding
      rw [hrest, List.append_nil] at hcut
      rwa [show p.toList = m from hcut]
    · intro hfits
      exact Glob.first_way_of_fits (h := ⟨none, p.toList, 0⟩) rfl hline hfits
  · rw [List.findSome?_isSome_iff]
    constructor
    · rintro ⟨e, he, hsome⟩
      obtain ⟨below, hstanding⟩ := Option.isSome_iff_exists.mp hsome
      obtain ⟨m, hcut, hm⟩ := htakes.exists_of_mem he
      exact ⟨m, e.head.rest, hcut, (standing_eq_some.mp hstanding).imp And.right And.right,
        (hnames m).mpr hm⟩
    · rintro ⟨m, post, hcut, hpost, hm⟩
      obtain ⟨e, he, rfl⟩ := (htakes.rests post).mpr ⟨m, hcut, (hnames m).mp hm⟩
      refine ⟨e, he, Option.isSome_iff_exists.mpr ?_⟩
      rcases hpost with hpost | hpost
      · exact ⟨false, standing_eq_some.mpr (.inl ⟨rfl, hpost⟩)⟩
      · exact ⟨true, standing_eq_some.mpr (.inr ⟨rfl, hpost⟩)⟩

theorem covers_dir (h : ofLine? line dir = some r) (hneg : r.negated = false)
    (hline : '\n' ∉ p.toList) : r.covers p true = true ↔ Reaches line dir p.toList := by
  rw [covers_eq hneg, ← (found_pattern h hneg hline).2]
  cases (r.pattern.matchStart? p.toList).map fun m => (m.group? 1).isSome <;> simp

/-- Whatever a rule covers it covers as a directory, too. -/
theorem covers_dir_of_covers {isDir : Bool} (h : r.covers p isDir = true) :
    r.covers p true = true := by
  rw [covers] at h ⊢
  split
  · simp_all
  · split at h
    · simp_all
    · split <;> simp_all

theorem startOf_prefix {path : List Char} (h : Reaches line dir path) :
    startOf dir <+: path := by
  obtain ⟨-, post, rfl, -, pre, m, rfl, -, -⟩ := h
  exact ⟨pre ++ m ++ post, (List.append_assoc ..).symm⟩

/-- Asked about a directory, a rule covers what its line names and what lies below that; and it
    never covers anything outside of the directory that it was written in. -/
theorem covers_dir_iff (h : ofLine? line dir = some r) (hneg : r.negated = false)
    (hline : '\n' ∉ p.toList) :
    (r.covers p true = true ↔ ∃ named post, p.toList = named ++ post ∧
      (post = [] ∨ post.head? = some '/') ∧ Names line dir named) ∧
    ∀ isDir, r.covers p isDir = true → startOf dir <+: p.toList :=
  ⟨covers_dir h hneg hline,
    fun _ hcovers => startOf_prefix ((covers_dir h hneg hline).mp (covers_dir_of_covers hcovers))⟩

/-- What lies below a directory that is named at some depth below the line's own is covered. -/
theorem dist_below :
    ∃ r, ofLine? "dist/" "packages/foo" = some r ∧ r.negated = false ∧
      r.covers "packages/foo/a/dist/z.js" true = true ∧
      ∃ named post, "packages/foo/a/dist/z.js".toList = named ++ post ∧
        (post = [] ∨ post.head? = some '/') ∧ Names "dist/" "packages/foo" named := by
  let r : Rule :=
    ⟨"dist/", true, false, Line.pattern ⟨false, true, false, "dist".toList⟩ "packages/foo"⟩
  have hcovers : r.covers "packages/foo/a/dist/z.js" true = true := by decide +kernel
  have hread : ofLine? "dist/" "packages/foo" = some r := rfl
  exact ⟨r, hread, rfl, hcovers, (covers_dir_iff hread rfl (by decide)).1.mp hcovers⟩

/-- Asked about a plain file, a rule for directories covers what lies below a directory that it
    covers, except for the files that its line names themselves. -/
theorem covers_file_iff (h : ofLine? line dir = some r) (hneg : r.negated = false)
    (hdir : r.dirOnly = true) (hline : '\n' ∉ p.toList) :
    r.covers p false = true ↔
      (∃ q below, p.toList = q ++ '/' :: below ∧ r.covers (String.ofList q) true = true) ∧
        ¬ Names line dir p.toList := by
  obtain ⟨hnamed, hreached⟩ := found_pattern h hneg hline
  have hfound : r.covers p false = true ↔
      Reaches line dir p.toList ∧ ¬ Names line dir p.toList := by
    rw [covers_eq hneg, ← hreached, ← hnamed, hdir]
    cases (r.pattern.matchStart? p.toList).map fun m => (m.group? 1).isSome with
    | none => simp
    | some below => cases below <;> simp
  rw [hfound]
  refine and_congr_left fun hnot => ?_
  constructor
  · rintro ⟨named, post, hcut, hpost, hm⟩
    cases post with
    | nil =>
      rw [List.append_nil] at hcut
      exact absurd (hcut ▸ hm) hnot
    | cons c below =>
      obtain rfl : c = '/' := by simpa using hpost
      have hline' : '\n' ∉ (String.ofList named).toList := by
        rw [String.toList_ofList]
        exact fun hmem => hline (hcut ▸ List.mem_append_left _ hmem)
      refine ⟨named, below, hcut, (covers_dir h hneg hline').mpr ?_⟩
      rw [String.toList_ofList]
      exact ⟨named, [], (List.append_nil _).symm, .inl rfl, hm⟩
  · rintro ⟨q, below, hcut, hcovers⟩
    have hline' : '\n' ∉ (String.ofList q).toList := by
      rw [String.toList_ofList]
      exact fun hmem => hline (hcut ▸ List.mem_append_left _ hmem)
    obtain ⟨named, post, hq, hpost, hm⟩ := (covers_dir h hneg hline').mp hcovers
    rw [String.toList_ofList] at hq
    refine ⟨named, post ++ '/' :: below, by rw [hcut, hq, List.append_assoc], .inr ?_, hm⟩
    rcases hpost with rfl | hpost
    · rfl
    · rw [List.head?_append, hpost]
      rfl

/-- A file that has the name of the directory that it lies in is not covered. -/
theorem namesake_not_covered :
    ∃ r, ofLine? "a/" "" = some r ∧ r.negated = false ∧ r.dirOnly = true ∧
      r.covers "a" true = true ∧ r.covers "a/b" false = true ∧ r.covers "a/a" false = false := by
  let r : Rule := ⟨"a/", true, false, Line.pattern ⟨false, true, false, ['a']⟩ ""⟩
  have hread : ofLine? "a/" "" = some r := rfl
  have hdir : r.covers "a" true = true := by decide +kernel
  have hglob (m : List Char) : Glob.Fits (Glob.staged ['a']) m ↔ m = ['a'] := by
    rw [← Glob.ofChars_eq_staged]
    exact @Glob.fits_chars ['a'] m
  have hnamesake : Names "a/" "" "a/a".toList :=
    ⟨['a', '/'], ['a'], rfl, .inr ⟨by decide, rfl⟩, (hglob _).mpr rfl⟩
  have hother : ¬ Names "a/" "" "a/b".toList := by
    rintro ⟨pre, m, hcut, -, hm⟩
    rw [(hglob m).mp hm] at hcut
    simpa [startOf] using congrArg List.getLast? hcut
  refine ⟨r, hread, rfl, rfl, hdir, ?_, ?_⟩
  · exact (covers_file_iff hread rfl rfl (by decide)).mpr ⟨⟨['a'], ['b'], rfl, hdir⟩, hother⟩
  · refine Bool.eq_false_iff.mpr fun h => ?_
    exact ((covers_file_iff hread rfl rfl (by decide)).mp h).2 hnamesake

end

end SourceWeb.Ignore.Rule
