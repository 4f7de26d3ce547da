/-
  The two forms of a copy instruction.

  Its operands are written one behind the other, or as a list in brackets and quotes.  Both are cut
  into words at white space, and the last word is taken for the destination.  In a list, operands
  with no white space between them are one word, and white space in front of the closing bracket
  makes a word of that bracket.  So the list form names the runs of operands between white space.
-/
import Mathlib.Data.Bool.AllAny
import SourceWeb.Proofs.Language.Lines
import SourceWeb.Proofs.Pattern.Preferred

namespace SourceWeb.Language.Docker

open SourceWeb.Text
open SourceWeb.Pattern

/-! ### Instructions -/

/-- The pattern for the name of an instruction. -/
def keywordPattern : Pattern :=
  alt (all (("COPY".toList.map fun c => CharSet.caseless (.oneOf [c])).map set))
    (all (("ADD".toList.map fun c => CharSet.caseless (.oneOf [c])).map set))

theorem copyLine_eq :
    copyLine = all (lineStart :: ([gap, keywordPattern, gap1] ++
      group 1 (many1 (set (.noneOf "\n".toList))) :: [lineEnd])) :=
  rfl

theorem takesFirst_keyword {keyword : List Char} (h : keyword ∈ ["COPY".toList, "ADD".toList])
    (a b : List Char) : TakesFirst keywordPattern a keyword b := by
  rcases List.mem_pair.mp h with rfl | rfl
  · refine (takesFirst_sets ?_ a b).left
    exact .cons (by decide) (.cons (by decide) (.cons (by decide) (.cons (by decide) .nil)))
  · refine .right (fun n => ways_cons_eq_nil (ways_set_eq_nil ?_)) (takesFirst_sets ?_ a b)
    · rintro c ⟨⟩
      decide +kernel
    · exact .cons (by decide) (.cons (by decide) (.cons (by decide) .nil))

/-- What stands in front of the operands of an instruction. -/
structure CopyStart where
  indent : List Char
  keyword : List Char
  space : List Char
  indent_gap : ∀ c ∈ indent, isGap c = true
  keyword_mem : keyword ∈ ["COPY".toList, "ADD".toList]
  space_gap : space ≠ [] ∧ ∀ c ∈ space, isGap c = true

def CopyStart.text (s : CopyStart) : List Char :=
  s.indent ++ (s.keyword ++ s.space)

/-- The operands are kept up to the end of the line. -/
theorem CopyStart.readAll_text (s : CopyStart) {operands : List Char} (hne : operands ≠ [])
    (hgap : ∀ c ∈ operands.head?, isGap c = false) (hline : '\n' ∉ operands) {α : Type}
    (read : Groups → List α) :
    readAll copyLine read (s.text ++ operands) =
      read fun j => if 1 = j then some operands else none := by
  have hkeyword : ∀ c ∈ (s.keyword ++ (s.space ++ operands)).head?, isGap c = false := by
    rcases List.mem_pair.mp s.keyword_mem with hname | hname
    · rw [hname]
      rintro c ⟨⟩
      decide
    · rw [hname]
      rintro c ⟨⟩
      decide
  have hfront : TakesFirst (all [gap, keywordPattern, gap1]) [] s.text (operands ++ []) := by
    refine TakesFirst.cons (takesFirst_gap s.indent_gap ?_ _) <|
      TakesFirst.cons (takesFirst_keyword s.keyword_mem _ _) <|
      takesFirst_singleton (takesFirst_gap1 s.space_gap ?_ _)
    · simpa using hkeyword
    · simpa using hgap
  have hoperands : TakesFirst (many1 (set (.noneOf "\n".toList))) s.text operands [] := by
    refine takesFirst_many1 hne (fun c hc => ?_) (by simp) _
    have hfeed : c ≠ '\n' := fun heq => hline (heq ▸ hc)
    simpa using hfeed
  have hend : TakesFirst (all [lineEnd]) (s.text ++ operands) [] [] :=
    takesFirst_singleton (takesFirst_place rfl)
  have hfeed : '\n' ∉ s.text ++ (operands ++ []) := by
    have hname : '\n' ∉ s.keyword := by
      rcases List.mem_pair.mp s.keyword_mem with hname | hname <;> rw [hname] <;> decide
    simp only [text, List.mem_append, List.not_mem_nil, or_false, not_or]
    exact ⟨⟨notMem_of_isGap s.indent_gap, hname, notMem_of_isGap s.space_gap.2⟩, hline⟩
  have hkept := groups_findAll_line hfront hoperands hend 1 hne hfeed
  rw [List.append_nil] at hkept
  rw [readAll, copyLine_eq, hkept, List.flatMap_singleton]

/-! ### Words -/

/-- Do all words of the text but the last name these files, and is none of them an option? -/
def WordsName (s : List Char) (names : List (List Char)) : Prop :=
  ∃ words last, wordsOf s = words ++ [last] ∧ (∀ w ∈ words ++ [last], ¬ "--".toList <+: w) ∧
    (words.map (trimWhere isListMark)).filter isSource = names

theorem WordsName.sourcesOf {s : List Char} {names : List (List Char)} (h : WordsName s names) :
    sourcesOf s = names := by
  obtain ⟨words, last, hwords, hoptions, hnames⟩ := h
  have hany : ((words ++ [last]).any fun w => "--from".toList.isPrefixOf w) = false := by
    rw [List.any_eq_false]
    intro w hw hfrom
    have hdashes : "--".toList <+: "--from".toList := ⟨"from".toList, rfl⟩
    exact hoptions w hw (hdashes.trans (List.isPrefixOf_iff_prefix.mp hfrom))
  have hall : (words ++ [last]).filter (fun w => !"--".toList.isPrefixOf w) = words ++ [last] := by
    rw [List.filter_eq_self]
    intro w hw
    rw [Bool.not_eq_true', ← Bool.not_eq_true, List.isPrefixOf_iff_prefix]
    exact hoptions w hw
  simp only [Docker.sourcesOf, hwords, hany, hall, Bool.false_eq_true, if_false,
    List.dropLast_concat, hnames]

section

variable {w : List Char} (hne : w ≠ []) (hword : ∀ c ∈ w, isBlank c = false)
  (hoption : ¬ "--".toList <+: w)

include hne hword hoption

theorem wordsName_last : WordsName w [] :=
  ⟨[], w, wordsOf_of_forall hne hword, by simpa using hoption, rfl⟩

theorem WordsName.cons {g s : List Char} {names : List (List Char)} (hgne : g ≠ [])
    (hg : ∀ c ∈ g, isBlank c = true) (h : WordsName s names) :
    WordsName (w ++ (g ++ s)) ([trimWhere isListMark w].filter isSource ++ names) := by
  obtain ⟨words, last, hwords, hoptions, hnames⟩ := h
  refine ⟨w :: words, last, ?_, List.forall_mem_cons.mpr ⟨hoption, hoptions⟩, ?_⟩
  · rw [wordsOf_word_append hne hword hgne hg, hwords, List.cons_append]
  · rw [List.map_cons, ← List.singleton_append, List.filter_append, hnames]

end

theorem not_option_of_mark {w : List Char} (h : ∀ c ∈ w.head?, isListMark c = true) :
    ¬ "--".toList <+: w := by
  rintro ⟨rest, rfl⟩
  exact absurd (h '-' rfl) (by decide)

theorem not_blank_of_mark {c : Char} (h : isListMark c = true) : isBlank c = false := by
  have hmarks : ∀ d ∈ ['"', '\'', '[', ']', ','], isBlank d = false :=
    List.all_iff_forall_prop.mp (by decide)
  exact hmarks c (by simpa [isListMark] using h)

/-- A mark that stands alone is a word, but names nothing. -/
theorem word_of_mark {c : Char} (h : isListMark c = true) :
    (∀ d ∈ [c], isBlank d = false) ∧ ¬ "--".toList <+: [c] ∧
      [trimWhere isListMark [c]].filter isSource = [] := by
  have htrim : trimWhere isListMark [c] = [] := by simp [trimWhere, dropEndWhile, h]
  refine ⟨by simpa using not_blank_of_mark h, not_option_of_mark ?_, ?_⟩
  · rintro d ⟨⟩
    exact h
  · rw [htrim]
    rfl

theorem wordsName_mark {c : Char} (h : isListMark c = true) : WordsName [c] [] :=
  wordsName_last (List.cons_ne_nil c []) (word_of_mark h).1 (word_of_mark h).2.1

theorem WordsName.cons_mark {c : Char} (h : isListMark c = true) {g s : List Char}
    {names : List (List Char)} (hgne : g ≠ []) (hg : ∀ d ∈ g, isBlank d = true)
    (hs : WordsName s names) : WordsName (c :: (g ++ s)) names := by
  obtain ⟨hword, hoption, hnone⟩ := word_of_mark h
  have hcons := hs.cons (List.cons_ne_nil c []) hword hoption hgne hg
  rwa [hnone, List.nil_append] at hcons

/-! ### Operands -/

/-- An operand that names a file of the build context without any doubt. -/
structure Operand where
  text : List Char
  ne_nil : text ≠ []
  word : ∀ c ∈ text, isBlank c = false
  unmarked : ∀ c ∈ text, isListMark c = false
  literal : ∀ c ∈ text, c ∉ ['*', '?', '$']
  not_option : ¬ "--".toList <+: text
  not_remote : isRemote (String.ofList text) = false

theorem Operand.trimWhere_text (o : Operand) : trimWhere isListMark o.text = o.text := by
  have htrim : trimWhere isListMark ([] ++ (o.text ++ [])) = o.text :=
    trimWhere_append (by simp) (by simp) o.ne_nil
      (fun c hc => o.unmarked c (List.mem_of_mem_head? hc))
      (fun c hc => o.unmarked c (List.mem_of_mem_getLast? hc))
  rwa [List.append_nil] at htrim

theorem Operand.isSource_text (o : Operand) : isSource o.text = true := by
  have hnone : (o.text.any fun c => c == '*' || c == '?' || c == '$') = false := by
    rw [List.any_eq_false]
    intro c hc
    have hplain := o.literal c hc
    simp only [List.mem_cons, List.not_mem_nil, or_false, not_or] at hplain
    simp [hplain]
  simp [isSource, o.ne_nil, hnone, o.not_remote]

theorem Operand.notMem_text (o : Operand) : '\n' ∉ o.text :=
  fun hmem => absurd (o.word _ hmem) (by decide)

def IsSpace (g : List Char) : Prop :=
  ∀ c ∈ g, isBlank c = true ∧ c ≠ '\n'

instance (g : List Char) : Decidable (IsSpace g) :=
  List.decidableBAll (fun c => isBlank c = true ∧ c ≠ '\n') g

/-- An operand of a list, and the white space in front of the comma and behind it. -/
structure Item where
  operand : Operand
  ahead : List Char
  behind : List Char
  ahead_space : IsSpace ahead
  behind_space : IsSpace behind

/-- Is there white space between the operand and the next one? -/
def Item.Spaced (i : Item) : Prop :=
  i.ahead ≠ [] ∨ i.behind ≠ []

instance (i : Item) : Decidable i.Spaced :=
  inferInstanceAs (Decidable (_ ∨ _))

/-- The runs of operands that have no white space between them; `run` is the one that is open. -/
def runsFrom (last : Operand) (run : List Operand) : List Item → List (List Operand)
  | [] => [run ++ [last]]
  | i :: items =>
    if i.Spaced then (run ++ [i.operand]) :: runsFrom last [] items
    else runsFrom last (run ++ [i.operand]) items

theorem runsFrom_ne_nil (last : Operand) (run : List Operand) (items : List Item) :
    runsFrom last run items ≠ [] := by
  induction items generalizing run with
  | nil => simp [runsFrom]
  | cons i items ih =>
    rw [runsFrom]
    split
    · simp
    · exact ih _

/-- The runs that are not taken for the destination: all but the last, unless there is white space
    behind that. -/
def namedRuns (closing : List Char) (runs : List (List Operand)) : List (List Operand) :=
  if closing = [] then runs.dropLast else runs

theorem namedRuns_cons (closing : List Char) (run : List Operand) {runs : List (List Operand)}
    (hne : runs ≠ []) : namedRuns closing (run :: runs) = run :: namedRuns closing runs := by
  unfold namedRuns
  split
  · exact List.dropLast_cons_of_ne_nil hne
  · rfl

/-- What a run is read as. -/
def glued (run : List Operand) : List Char :=
  "\",\"".toList.intercalate (run.map Operand.text)

theorem glued_singleton (o : Operand) : glued [o] = o.text := by
  simp [glued]

theorem glued_cons (o : Operand) {run : List Operand} (hrun : run ≠ []) :
    glued (o :: run) = o.text ++ ("\",\"".toList ++ glued run) := by
  obtain ⟨p, run, rfl⟩ := List.exists_cons_of_ne_nil hrun
  simp [glued]

theorem mem_glued {run : List Operand} {c : Char} (hc : c ∈ glued run) :
    c ∈ ['"', ','] ∨ ∃ o ∈ run, c ∈ o.text := by
  rcases mem_of_mem_intercalate hc with hsep | ⟨s, hs, hcs⟩
  · have hmarks : ∀ d ∈ "\",\"".toList, d ∈ ['"', ','] := List.all_iff_forall_prop.mp (by decide)
    exact .inl (hmarks c hsep)
  · obtain ⟨o, ho, rfl⟩ := List.mem_map.mp hs
    exact .inr ⟨o, ho, hcs⟩

/-- A run begins with its first operand, and goes on with a quote. -/
theorem exists_glued_cons (o : Operand) (run : List Operand) :
    ∃ rest, glued (o :: run) = o.text ++ rest ∧ (rest = [] ∨ ∃ cs, rest = '"' :: cs) := by
  by_cases hrun : run = []
  · subst hrun
    exact ⟨[], by rw [glued_singleton, List.append_nil], .inl rfl⟩
  · exact ⟨_, glued_cons o hrun, .inr ⟨_, rfl⟩⟩

theorem suffix_glued (run : List Operand) (o : Operand) : o.text <:+ glued (run ++ [o]) := by
  induction run with
  | nil =>
    have hone : glued ([] ++ [o]) = o.text := glued_singleton o
    exact hone ▸ List.suffix_refl _
  | cons p run ih =>
    rw [List.cons_append, glued_cons p (by simp)]
    exact (ih.trans (List.suffix_append _ _)).trans (List.suffix_append _ _)

theorem isRemote_glued (o : Operand) (run : List Operand) :
    isRemote (String.ofList (glued (o :: run))) = false := by
  obtain ⟨rest, hglued, hrest⟩ := exists_glued_cons o run
  rcases hrest with rfl | ⟨cs, rfl⟩
  · rw [hglued, List.append_nil]
    exact o.not_remote
  · have hremote := o.not_remote
    have hquote : ∀ start ∈ ["http://", "https://", "//", "data:", "mailto:"],
        '"' ∉ start.toList := by decide +kernel
    have hlower : Char.toLower '"' = '"' := by decide
    -- none of the beginnings gets as far as the quote
    simp only [isRemote, List.any_eq_false, startsWith, lowerAscii, String.toList_ofList,
      List.isPrefixOf_iff_prefix, hglued, List.map_append, List.map_cons, hlower] at hremote ⊢
    intro start hstart
    rw [prefix_append_cons_iff (hquote start hstart)]
    exact hremote start hstart

theorem isSource_glued {run : List Operand} (hrun : run ≠ []) : isSource (glued run) = true := by
  obtain ⟨o, run, rfl⟩ := List.exists_cons_of_ne_nil hrun
  have hne : glued (o :: run) ≠ [] := by
    obtain ⟨rest, hglued, -⟩ := exists_glued_cons o run
    simp [hglued, o.ne_nil]
  have hnone : ((glued (o :: run)).any fun c => c == '*' || c == '?' || c == '$') = false := by
    rw [List.any_eq_false]
    intro c hc
    have hplain : c ∉ ['*', '?', '$'] := by
      rcases mem_glued hc with hmark | ⟨p, -, hcp⟩
      · have hmarks : ∀ d ∈ ['"', ','], d ∉ ['*', '?', '$'] :=
          List.all_iff_forall_prop.mp (by decide)
        exact hmarks c hmark
      · exact p.literal c hcp
    simp only [List.mem_cons, List.not_mem_nil, or_false, not_or] at hplain
    simp [hplain]
  simp [isSource, hne, hnone, isRemote_glued]

theorem trimWhere_glued (run : List Operand) (o : Operand) {front back : List Char}
    (hfront : ∀ c ∈ front, isListMark c = true) (hback : ∀ c ∈ back, isListMark c = true) :
    trimWhere isListMark (front ++ (glued (run ++ [o]) ++ back)) = glued (run ++ [o]) := by
  have hlast : ∀ c ∈ (glued (run ++ [o])).getLast?, isListMark c = false := by
    obtain ⟨front, hend⟩ := suffix_glued run o
    intro c hc
    rw [← hend, List.getLast?_append_of_ne_nil _ o.ne_nil] at hc
    exact o.unmarked c (List.mem_of_mem_getLast? hc)
  obtain ⟨p, others, hrun⟩ := List.exists_cons_of_ne_nil (List.concat_ne_nil o run)
  obtain ⟨rest, hglued, -⟩ := exists_glued_cons p others
  rw [hrun] at hlast ⊢
  refine trimWhere_append hfront hback (by simp [hglued, p.ne_nil]) (fun c hc => ?_) hlast
  rw [hglued, List.head?_append_of_ne_nil _ p.ne_nil] at hc
  exact p.unmarked c (List.mem_of_mem_head? hc)

/-! ### Runs of one operand -/

theorem flatten_runsFrom (last : Operand) (run : List Operand) (items : List Item) :
    (runsFrom last run items).flatten = run ++ (items.map Item.operand ++ [last]) := by
  induction items generalizing run with
  | nil => simp [runsFrom]
  | cons i items ih =>
    rw [runsFrom]
    split
    · rw [List.flatten_cons, ih]
      simp
    · rw [ih]
      simp

theorem ne_nil_of_mem_runsFrom {last : Operand} {run r : List Operand} {items : List Item}
    (h : r ∈ runsFrom last run items) : r ≠ [] := by
  induction items generalizing run with
  | nil => simp_all [runsFrom]
  | cons i items ih =>
    rw [runsFrom] at h
    split at h
    · rcases List.mem_cons.mp h with rfl | h
      · simp
      · exact ih h
    · exact ih h

theorem runsFrom_of_spaced (last : Operand) {items : List Item} (h : ∀ i ∈ items, i.Spaced) :
    runsFrom last [] items = (items.map fun i => [i.operand]) ++ [[last]] := by
  induction items with
  | nil => rfl
  | cons i items ih =>
    obtain ⟨hi, hitems⟩ := List.forall_mem_cons.mp h
    rw [runsFrom, if_pos hi, ih hitems]
    rfl

theorem spaced_of_runsFrom {last : Operand} {run : List Operand} {items : List Item}
    (h : ∀ r ∈ runsFrom last run items, r.length = 1) : run = [] ∧ ∀ i ∈ items, i.Spaced := by
  induction items generalizing run with
  | nil =>
    have hone := h (run ++ [last]) (by simp [runsFrom])
    simpa using hone
  | cons i items ih =>
    by_cases hi : i.Spaced
    · rw [runsFrom, if_pos hi, List.forall_mem_cons] at h
      obtain ⟨-, hitems⟩ := ih h.2
      exact ⟨by simpa using h.1, List.forall_mem_cons.mpr ⟨hi, hitems⟩⟩
    · rw [runsFrom, if_neg hi] at h
      exact absurd (ih h).1 (by simp)

theorem length_of_glued {run : List Operand} (hne : run ≠ []) (h : '"' ∉ glued run) :
    run.length = 1 := by
  obtain ⟨o, run, rfl⟩ := List.exists_cons_of_ne_nil hne
  by_cases hrun : run = []
  · rw [hrun]
    rfl
  · -- a second operand has its quotes in front
    rw [glued_cons o hrun] at h
    exact absurd (by simp) h

theorem length_flatten_of_short {α : Type} {l : List (List α)} (h : ∀ r ∈ l, r.length = 1) :
    l.flatten.length = l.length := by
  rw [List.length_flatten, List.map_congr_left h]
  simp

theorem mem_of_mem_namedRuns {closing : List Char} {runs : List (List Operand)}
    {r : List Operand} (h : r ∈ namedRuns closing runs) : r ∈ runs := by
  unfold namedRuns at h
  split at h
  · exact List.dropLast_subset runs h
  · exact h

/-- As many runs of one operand as there are sources: then white space stands where it has to. -/
theorem spaced_of_namedRuns {last : Operand} {closing : List Char} {items : List Item}
    (hone : ∀ r ∈ namedRuns closing (runsFrom last [] items), r.length = 1)
    (hlength : (namedRuns closing (runsFrom last [] items)).length = items.length) :
    closing = [] ∧ ∀ i ∈ items, i.Spaced := by
  have hflat : (runsFrom last [] items).flatten.length = items.length + 1 := by
    simp [flatten_runsFrom]
  by_cases hclosing : closing = []
  · rw [namedRuns, if_pos hclosing] at hone hlength
    obtain ⟨init, final, hruns⟩ := (List.eq_nil_or_concat (runsFrom last [] items)).resolve_left
      (runsFrom_ne_nil last [] items)
    rw [List.concat_eq_append] at hruns
    rw [hruns, List.dropLast_concat] at hone hlength
    have hfinal : final.length = 1 := by
      rw [hruns, List.flatten_append, List.length_append, length_flatten_of_short hone] at hflat
      simp only [List.flatten_singleton] at hflat
      omega
    have hall : ∀ r ∈ runsFrom last [] items, r.length = 1 := by
      rw [hruns]
      exact List.forall_mem_append.mpr ⟨hone, by simpa using hfinal⟩
    exact ⟨hclosing, (spaced_of_runsFrom hall).2⟩
  · -- the last run would be one too many
    rw [namedRuns, if_neg hclosing] at hone hlength
    rw [length_flatten_of_short hone] at hflat
    omega

/-- A list names its operands, all but the last, exactly if there is white space at every comma and
    none in front of the closing bracket. -/
theorem map_glued_namedRuns_iff {last : Operand} {closing : List Char} {items : List Item} :
    (namedRuns closing (runsFrom last [] items)).map glued =
        (items.map fun i => i.operand.text) ↔
      closing = [] ∧ ∀ i ∈ items, i.Spaced := by
  constructor
  · intro h
    have hone : ∀ r ∈ namedRuns closing (runsFrom last [] items), r.length = 1 := by
      intro r hr
      refine length_of_glued (ne_nil_of_mem_runsFrom (mem_of_mem_namedRuns hr)) fun hquote => ?_
      have hmem : glued r ∈ items.map fun i => i.operand.text := h ▸ List.mem_map_of_mem hr
      obtain ⟨i, -, hi⟩ := List.mem_map.mp hmem
      exact absurd (i.operand.unmarked '"' (hi ▸ hquote)) (by decide)
    have hlength := congrArg List.length h
    rw [List.length_map, List.length_map] at hlength
    exact spaced_of_namedRuns hone hlength
  · rintro ⟨rfl, hspaced⟩
    rw [runsFrom_of_spaced last hspaced, namedRuns, if_pos rfl, List.dropLast_concat]
    simp [glued_singleton]

/-! ### The words of a list -/

/-- The items and the last operand of a list. -/
def listed (last : Operand) : List Item → List Char
  | [] => '"' :: (last.text ++ ['"'])
  | i :: items =>
    '"' :: (i.operand.text ++ '"' :: (i.ahead ++ ',' :: (i.behind ++ listed last items)))

theorem notMem_listed (last : Operand) (items : List Item) : '\n' ∉ listed last items := by
  induction items with
  | nil => simp [listed, last.notMem_text]
  | cons i items ih =>
    have hahead : '\n' ∉ i.ahead := fun hmem => (i.ahead_space _ hmem).2 rfl
    have hbehind : '\n' ∉ i.behind := fun hmem => (i.behind_space _ hmem).2 rfl
    simp [listed, i.operand.notMem_text, hahead, hbehind, ih]

/-- The beginning of a word: marks, and a run of operands with commas behind them. -/
def openWord (marks : List Char) (run : List Operand) : List Char :=
  marks ++ run.flatMap fun o => '"' :: (o.text ++ ['"', ','])

theorem openWord_concat (marks : List Char) (run : List Operand) (o : Operand) :
    openWord marks (run ++ [o]) = openWord marks run ++ '"' :: (o.text ++ ['"', ',']) := by
  simp [openWord]

theorem openWord_append (marks : List Char) (run : List Operand) (o : Operand)
    (back : List Char) : openWord marks run ++ '"' :: (o.text ++ back) =
      marks ++ ['"'] ++ (glued (run ++ [o]) ++ back) := by
  induction run generalizing marks with
  | nil => simp [openWord, glued_singleton]
  | cons p run ih =>
    have hmarks : openWord marks (p :: run) =
        openWord (marks ++ '"' :: (p.text ++ ['"', ','])) run := by simp [openWord]
    rw [hmarks, ih, List.cons_append, glued_cons p (by simp)]
    simp

section

variable {marks : List Char} (hmarks : ∀ c ∈ marks, isListMark c = true) (run : List Operand)
  (o : Operand) (back : List Char) (hback : ∀ c ∈ back, isListMark c = true)

include hmarks hback

theorem word_of_run : let w := openWord marks run ++ '"' :: (o.text ++ back)
    (w ≠ [] ∧ (∀ c ∈ w, isBlank c = false) ∧ ¬ "--".toList <+: w) ∧
      trimWhere isListMark w = glued (run ++ [o]) := by
  intro w
  have hw : w = marks ++ ['"'] ++ (glued (run ++ [o]) ++ back) := openWord_append marks run o back
  have hquote : isListMark '"' = true := by decide
  have hfront : ∀ c ∈ marks ++ ['"'], isListMark c = true :=
    List.forall_mem_append.mpr ⟨hmarks, by simpa using hquote⟩
  have hinside : ∀ c ∈ glued (run ++ [o]), isBlank c = false := by
    intro c hc
    rcases mem_glued hc with hmark | ⟨p, -, hcp⟩
    · have hplain : ∀ d ∈ ['"', ','], isBlank d = false := List.all_iff_forall_prop.mp (by decide)
      exact hplain c hmark
    · exact p.word c hcp
  rw [hw]
  refine ⟨⟨by simp, ?_, not_option_of_mark ?_⟩, trimWhere_glued run o hfront hback⟩
  · exact List.forall_mem_append.mpr ⟨fun c hc => not_blank_of_mark (hfront c hc),
      List.forall_mem_append.mpr ⟨hinside, fun c hc => not_blank_of_mark (hback c hc)⟩⟩
  · rw [List.head?_append_of_ne_nil _ (by simp)]
    exact fun c hc => hfront c (List.mem_of_mem_head? hc)

theorem wordsName_run : WordsName (openWord marks run ++ '"' :: (o.text ++ back)) [] := by
  obtain ⟨⟨hne, hword, hoption⟩, -⟩ := word_of_run hmarks run o back hback
  exact wordsName_last hne hword hoption

theorem WordsName.cons_run {g s : List Char} {names : List (List Char)} (hgne : g ≠ [])
    (hg : IsSpace g) (h : WordsName s names) :
    WordsName (openWord marks run ++ '"' :: (o.text ++ (back ++ (g ++ s))))
      (glued (run ++ [o]) :: names) := by
  obtain ⟨⟨hne, hword, hoption⟩, htrim⟩ := word_of_run hmarks run o back hback
  have hcons := h.cons hne hword hoption hgne fun c hc => (hg c hc).1
  rw [htrim, List.filter_singleton, isSource_glued (by simp)] at hcons
  simpa using hcons

end

/-- White space in front of a comma or behind it ends a run.  The comma then ends its word, begins
    the next one, or is a word of its own, and is no file in any case. -/
theorem WordsName.cons_item {marks : List Char} (hmarks : ∀ c ∈ marks, isListMark c = true)
    (run : List Operand) {i : Item} (hspaced : i.Spaced) {s : List Char}
    {names : List (List Char)} (hrest : WordsName s names) (hcomma : WordsName (',' :: s) names) :
    WordsName (openWord marks run ++
        '"' :: (i.operand.text ++ '"' :: (i.ahead ++ ',' :: (i.behind ++ s))))
      (glued (run ++ [i.operand]) :: names) := by
  by_cases hahead : i.ahead = []
  · have hbehind : i.behind ≠ [] := hspaced.resolve_left (by simp [hahead])
    have hword := hrest.cons_run hmarks run i.operand ['"', ','] (by simp [isListMark]) hbehind
      i.behind_space
    simpa [hahead] using hword
  · by_cases hbehind : i.behind = []
    · have hword := hcomma.cons_run hmarks run i.operand ['"'] (by simp [isListMark]) hahead
        i.ahead_space
      simpa [hbehind] using hword
    · have hcommaMark : isListMark ',' = true := by decide
      have halone := hrest.cons_mark hcommaMark hbehind fun c hc => (i.behind_space c hc).1
      have hword := halone.cons_run hmarks run i.operand ['"'] (by simp [isListMark]) hahead
        i.ahead_space
      simpa using hword

/-- The words of a list are its runs, and the last one is taken for the destination. -/
theorem wordsName_listed (last : Operand) {closing : List Char} (hclosing : IsSpace closing)
    (items : List Item) (marks : List Char) (hmarks : ∀ c ∈ marks, isListMark c = true)
    (run : List Operand) :
    WordsName (openWord marks run ++ (listed last items ++ (closing ++ [']'])))
      ((namedRuns closing (runsFrom last run items)).map glued) := by
  -- on the items; what is read of the word so far are the marks and the open run
  induction items generalizing marks run with
  | nil =>
    by_cases hnil : closing = []
    · subst hnil
      have hword := wordsName_run hmarks run last ['"', ']'] (by simp [isListMark])
      simpa [listed, runsFrom, namedRuns] using hword
    · have hbracket : WordsName [']'] [] := wordsName_mark (by decide)
      have hword := hbracket.cons_run hmarks run last ['"'] (by simp [isListMark]) hnil hclosing
      simpa [listed, runsFrom, namedRuns, hnil] using hword
  | cons i items ih =>
    by_cases hspaced : i.Spaced
    · have hruns : runsFrom last run (i :: items) =
          (run ++ [i.operand]) :: runsFrom last [] items := by
        rw [runsFrom, if_pos hspaced]
      have hrest := ih [] (by simp) []
      have hcomma := ih [','] (by simp [isListMark]) []
      have hword := hrest.cons_item hmarks run hspaced hcomma
      rw [hruns, namedRuns_cons _ _ (runsFrom_ne_nil last [] items), List.map_cons, listed]
      simpa [openWord] using hword
    · have hnone : i.ahead = [] ∧ i.behind = [] := by
        simpa [Item.Spaced, not_or] using hspaced
      have hruns : runsFrom last run (i :: items) = runsFrom last (run ++ [i.operand]) items := by
        rw [runsFrom, if_neg hspaced]
      have hword := ih marks hmarks (run ++ [i.operand])
      rw [openWord_concat] at hword
      rw [hruns, listed, hnone.1, hnone.2]
      simpa using hword

/-! ### Both forms -/

/-- Operands with a blank between them are words, and the last one is taken for the destination. -/
theorem wordsName_plain (last : Operand) (items : List Item) :
    WordsName ([' '].intercalate ((items.map fun i => i.operand.text) ++ [last.text]))
      (items.map fun i => i.operand.text) := by
  induction items with
  | nil =>
    rw [List.map_nil, List.nil_append, List.intercalate_singleton]
    exact wordsName_last last.ne_nil last.word last.not_option
  | cons i items ih =>
    have hblank : ∀ c ∈ [' '], isBlank c = true := List.all_iff_forall_prop.mp (by decide)
    have hcons := ih.cons i.operand.ne_nil i.operand.word i.operand.not_option (by simp) hblank
    rw [i.operand.trimWhere_text, List.filter_singleton, i.operand.isSource_text] at hcons
    rw [List.map_cons, List.cons_append, List.intercalate_cons_of_ne_nil (by simp),
      List.append_assoc]
    exact hcons

/-- A copy instruction with any number of sources. -/
structure Instruction where
  start : CopyStart
  items : List Item
  destination : Operand
  opening : List Char
  closing : List Char
  opening_space : IsSpace opening
  closing_space : IsSpace closing

def copied (s : List Char) : Reference :=
  .kinded "copy" (String.ofList s)

namespace Instruction

def sources (c : Instruction) : List (List Char) :=
  c.items.map fun i => i.operand.text

/-- The instruction with its operands one behind the other. -/
def plainText (c : Instruction) : String :=
  String.ofList (c.start.text ++ [' '].intercalate (c.sources ++ [c.destination.text]))

/-- The instruction with its operands in a list. -/
def listText (c : Instruction) : String :=
  String.ofList (c.start.text ++
    '[' :: (c.opening ++ (listed c.destination c.items ++ (c.closing ++ [']']))))

/-- What the list form is taken to copy. -/
def named (c : Instruction) : List (List Char) :=
  (namedRuns c.closing (runsFrom c.destination [] c.items)).map glued

/-- A line refers to what its words name. -/
theorem scan_of_wordsName (s : CopyStart) {operands : List Char} {names : List (List Char)}
    (h : WordsName operands names) (hne : operands ≠ [])
    (hgap : ∀ c ∈ operands.head?, isGap c = false) (hline : '\n' ∉ operands) :
    scan (String.ofList (s.text ++ operands)) = Reference.distinct (names.map copied) := by
  rw [scan_docker, String.toList_ofList, s.readAll_text hne hgap hline, copyRefs]
  simp only [if_true, Option.getD_some, h.sourcesOf]
  rfl

theorem scan_plainText (c : Instruction) :
    scan c.plainText = Reference.distinct (c.sources.map copied) := by
  obtain ⟨o, others, hfirst⟩ : ∃ (o : Operand) (others : List (List Char)),
      c.sources ++ [c.destination.text] = o.text :: others := by
    unfold sources
    cases c.items with
    | nil => exact ⟨_, _, rfl⟩
    | cons i items => exact ⟨_, _, rfl⟩
  obtain ⟨more, htext⟩ : ∃ more,
      [' '].intercalate (c.sources ++ [c.destination.text]) = o.text ++ more := by
    rw [hfirst]
    by_cases hnil : others = []
    · exact ⟨[], by rw [hnil, List.intercalate_singleton, List.append_nil]⟩
    · exact ⟨_, by rw [List.intercalate_cons_of_ne_nil hnil, List.append_assoc]⟩
  have hwords : WordsName ([' '].intercalate (c.sources ++ [c.destination.text])) c.sources :=
    wordsName_plain c.destination c.items
  refine scan_of_wordsName c.start hwords ?_ ?_ ?_
  · rw [htext]
    simp [o.ne_nil]
  · rw [htext, List.head?_append_of_ne_nil _ o.ne_nil]
    intro d hd
    exact isGap_eq_false (o.word d (List.mem_of_mem_head? hd))
  · intro hfeed
    rcases mem_of_mem_intercalate hfeed with hmem | ⟨s, hs, hmem⟩
    · exact absurd hmem (by decide)
    · have hword : ∀ s ∈ c.items.map (fun i => i.operand.text) ++ [c.destination.text],
          '\n' ∉ s := by
        rw [List.forall_mem_append, List.forall_mem_map]
        exact ⟨fun i _ => i.operand.notMem_text, by simpa using c.destination.notMem_text⟩
      exact hword s hs hmem

theorem scan_listText (c : Instruction) :
    scan c.listText = Reference.distinct (c.named.map copied) := by
  have hwords : WordsName
      ('[' :: (c.opening ++ (listed c.destination c.items ++ (c.closing ++ [']'])))) c.named := by
    by_cases hnil : c.opening = []
    · have hlist := wordsName_listed c.destination c.closing_space c.items ['[']
        (by simp [isListMark]) []
      simpa [hnil, openWord, named] using hlist
    · have hlist := wordsName_listed c.destination c.closing_space c.items [] (by simp) []
      have hbracket : isListMark '[' = true := by decide
      have hcons := hlist.cons_mark hbracket hnil fun d hd => (c.opening_space d hd).1
      simpa [openWord, named] using hcons
  refine scan_of_wordsName c.start hwords (by simp) (by rintro d ⟨⟩; decide) ?_
  have hopening : '\n' ∉ c.opening := fun hmem => (c.opening_space _ hmem).2 rfl
  have hclosing : '\n' ∉ c.closing := fun hmem => (c.closing_space _ hmem).2 rfl
  simp [hopening, hclosing, notMem_listed]

/-- **The two forms of an instruction.**  With its operands one behind the other an instruction
    refers to all of them but the last.  In a list it refers to the runs of operands that have no
    white space between them, but for the last run, and for this too if there is white space in
    front of the closing bracket.  These are its sources exactly if there is white space at every
    comma and none in front of the bracket. -/
theorem scan_forms (c : Instruction) :
    scan c.plainText = Reference.distinct (c.sources.map copied) ∧
      scan c.listText = Reference.distinct (c.named.map copied) ∧
      (c.named = c.sources ↔ c.closing = [] ∧ ∀ i ∈ c.items, i.Spaced) :=
  ⟨c.scan_plainText, c.scan_listText, map_glued_namedRuns_iff⟩

def letter (c : Char) (hblank : isBlank c = false) (hmark : isListMark c = false)
    (hplain : c ∉ ['*', '?', '$']) (hremote : isRemote (String.ofList [c]) = false) : Operand where
  text := [c]
  ne_nil := List.cons_ne_nil c []
  word := by simpa using hblank
  unmarked := by simpa using hmark
  literal := List.forall_mem_singleton.mpr hplain
  not_option := fun h => absurd h.length_le (by simp)
  not_remote := hremote

/-- The instruction `COPY ["a","d"]` with this white space behind the comma and in front of the
    bracket. -/
def copying (behind closing : List Char) (hbehind : IsSpace behind) (hclosing : IsSpace closing) :
    Instruction where
  start := ⟨[], "COPY".toList, [' '], forall_isGap_nil, .head _, forall_isGap_blank⟩
  items := [⟨letter 'a' (by decide) (by decide) (by decide) (by decide +kernel), [], behind,
    List.forall_mem_nil _, hbehind⟩]
  destination := letter 'd' (by decide) (by decide) (by decide) (by decide +kernel)
  opening := []
  closing := closing
  opening_space := List.forall_mem_nil _
  closing_space := hclosing

/-- Without white space nothing is copied, and with too much of it the destination is too. -/
theorem scan_copying :
    scan "COPY a d" = [.kinded "copy" "a"] ∧ scan "COPY [\"a\",\"d\"]" = [] ∧
      scan "COPY [\"a\", \"d\" ]" = [.kinded "copy" "a", .kinded "copy" "d"] := by
  let glued := copying [] [] (by decide) (by decide)
  let spaced := copying [' '] [' '] (by decide) (by decide)
  have hplain : glued.plainText = "COPY a d" := by decide +kernel
  have hglued : glued.listText = "COPY [\"a\",\"d\"]" := by decide +kernel
  have hspaced : spaced.listText = "COPY [\"a\", \"d\" ]" := by decide +kernel
  refine ⟨?_, ?_, ?_⟩
  · rw [← hplain, (scan_forms _).1]
    decide +kernel
  · rw [← hglued, (scan_forms _).2.1]
    decide +kernel
  · rw [← hspaced, (scan_forms _).2.1]
    decide +kernel

end Instruction

end SourceWeb.Language.Docker
