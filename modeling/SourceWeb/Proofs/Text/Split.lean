/-
  Cutting a text at a character and joining the pieces again.

  The two are inverse to each other as long as no piece holds the character itself, so a path may be
  thought of as the list of its segments, and a text that ends with a line feed as the list of its
  lines.
-/
import Mathlib.Data.List.Basic
import SourceWeb.Text.Split

namespace SourceWeb.Text

/-! ### On lists of characters -/

theorem splitWhere_ne_nil (p : Char → Bool) (s : List Char) : splitWhere p s ≠ [] := by
  induction s with
  | nil => simp [splitWhere]
  | cons c s ih =>
    unfold splitWhere
    split
    · simp
    · split <;> simp

theorem splitWhere_cons_neg {p : Char → Bool} {c : Char} (hc : p c = false) (s : List Char) :
    ∃ piece pieces, splitWhere p s = piece :: pieces ∧
      splitWhere p (c :: s) = (c :: piece) :: pieces := by
  cases h : splitWhere p s with
  | nil => exact absurd h (splitWhere_ne_nil p s)
  | cons piece pieces => exact ⟨piece, pieces, rfl, by simp [splitWhere, hc, h]⟩

theorem splitWhere_of_forall {p : Char → Bool} {s : List Char} (h : ∀ c ∈ s, p c = false) :
    splitWhere p s = [s] := by
  induction s with
  | nil => rfl
  | cons c s ih =>
    obtain ⟨piece, pieces, hs, hcs⟩ := splitWhere_cons_neg (h c (by simp)) s
    rw [ih fun d hd => h d (by simp [hd])] at hs
    cases hs
    exact hcs

theorem splitWhere_of_notMem {c : Char} {s : List Char} (h : c ∉ s) :
    splitWhere (· == c) s = [s] := by
  apply splitWhere_of_forall
  intro d hd
  have hne : d ≠ c := fun heq => h (heq ▸ hd)
  simpa using hne

/-- Two texts with the character between them are cut one by one. -/
theorem splitWhere_append_cons {p : Char → Bool} {c : Char} (hc : p c = true)
    (s t : List Char) : splitWhere p (s ++ c :: t) = splitWhere p s ++ splitWhere p t := by
  induction s with
  | nil => simp [splitWhere, hc]
  | cons d s ih =>
    by_cases hd : p d = true
    · simp [splitWhere, hd, ih]
    · have hd : p d = false := by simpa using hd
      obtain ⟨piece, pieces, hs, hds⟩ := splitWhere_cons_neg hd s
      rw [hs, List.cons_append] at ih
      simp only [List.cons_append, splitWhere, hd, hs, ih]
      rfl

theorem notMem_of_mem_splitWhere {p : Char → Bool} {s piece : List Char}
    (h : piece ∈ splitWhere p s) : ∀ c ∈ piece, p c = false := by
  induction s generalizing piece with
  | nil =>
    simp only [splitWhere, List.mem_singleton] at h
    simp [h]
  | cons d s ih =>
    by_cases hd : p d = true
    · simp only [splitWhere, hd, if_true, List.mem_cons] at h
      rcases h with rfl | h
      · simp
      · exact ih h
    · have hd : p d = false := by simpa using hd
      obtain ⟨first, others, hs, hds⟩ := splitWhere_cons_neg hd s
      rw [hds, List.mem_cons] at h
      rcases h with rfl | h
      · intro c hc
        rcases List.mem_cons.mp hc with rfl | hc
        · exact hd
        · exact ih (by simp [hs]) c hc
      · exact ih (by simp [hs, h])

theorem intercalate_splitWhere (c : Char) (s : List Char) :
    [c].intercalate (splitWhere (· == c) s) = s := by
  induction s with
  | nil => simp [splitWhere]
  | cons d s ih =>
    obtain ⟨piece, pieces, hs⟩ := List.exists_cons_of_ne_nil (splitWhere_ne_nil (· == c) s)
    rw [hs] at ih
    by_cases hd : d = c
    · subst hd
      simp [splitWhere, hs, ih]
    · have hd' : (d == c) = false := by simpa using hd
      simp only [splitWhere, hd', hs]
      cases pieces with
      | nil => simpa using ih
      | cons next pieces => simpa using ih

theorem mem_of_mem_intercalate {α : Type} {sep : List α} {l : List (List α)} {a : α}
    (h : a ∈ sep.intercalate l) : a ∈ sep ∨ ∃ s ∈ l, a ∈ s := by
  induction l with
  | nil => simp at h
  | cons s l ih =>
    by_cases hl : l = []
    · subst hl
      rw [List.intercalate_singleton] at h
      exact .inr ⟨s, by simp, h⟩
    · rw [List.intercalate_cons_of_ne_nil hl, List.mem_append, List.mem_append] at h
      rcases h with (h | h) | h
      · exact .inr ⟨s, by simp, h⟩
      · exact .inl h
      · exact (ih h).imp_right fun ⟨t, ht, hat⟩ => ⟨t, by simp [ht], hat⟩

/-! ### On strings -/

/-- Has the text the character in it? -/
def Holds (c : Char) (s : String) : Prop := c ∈ s.toList

instance (c : Char) (s : String) : Decidable (Holds c s) :=
  inferInstanceAs (Decidable (_ ∈ _))

theorem not_holds_empty {c : Char} : ¬ Holds c "" := by
  simp [Holds]

theorem not_holds_append {c : Char} {s t : String} :
    ¬ Holds c (s ++ t) ↔ ¬ Holds c s ∧ ¬ Holds c t := by
  simp [Holds]

theorem splitChar_ne_nil (c : Char) (s : String) : splitChar c s ≠ [] := by
  simp [splitChar, splitWhere_ne_nil]

theorem splitChar_of_not_holds {c : Char} {s : String} (h : ¬ Holds c s) : splitChar c s = [s] := by
  simp [splitChar, splitWhere_of_notMem h]

theorem not_holds_of_mem_splitChar {c : Char} {s piece : String} (h : piece ∈ splitChar c s) :
    ¬ Holds c piece := by
  obtain ⟨cs, hcs, rfl⟩ := List.mem_map.mp h
  intro hc
  have := notMem_of_mem_splitWhere hcs c (by simpa [Holds] using hc)
  simp at this

theorem splitChar_append (c : Char) (s t : String) :
    splitChar c (s ++ String.singleton c ++ t) = splitChar c s ++ splitChar c t := by
  have : (s ++ String.singleton c ++ t).toList = s.toList ++ c :: t.toList := by simp
  rw [splitChar, this, splitWhere_append_cons (by simp)]
  simp [splitChar]

theorem intercalate_splitChar (c : Char) (s : String) :
    (String.singleton c).intercalate (splitChar c s) = s := by
  apply String.toList_inj.mp
  have : (splitChar c s).map String.toList = splitWhere (· == c) s.toList := by
    simp [splitChar, Function.comp_def]
  rw [String.toList_intercalate, this, String.toList_singleton, intercalate_splitWhere]

/-- Pieces without the character are what their join is cut into. -/
theorem splitChar_intercalate {c : Char} {l : List String} (hne : l ≠ [])
    (h : ∀ s ∈ l, ¬ Holds c s) : splitChar c ((String.singleton c).intercalate l) = l := by
  induction l with
  | nil => exact absurd rfl hne
  | cons s l ih =>
    cases l with
    | nil => simpa using splitChar_of_not_holds (h s (by simp))
    | cons t l =>
      rw [String.intercalate_cons_cons, splitChar_append,
        splitChar_of_not_holds (h s (by simp)), ih (by simp) fun u hu => h u (by simp [hu])]
      rfl

theorem afterStart_append (start s : String) : afterStart start (start ++ s) = some s := by
  have hrest : List.isPrefixOf? start.toList (start ++ s).toList = some s.toList := by
    rw [List.isPrefixOf?_eq_some_iff_append_eq, String.toList_append]
  rw [afterStart, afterStart?, hrest]
  simp

theorem startsWith_iff_append {start s : String} :
    startsWith start s = true ↔ ∃ t, s = start ++ t := by
  simp only [startsWith, List.isPrefixOf_iff_prefix]
  constructor
  · rintro ⟨cs, hcs⟩
    exact ⟨String.ofList cs, String.toList_inj.mp (by simp [← hcs])⟩
  · rintro ⟨t, rfl⟩
    exact ⟨t.toList, by simp⟩

theorem endsWith_iff {ending s : String} : endsWith ending s = true ↔ ∃ t, s = t ++ ending := by
  simp only [endsWith, List.isSuffixOf_iff_suffix]
  constructor
  · rintro ⟨cs, hcs⟩
    exact ⟨String.ofList cs, String.toList_inj.mp (by simp [← hcs])⟩
  · rintro ⟨t, rfl⟩
    exact ⟨t.toList, by simp⟩

/-! ### Lines -/

theorem dropReturn_append_cons {c : Char} (hc : c ≠ '\r') (s t : List Char) :
    dropReturn (s ++ c :: t) = s ++ c :: dropReturn t := by
  have hlast : (s ++ c :: t).getLast? = (c :: t).getLast? :=
    List.getLast?_append_of_ne_nil s (List.cons_ne_nil c t)
  cases t with
  | nil => simp [dropReturn, hc]
  | cons d t =>
    rw [dropReturn, dropReturn, hlast, List.getLast?_cons_cons,
      List.dropLast_append_of_ne_nil (List.cons_ne_nil c _), List.dropLast_cons_cons]
    split <;> rfl

theorem mem_of_mem_dropReturn {c : Char} {s : List Char} (h : c ∈ dropReturn s) : c ∈ s := by
  unfold dropReturn at h
  split at h
  · exact List.dropLast_subset s h
  · exact h

/-- The lines up to a line feed come before those behind it. -/
theorem linesOf_append_cons (s t : List Char) :
    linesOf (s ++ '\n' :: t) = (splitWhere (· == '\n') s).map dropReturn ++ linesOf t := by
  obtain ⟨last, ended, ht⟩ := List.exists_cons_of_ne_nil
    (List.reverse_ne_nil_iff.mpr (splitWhere_ne_nil (· == '\n') t))
  rw [linesOf, linesOf, splitWhere_append_cons (by simp), List.reverse_append, ht, List.cons_append]
  simp

theorem linesOf_of_notMem {s : List Char} (h : '\n' ∉ s) (hne : s ≠ []) : linesOf s = [s] := by
  simp [linesOf, splitWhere_of_notMem h, hne]

/-! ### Words -/

theorem wordsOf_append_cons {c : Char} (hc : isBlank c = true) (s t : List Char) :
    wordsOf (s ++ c :: t) = wordsOf s ++ wordsOf t := by
  rw [wordsOf, splitWhere_append_cons hc, List.filter_append]
  rfl

theorem wordsOf_blank_append {g : List Char} (hg : ∀ c ∈ g, isBlank c = true) (s : List Char) :
    wordsOf (g ++ s) = wordsOf s := by
  induction g with
  | nil => rfl
  | cons c g ih =>
    obtain ⟨hc, hg⟩ := List.forall_mem_cons.mp hg
    have hcons := wordsOf_append_cons hc [] (g ++ s)
    rw [ih hg] at hcons
    exact hcons

theorem wordsOf_of_forall {w : List Char} (hne : w ≠ []) (hw : ∀ c ∈ w, isBlank c = false) :
    wordsOf w = [w] := by
  rw [wordsOf, splitWhere_of_forall hw]
  simp [hne]

/-- A word ends where white space begins. -/
theorem wordsOf_word_append {w g : List Char} (hne : w ≠ []) (hw : ∀ c ∈ w, isBlank c = false)
    (hgne : g ≠ []) (hg : ∀ c ∈ g, isBlank c = true) (s : List Char) :
    wordsOf (w ++ (g ++ s)) = w :: wordsOf s := by
  obtain ⟨c, g, rfl⟩ := List.exists_cons_of_ne_nil hgne
  obtain ⟨hc, hg⟩ := List.forall_mem_cons.mp hg
  rw [List.cons_append, wordsOf_append_cons hc, wordsOf_of_forall hne hw,
    wordsOf_blank_append hg]
  rfl

/-! ### Beginnings and ends -/

/-- A beginning without the character does not reach it. -/
theorem prefix_append_cons_iff {c : Char} {t : List Char} (h : c ∉ t) (s u : List Char) :
    t <+: s ++ c :: u ↔ t <+: s := by
  induction t generalizing s with
  | nil => simp
  | cons d t ih =>
    obtain ⟨hd, ht⟩ : c ≠ d ∧ c ∉ t := by simpa using h
    cases s with
    | nil =>
      rw [List.nil_append, List.cons_prefix_cons]
      simp [hd.symm]
    | cons e s => rw [List.cons_append, List.cons_prefix_cons, List.cons_prefix_cons, ih ht]

/-- An end without the character does not reach it. -/
theorem suffix_append_cons_iff {c : Char} {t : List Char} (h : c ∉ t) (s u : List Char) :
    t <:+ s ++ c :: u ↔ t <:+ u := by
  rw [← List.reverse_prefix, ← List.reverse_prefix, List.reverse_append, List.reverse_cons,
    List.append_assoc, List.singleton_append, prefix_append_cons_iff (by simpa using h)]

/-! ### Trimming -/

/-- What is trimmed away stands around a text that neither begins nor ends with it. -/
theorem trimWhere_append {p : Char → Bool} {front s back : List Char}
    (hfront : ∀ c ∈ front, p c = true) (hback : ∀ c ∈ back, p c = true) (hs : s ≠ [])
    (hfirst : ∀ c ∈ s.head?, p c = false) (hlast : ∀ c ∈ s.getLast?, p c = false) :
    trimWhere p (front ++ (s ++ back)) = s := by
  have hstart : (s ++ back).dropWhile p = s ++ back := by
    obtain ⟨c, cs, rfl⟩ := List.exists_cons_of_ne_nil hs
    exact List.dropWhile_cons_of_neg (by simp [hfirst c rfl])
  have hend : s.reverse.dropWhile p = s.reverse := by
    obtain ⟨c, cs, hrev⟩ := List.exists_cons_of_ne_nil (List.reverse_ne_nil_iff.mpr hs)
    have hc : c ∈ s.getLast? := by simp [← List.head?_reverse, hrev]
    rw [hrev]
    exact List.dropWhile_cons_of_neg (by simp [hlast c hc])
  rw [trimWhere, List.dropWhile_append_of_pos hfront, hstart, dropEndWhile, List.reverse_append,
    List.dropWhile_append_of_pos fun c hc => hback c (List.mem_reverse.mp hc), hend,
    List.reverse_reverse]

/-! ### Splitting at a text -/

theorem splitAtText_go_skip (sep piece left s : List Char) :
    splitAtText.go sep left.length piece (left ++ s) = splitAtText.go sep 0 piece s := by
  induction left with
  | nil => rfl
  | cons c left ih => exact ih

/-- A piece that does not hold the first character of the separator ends where that begins. -/
theorem splitAtText_go_append {c : Char} (sep : List Char) {w : List Char} (h : c ∉ w)
    (piece s : List Char) : splitAtText.go (c :: sep) 0 piece (w ++ (c :: sep ++ s)) =
      (piece.reverse ++ w) :: splitAtText (c :: sep) s := by
  induction w generalizing piece with
  | nil =>
    have hprefix : (c :: sep).isPrefixOf (c :: (sep ++ s)) = true := by
      rw [List.isPrefixOf_iff_prefix]
      exact List.prefix_append _ _
    rw [List.nil_append, List.cons_append, splitAtText.go, if_pos hprefix, List.append_nil]
    exact congrArg _ (splitAtText_go_skip _ _ sep s)
  | cons d w ih =>
    obtain ⟨hd, hw⟩ : c ≠ d ∧ c ∉ w := by simpa using h
    rw [List.cons_append, splitAtText.go, if_neg (by simp [List.isPrefixOf, hd]), ih hw,
      List.reverse_cons, List.append_assoc, List.singleton_append]

theorem splitAtText_append {c : Char} (sep : List Char) {w : List Char} (h : c ∉ w)
    (s : List Char) :
    splitAtText (c :: sep) (w ++ (c :: sep ++ s)) = w :: splitAtText (c :: sep) s :=
  splitAtText_go_append sep h [] s

theorem splitAtText_of_notMem {c : Char} (sep : List Char) {w : List Char} (h : c ∉ w) :
    splitAtText (c :: sep) w = [w] := by
  have hgo : ∀ piece, splitAtText.go (c :: sep) 0 piece w = [piece.reverse ++ w] := by
    induction w with
    | nil => simp [splitAtText.go]
    | cons d w ih =>
      obtain ⟨hd, hw⟩ : c ≠ d ∧ c ∉ w := by simpa using h
      intro piece
      rw [splitAtText.go, if_neg (by simp [List.isPrefixOf, hd]), ih hw, List.reverse_cons,
        List.append_assoc, List.singleton_append]
  exact hgo []

/-- Pieces without the first character of the separator are what their join is cut into. -/
theorem splitAtText_intercalate {c : Char} (sep : List Char) {l : List (List Char)} (hne : l ≠ [])
    (h : ∀ w ∈ l, c ∉ w) : splitAtText (c :: sep) ((c :: sep).intercalate l) = l := by
  induction l with
  | nil => exact absurd rfl hne
  | cons w l ih =>
    obtain ⟨hw, hl⟩ := List.forall_mem_cons.mp h
    by_cases hlast : l = []
    · subst hlast
      rw [List.intercalate_singleton, splitAtText_of_notMem sep hw]
    · rw [List.intercalate_cons_of_ne_nil hlast, List.append_assoc, splitAtText_append sep hw,
        ih hlast hl]

/-! ### Texts of lines -/

/-- The text with these lines, each with a line feed behind it. -/
def unlines (ls : List String) : String :=
  String.join (ls.map (· ++ "\n"))

@[simp] theorem unlines_nil : unlines [] = "" :=
  rfl

@[simp] theorem unlines_cons (l : String) (ls : List String) :
    unlines (l :: ls) = l ++ "\n" ++ unlines ls :=
  String.join_cons

@[simp] theorem unlines_append (ls ms : List String) :
    unlines (ls ++ ms) = unlines ls ++ unlines ms := by
  rw [unlines, List.map_append, String.join_append, ← unlines, ← unlines]

/-- A text of lines is cut into these lines, and nothing stands behind the last line feed. -/
theorem splitChar_unlines {ls : List String} (h : ∀ l ∈ ls, ¬ Holds '\n' l) :
    splitChar '\n' (unlines ls) = ls ++ [""] := by
  induction ls with
  | nil => decide
  | cons l ls ih =>
    obtain ⟨hl, hls⟩ := List.forall_mem_cons.mp h
    have hsplit := splitChar_append '\n' l (unlines ls)
    rw [splitChar_of_not_holds hl, ih hls] at hsplit
    rw [unlines_cons]
    exact hsplit

theorem unlines_eq_intercalate {ls : List String} (h : ls ≠ []) :
    unlines ls = "\n".intercalate ls ++ "\n" := by
  induction ls with
  | nil => exact absurd rfl h
  | cons l ls ih =>
    cases ls with
    | nil => simp
    | cons m ls =>
      rw [unlines_cons, ih (by simp), String.intercalate_cons_cons]
      simp [String.append_assoc]

theorem unlines_splitChar (s : String) : unlines (splitChar '\n' s) = s ++ "\n" := by
  rw [unlines_eq_intercalate (splitChar_ne_nil _ _)]
  exact congrArg (· ++ "\n") (intercalate_splitChar '\n' s)

theorem infix_unlines_of_mem {l : String} {ls : List String} (h : l ∈ ls) :
    l.toList <:+: (unlines ls).toList := by
  obtain ⟨before, after, rfl⟩ := List.append_of_mem h
  refine ⟨(unlines before).toList, '\n' :: (unlines after).toList, ?_⟩
  simp

end SourceWeb.Text
