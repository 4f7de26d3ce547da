/-
  A string that was written in quotes is read as that string.

  Each of the four ways to quote a string is read back, whatever stands behind the closing quotes
  as long as that is no further quote.  What decides over several lines is where quotes stand in a
  row: the text never has three of them, so the closing ones are found at its end.  Up to two
  quotes in front of these belong to the text.
-/
import Mathlib.Data.List.TakeWhile
import SourceWeb.Proofs.Text.Digits
import SourceWeb.Toml.Reader
import SourceWeb.Toml.Writer

namespace SourceWeb.Toml

open SourceWeb.Text

/-! ### Characters -/

theorem isBasicChar_of_not_isControl {c : Char} (hcontrol : isControl c = false)
    (hfeed : c ≠ '\n') (hquote : c ≠ '"') (hback : c ≠ '\\') : isBasicChar c = true := by
  simp only [isControl, Bool.or_eq_false_iff, Bool.and_eq_false_iff, decide_eq_false_iff_not,
    beq_eq_false_iff_ne, bne_eq_false_iff_eq] at hcontrol
  obtain ⟨(hlow | rfl) | rfl, hdelete⟩ := hcontrol
  · simp [isBasicChar, hquote, hback, hdelete, Nat.not_lt.mp hlow]
  · rfl
  · exact absurd rfl hfeed

theorem isLiteralChar_of_not_isControl {c : Char} (hcontrol : isControl c = false)
    (hfeed : c ≠ '\n') (hquote : c ≠ '\'') : isLiteralChar c = true := by
  simp only [isControl, Bool.or_eq_false_iff, Bool.and_eq_false_iff, decide_eq_false_iff_not,
    beq_eq_false_iff_ne, bne_eq_false_iff_eq] at hcontrol
  obtain ⟨(hlow | rfl) | rfl, hdelete⟩ := hcontrol
  · simp [isLiteralChar, hquote, hdelete, Nat.not_lt.mp hlow]
  · rfl
  · exact absurd rfl hfeed

theorem afterLineEnd?_of_ne {c : Char} (hfeed : c ≠ '\n') (hreturn : c ≠ '\r')
    (more : List Char) : afterLineEnd? (c :: more) = none := by
  rw [afterLineEnd?.eq_def]
  split
  · rename_i heq
    exact absurd (List.cons.inj heq).1 hfeed
  · rename_i heq
    exact absurd (List.cons.inj heq).1 hreturn
  · rfl

theorem afterLineEnd?_of_isBasicChar {c : Char} (h : isBasicChar c = true) (more : List Char) :
    afterLineEnd? (c :: more) = none := by
  refine afterLineEnd?_of_ne ?_ ?_ more <;>
  · rintro rfl
    cases h

/-! ### Escapes -/

/-- Does the text behind a backslash stand for the character, whatever comes next?  It does not look
    like the end of a line. -/
structure Escapes (e : List Char) (c : Char) : Prop where
  reads : ∀ more, escape (e ++ more) = some (c, more)
  stays : ∀ more, afterContinuation? (e ++ more) = none

/-- A control character is written with its code. -/
theorem escapes_code {c : Char} (h : c.toNat < 128) :
    Escapes ['u', '0', '0', hexDigit (c.toNat / 16), hexDigit (c.toNat % 16)] c := by
  have hdigits : ∀ n < 128, fixedNumber 16 4 ['0', '0', hexDigit (n / 16), hexDigit (n % 16)] =
      some (n, []) := by decide
  refine ⟨fun more => ?_, fun more => rfl⟩
  have hread := fixedNumber_append (hdigits _ h) more
  have hvalid : c.toNat.isValidChar := c.valid
  simp only [List.cons_append, List.nil_append] at hread ⊢
  rw [escape, codeOf, hread]
  simp [hvalid]

/-- A character that is no double quote stands for itself, or is a line feed, or is written with a
    backslash. -/
theorem escapeChar_cases (lines : Bool) {c : Char} (hquote : c ≠ '"') :
    (escapeChar lines c = [c] ∧ isBasicChar c = true) ∨
    (lines = true ∧ c = '\n' ∧ escapeChar lines c = ['\n']) ∨
    ∃ e, escapeChar lines c = '\\' :: e ∧ Escapes e c := by
  have hsimple {x : Char} (hreads : ∀ more, escape (x :: more) = some (c, more))
      (hstays : ∀ more, afterContinuation? (x :: more) = none) : Escapes [x] c :=
    ⟨hreads, hstays⟩
  rw [escapeChar]
  split
  case h_3 heq =>
    obtain rfl : c = '\n' := eq_ofNat_of_toNat heq
    cases lines with
    | true => exact .inr (.inl ⟨rfl, rfl, rfl⟩)
    | false => exact .inr (.inr ⟨_, rfl, hsimple (fun _ => rfl) fun _ => rfl⟩)
  case h_7 hfeed _ _ hback =>
    split
    · rename_i hcontrol
      refine .inr (.inr ⟨_, rfl, escapes_code ?_⟩)
      simp only [isControl, Bool.or_eq_true, Bool.and_eq_true, decide_eq_true_eq, beq_iff_eq]
        at hcontrol
      omega
    · rename_i hcontrol
      refine .inl ⟨rfl, isBasicChar_of_not_isControl (by simpa using hcontrol) ?_ hquote ?_⟩
      · rintro rfl
        exact hfeed rfl
      · rintro rfl
        exact hback rfl
  all_goals
    rename_i heq
    rw [eq_ofNat_of_toNat heq]
    exact .inr (.inr ⟨_, rfl, fun _ => rfl, fun _ => rfl⟩)

theorem escapeChar_head (lines : Bool) {c : Char} (hquote : c ≠ '"') :
    ∃ d e, escapeChar lines c = d :: e ∧ d ≠ '"' := by
  rcases escapeChar_cases lines hquote with ⟨heq, -⟩ | ⟨-, -, heq⟩ | ⟨e, heq, -⟩
  · exact ⟨c, [], heq, hquote⟩
  · exact ⟨'\n', [], heq, by decide⟩
  · exact ⟨'\\', e, heq, by decide⟩

theorem length_escapeChar_pos (lines : Bool) {c : Char} (hquote : c ≠ '"') :
    0 < (escapeChar lines c).length := by
  obtain ⟨d, e, heq, -⟩ := escapeChar_head lines hquote
  rw [heq]
  exact Nat.zero_lt_succ _

theorem ne_backslash_of_isBasicChar {c : Char} (h : isBasicChar c = true) : c ≠ '\\' := by
  rintro rfl
  cases h

/-! ### Strings on one line -/

/-- Does no further quote stand in front of the text? -/
def Unquoted (rest : List Char) : Prop :=
  ∀ c ∈ rest.head?, c ≠ '"' ∧ c ≠ '\''

theorem escapeText_quote (lines : Bool) (run : Nat) (cs : List Char) :
    escapeText lines 0 run ('"' :: cs) = '\\' :: '"' :: escapeText lines 0 0 cs := by
  rw [escapeText, if_pos rfl, if_neg (Nat.not_lt_zero run)]

theorem escapeText_of_ne {lines : Bool} {free run : Nat} {c : Char} {cs : List Char}
    (hquote : c ≠ '"') :
    escapeText lines free run (c :: cs) = escapeChar lines c ++ escapeText lines free 0 cs := by
  rw [escapeText, if_neg hquote]

/-- What is written of a character is read as that character. -/
theorem basicTail_escapeChar {c : Char} (hquote : c ≠ '"') (fuel : Nat) (read more : List Char) :
    basicTail (fuel + 1) read (escapeChar false c ++ more) = basicTail fuel (c :: read) more := by
  rcases escapeChar_cases false hquote with ⟨heq, hbasic⟩ | ⟨hlines, -⟩ | ⟨e, heq, he⟩
  · rw [heq, List.singleton_append, basicTail]
    · rw [if_pos hbasic]
    · exact hquote
    · exact ne_backslash_of_isBasicChar hbasic
  · cases hlines
  · rw [heq, List.cons_append, basicTail, he.reads]
    rfl

theorem basicTail_escapeText (cs rest : List Char) {fuel run : Nat} {read : List Char}
    (hfuel : (escapeText false 0 run cs).length < fuel) :
    basicTail fuel read (escapeText false 0 run cs ++ '"' :: rest) =
      some (String.ofList (read.reverse ++ cs), rest) := by
  induction cs generalizing fuel run read with
  | nil =>
    obtain ⟨fuel, rfl⟩ := Nat.exists_eq_add_one_of_ne_zero (Nat.ne_zero_of_lt hfuel)
    simp [escapeText, basicTail]
  | cons c cs ih =>
    obtain ⟨fuel, rfl⟩ := Nat.exists_eq_add_one_of_ne_zero (Nat.ne_zero_of_lt hfuel)
    have hnext (hlength : (escapeText false 0 0 cs).length < fuel) :
        basicTail fuel (c :: read) (escapeText false 0 0 cs ++ '"' :: rest) =
          some (String.ofList (read.reverse ++ c :: cs), rest) := by
      rw [ih hlength, List.reverse_cons, List.append_assoc, List.singleton_append]
    by_cases hquote : c = '"'
    · subst hquote
      rw [escapeText_quote] at hfuel ⊢
      simp only [List.length_cons] at hfuel
      exact hnext (by omega)
    · have hpos := length_escapeChar_pos false hquote
      rw [escapeText_of_ne hquote, List.length_append] at hfuel
      rw [escapeText_of_ne hquote, List.append_assoc, basicTail_escapeChar hquote]
      exact hnext (by omega)

theorem literalTail_append {cs : List Char} (hcs : ∀ c ∈ cs, isLiteralChar c = true)
    (rest : List Char) : literalTail (cs ++ '\'' :: rest) = some (String.ofList cs, rest) := by
  have hquote : isLiteralChar '\'' = false := rfl
  have htake : (cs ++ '\'' :: rest).takeWhile isLiteralChar = cs := by
    rw [List.takeWhile_append_of_pos hcs, List.takeWhile_cons_of_neg (by simp [hquote]),
      List.append_nil]
  have hdrop : (cs ++ '\'' :: rest).dropWhile isLiteralChar = '\'' :: rest := by
    rw [List.dropWhile_append_of_pos hcs, List.dropWhile_cons_of_neg (by simp [hquote])]
  rw [literalTail, htake, hdrop]
  rfl

/-! ### Strings over several lines -/

/-- Where a text ends that has at most two quotes in a row here. -/
theorem closing?_append {q : Char} {body rest : List Char} (hrest : ∀ c ∈ rest.head?, c ≠ q)
    (hrun : (body.takeWhile (· == q)).length ≤ 2) :
    closing? q (body ++ q :: q :: q :: rest) =
      if body.all (· == q) then some (body.length, rest) else none := by
  have hends : rest.takeWhile (· == q) = [] := by
    cases rest with
    | nil => rfl
    | cons c rest => exact List.takeWhile_cons_of_neg (by simpa using hrest c rfl)
  rw [closing?, List.takeWhile_append]
  split
  · -- the text has no other character
    rename_i hlength
    have hall : body.all (· == q) = true := by
      rw [List.all_eq_true]
      intro c hc
      rw [← List.IsPrefix.eq_of_length (List.takeWhile_prefix _) hlength] at hc
      exact List.mem_takeWhile_imp (p := (· == q)) hc
    rw [hlength] at hrun
    have hdrop : (body ++ q :: q :: q :: rest).drop (min (body.length + 3) 5) = rest := by
      rw [Nat.min_eq_left (by omega), ← List.drop_drop, List.drop_left]
      rfl
    simp only [hends, hall, beq_self_eq_true, List.takeWhile_cons_of_pos, List.length_append,
      List.length_cons, List.length_nil, if_true]
    rw [if_neg (by omega), hdrop, Nat.add_sub_cancel, Nat.min_eq_left hrun]
  · rename_i hlength
    have hall : ¬ body.all (· == q) = true := by
      intro hall
      rw [List.all_eq_true] at hall
      exact hlength (by rw [List.takeWhile_eq_self_iff.mpr hall])
    rw [if_neg hall, if_pos (by omega)]

theorem closing?_of_ne {q c : Char} (h : c ≠ q) (cs : List Char) : closing? q (c :: cs) = none := by
  rw [closing?, List.takeWhile_cons_of_neg (by simpa using h)]
  rfl

/-- An escaped text never has more than two quotes in a row, those in front of it included. -/
theorem takeWhile_escapeText (cs : List Char) {run : Nat} (hrun : run ≤ 2) :
    run + ((escapeText true 2 run cs).takeWhile (· == '"')).length ≤ 2 := by
  induction cs generalizing run with
  | nil => simpa [escapeText] using hrun
  | cons c cs ih =>
    by_cases hquote : c = '"'
    · rw [escapeText, if_pos hquote]
      split
      · rename_i hfree
        have hnext : run + 1 + _ ≤ 2 := ih hfree
        simp only [List.takeWhile_cons_of_pos, beq_self_eq_true, List.length_cons]
        omega
      · simpa using hrun
    · obtain ⟨d, e, heq, hd⟩ := escapeChar_head true hquote
      rw [escapeText_of_ne hquote, heq, List.cons_append,
        List.takeWhile_cons_of_neg (by simpa using hd)]
      simpa using hrun

/-- Nothing was escaped in a text of quotes only. -/
theorem eq_of_all_escapeText {cs : List Char} {run : Nat}
    (h : (escapeText true 2 run cs).all (· == '"') = true) : escapeText true 2 run cs = cs := by
  induction cs generalizing run with
  | nil => rfl
  | cons c cs ih =>
    by_cases hquote : c = '"'
    · rw [escapeText, if_pos hquote] at h ⊢
      split
      · rename_i hfree
        rw [if_pos hfree, List.all_cons, Bool.and_eq_true] at h
        rw [ih h.2, hquote]
      · rename_i hfree
        rw [if_neg hfree, List.all_cons] at h
        cases h
    · obtain ⟨d, e, heq, hd⟩ := escapeChar_head true hquote
      rw [escapeText_of_ne hquote, heq, List.cons_append, List.all_cons, Bool.and_eq_true,
        beq_iff_eq] at h
      exact absurd h.1 hd

theorem replicate_of_all {q : Char} {cs : List Char} (h : cs.all (· == q) = true) :
    List.replicate cs.length q = cs := by
  refine (List.eq_replicate_of_mem fun c hc => ?_).symm
  simpa using List.all_eq_true.mp h c hc

/-- What is written of a character is read as that character, and a line feed as it stands. -/
theorem basicLinesTail_escapeChar {c : Char} (hquote : c ≠ '"') (fuel : Nat)
    (read more : List Char) :
    basicLinesTail (fuel + 1) read (escapeChar true c ++ more) =
      basicLinesTail fuel (c :: read) more := by
  rw [basicLinesTail.eq_def]
  dsimp only
  rcases escapeChar_cases true hquote with ⟨heq, hbasic⟩ | ⟨-, rfl, heq⟩ | ⟨e, heq, he⟩
  · rw [heq, List.singleton_append, closing?_of_ne hquote]
    dsimp only
    split
    · rename_i hcut
      exact absurd (List.cons.inj hcut).1 hquote
    · rename_i hcut
      exact absurd (List.cons.inj hcut).1 (ne_backslash_of_isBasicChar hbasic)
    · rw [afterLineEnd?_of_isBasicChar hbasic]
      simp only [hbasic, if_true]
  · rw [heq, List.singleton_append, closing?_of_ne (by decide)]
    rfl
  · rw [heq, List.cons_append, closing?_of_ne (by decide)]
    simp only [he.stays, he.reads]

theorem basicLinesTail_escapeText (cs : List Char) {rest : List Char} (hrest : Unquoted rest)
    {fuel run : Nat} {read : List Char} (hrun : run ≤ 2)
    (hfuel : (escapeText true 2 run cs).length < fuel) :
    basicLinesTail fuel read (escapeText true 2 run cs ++ '"' :: '"' :: '"' :: rest) =
      some (String.ofList (read.reverse ++ cs), rest) := by
  have hends : ∀ c ∈ rest.head?, c ≠ '"' := fun c hc => (hrest c hc).1
  induction cs generalizing fuel run read with
  | nil =>
    obtain ⟨fuel, rfl⟩ := Nat.exists_eq_add_one_of_ne_zero (Nat.ne_zero_of_lt hfuel)
    rw [basicLinesTail.eq_def]
    dsimp only
    rw [closing?_append hends (by simp [escapeText])]
    simp [escapeText]
  | cons c cs ih =>
    obtain ⟨fuel, rfl⟩ := Nat.exists_eq_add_one_of_ne_zero (Nat.ne_zero_of_lt hfuel)
    have hnext {run : Nat} (hrun : run ≤ 2) (hlength : (escapeText true 2 run cs).length < fuel) :
        basicLinesTail fuel (c :: read) (escapeText true 2 run cs ++ '"' :: '"' :: '"' :: rest) =
          some (String.ofList (read.reverse ++ c :: cs), rest) := by
      rw [ih hrun hlength, List.reverse_cons, List.append_assoc, List.singleton_append]
    by_cases hquote : c = '"'
    · subst hquote
      have htwo := takeWhile_escapeText ('"' :: cs) hrun
      rw [basicLinesTail.eq_def]
      dsimp only
      rw [closing?_append hends (by omega)]
      by_cases hall : (escapeText true 2 run ('"' :: cs)).all (· == '"') = true
      · -- only quotes are left, and they belong to the closing ones
        have heq := eq_of_all_escapeText hall
        rw [if_pos hall, heq]
        rw [heq] at hall
        simp only [replicate_of_all hall]
      · rw [if_neg hall]
        clear hall htwo
        rw [escapeText, if_pos rfl] at hfuel ⊢
        by_cases hfree : run < 2
        · rw [if_pos hfree, List.length_cons] at hfuel
          rw [if_pos hfree]
          exact hnext hfree (by omega)
        · rw [if_neg hfree, List.length_cons, List.length_cons] at hfuel
          rw [if_neg hfree]
          exact hnext (Nat.zero_le 2) (by omega)
    · have hpos := length_escapeChar_pos true hquote
      rw [escapeText_of_ne hquote, List.length_append] at hfuel
      rw [escapeText_of_ne hquote, List.append_assoc, basicLinesTail_escapeChar hquote]
      exact hnext (Nat.zero_le 2) (by omega)

theorem add_length_le_longestRun (q : Char) (run : Nat) (cs : List Char) :
    run + (cs.takeWhile (· == q)).length ≤ longestRun q run cs := by
  induction cs generalizing run with
  | nil => exact Nat.le_refl run
  | cons c cs ih =>
    rw [longestRun]
    split
    · rename_i hc
      have hnext := ih (run + 1)
      simp only [hc, List.takeWhile_cons_of_pos, beq_self_eq_true, List.length_cons]
      omega
    · rename_i hc
      rw [List.takeWhile_cons_of_neg (by simpa using hc)]
      exact Nat.le_max_left ..

theorem not_mem_of_longestRun {q : Char} {run : Nat} {cs : List Char}
    (h : longestRun q run cs = 0) : q ∉ cs := by
  induction cs generalizing run with
  | nil => simp
  | cons c cs ih =>
    rw [longestRun] at h
    split at h
    · have hpos := add_length_le_longestRun q (run + 1) cs
      omega
    · rename_i hc
      have hzero : longestRun q 0 cs = 0 := by omega
      have hnext : q ∉ cs := ih hzero
      simpa [hnext] using fun heq : q = c => hc heq.symm

/-- Where the string does not end, a character stands for itself. -/
theorem literalLinesTail_of_open {c : Char} (hc : isControl c = false) {cs : List Char}
    (hopen : closing? '\'' (c :: cs) = none) (fuel : Nat) (read : List Char) :
    literalLinesTail (fuel + 1) read (c :: cs) = literalLinesTail fuel (c :: read) cs := by
  rw [literalLinesTail.eq_def]
  dsimp only
  rw [hopen]
  by_cases hfeed : c = '\n'
  · subst hfeed
    rfl
  · have hreturn : c ≠ '\r' := by
      rintro rfl
      cases hc
    have hchar : (c == '\'' || isLiteralChar c) = true := by
      by_cases hquote : c = '\''
      · simp [hquote]
      · simp [isLiteralChar_of_not_isControl hc hfeed hquote]
    rw [afterLineEnd?_of_ne hfeed hreturn]
    simp only [hchar, if_true]

theorem literalLinesTail_append {cs : List Char} (hcs : ∀ c ∈ cs, isControl c = false)
    {rest : List Char} (hrest : Unquoted rest) {fuel run : Nat} {read : List Char}
    (hrun : longestRun '\'' run cs ≤ 2) (hfuel : cs.length < fuel) :
    literalLinesTail fuel read (cs ++ '\'' :: '\'' :: '\'' :: rest) =
      some (String.ofList (read.reverse ++ cs), rest) := by
  have hends : ∀ c ∈ rest.head?, c ≠ '\'' := fun c hc => (hrest c hc).2
  induction cs generalizing fuel run read with
  | nil =>
    obtain ⟨fuel, rfl⟩ := Nat.exists_eq_add_one_of_ne_zero (Nat.ne_zero_of_lt hfuel)
    rw [literalLinesTail.eq_def]
    dsimp only
    rw [closing?_append hends (by simp)]
    simp
  | cons c cs ih =>
    obtain ⟨fuel, rfl⟩ := Nat.exists_eq_add_one_of_ne_zero (Nat.ne_zero_of_lt hfuel)
    obtain ⟨hc, hcs⟩ := List.forall_mem_cons.mp hcs
    have htwo := add_length_le_longestRun '\'' run (c :: cs)
    have hclosing : closing? '\'' (c :: cs ++ '\'' :: '\'' :: '\'' :: rest) = _ :=
      closing?_append hends (by omega)
    by_cases hall : (c :: cs).all (· == '\'') = true
    · rw [literalLinesTail.eq_def]
      dsimp only
      rw [hclosing, if_pos hall]
      simp only [replicate_of_all hall]
    · have hlater : ∃ run, longestRun '\'' run cs ≤ 2 := by
        rw [longestRun] at hrun
        split at hrun
        · exact ⟨_, hrun⟩
        · exact ⟨0, by omega⟩
      obtain ⟨run', hrun'⟩ := hlater
      rw [List.length_cons] at hfuel
      rw [if_neg hall, List.cons_append] at hclosing
      rw [List.cons_append, literalLinesTail_of_open hc hclosing, ih hcs hrun' (by omega),
        List.reverse_cons, List.append_assoc, List.singleton_append]

/-! ### Strings of any kind -/

theorem isLiteralChar_of_quotesFor {cs : List Char} (h : quotesFor cs = .literal) :
    ∀ c ∈ cs, isLiteralChar c = true := by
  rw [quotesFor] at h
  split_ifs at h with hbasic hliteral
  simp only [Bool.and_eq_true, Bool.not_eq_true', List.any_eq_false, beq_iff_eq,
    List.contains_eq_mem, decide_eq_false_iff_not] at hliteral
  obtain ⟨⟨hcontrol, hsingle⟩, hfeed⟩ := hliteral
  have hquote := not_mem_of_longestRun hsingle
  intro c hc
  refine isLiteralChar_of_not_isControl (Bool.eq_false_iff.mpr (hcontrol c hc)) ?_ ?_
  · rintro rfl
    exact hfeed hc
  · rintro rfl
    exact hquote hc

theorem of_literalLines {cs : List Char} (h : quotesFor cs = .literalLines) :
    (∀ c ∈ cs, isControl c = false) ∧ longestRun '\'' 0 cs ≤ 2 := by
  rw [quotesFor] at h
  split_ifs at h with hbasic hliteral hbasicLines hlines
  simp only [Bool.and_eq_true, Bool.not_eq_true', List.any_eq_false, decide_eq_true_eq] at hlines
  exact ⟨fun c hc => Bool.eq_false_iff.mpr (hlines.1 c hc), hlines.2⟩

/-- The line feed behind the opening quotes is dropped, and nothing else is. -/
theorem dropFirstLineEnd_opening (cs : List Char) {text : List Char}
    (h : '\n' ∉ cs → afterLineEnd? text = none) : dropFirstLineEnd (opening cs ++ text) = text := by
  rw [opening, List.contains_eq_mem]
  by_cases hfeed : '\n' ∈ cs
  · rw [decide_eq_true hfeed]
    rfl
  · rw [decide_eq_false hfeed]
    simp [dropFirstLineEnd, h hfeed]

theorem afterLineEnd?_escapeText {cs : List Char} (hfeed : '\n' ∉ cs) (more : List Char) :
    afterLineEnd? (escapeText true 2 0 cs ++ '"' :: more) = none := by
  cases cs with
  | nil => rfl
  | cons c cs =>
    by_cases hquote : c = '"'
    · subst hquote
      rfl
    · rw [escapeText_of_ne hquote]
      rcases escapeChar_cases true hquote with ⟨heq, hbasic⟩ | ⟨-, rfl, -⟩ | ⟨e, heq, -⟩
      · rw [heq]
        exact afterLineEnd?_of_isBasicChar hbasic _
      · exact absurd List.mem_cons_self hfeed
      · rw [heq]
        rfl

theorem afterLineEnd?_append {cs : List Char} (hcs : ∀ c ∈ cs, isControl c = false)
    (hfeed : '\n' ∉ cs) (more : List Char) : afterLineEnd? (cs ++ '\'' :: more) = none := by
  cases cs with
  | nil => rfl
  | cons c cs =>
    refine afterLineEnd?_of_ne ?_ ?_ _
    · rintro rfl
      exact hfeed List.mem_cons_self
    · rintro rfl
      cases hcs _ List.mem_cons_self

/-- One or two quotes that no third one follows open a string on one line. -/
theorem string_basic {cs : List Char} (h : ∀ more, cs ≠ '"' :: '"' :: more) :
    string ('"' :: cs) = basicTail (cs.length + 1) [] cs := by
  rw [string.eq_def]
  split
  · rename_i heq
    exact absurd (List.cons.inj heq).2 (h _)
  · rename_i heq
    cases (List.cons.inj heq).1
  · rename_i heq
    cases heq
    rfl
  · rename_i heq
    cases (List.cons.inj heq).1
  · rename_i hbasic _
    exact absurd rfl (hbasic cs)

theorem string_literal {cs : List Char} (h : ∀ more, cs ≠ '\'' :: '\'' :: more) :
    string ('\'' :: cs) = literalTail cs := by
  rw [string.eq_def]
  split
  · rename_i heq
    cases (List.cons.inj heq).1
  · rename_i heq
    exact absurd (List.cons.inj heq).2 (h _)
  · rename_i heq
    cases (List.cons.inj heq).1
  · rename_i heq
    cases heq
    rfl
  · rename_i _ hliteral
    exact absurd rfl (hliteral cs)

/-- A text of which every quote is escaped starts with none. -/
theorem escapeText_head {c : Char} (cs : List Char) :
    ∃ d e, escapeText false 0 0 (c :: cs) = d :: e ∧ d ≠ '"' := by
  by_cases hquote : c = '"'
  · subst hquote
    exact ⟨'\\', _, escapeText_quote false 0 cs, by decide⟩
  · obtain ⟨d, e, heq, hd⟩ := escapeChar_head false hquote
    exact ⟨d, _, by rw [escapeText_of_ne hquote, heq, List.cons_append], hd⟩

theorem string_escapeText (cs : List Char) {rest : List Char} (hrest : Unquoted rest) :
    string ('"' :: (escapeText false 0 0 cs ++ '"' :: rest)) = some (String.ofList cs, rest) := by
  rw [string_basic, basicTail_escapeText cs rest (by
    rw [List.length_append]
    omega)]
  · rfl
  · intro more heq
    cases cs with
    | nil =>
      obtain ⟨-, rfl⟩ := List.cons.inj heq
      exact (hrest '"' rfl).1 rfl
    | cons c cs =>
      obtain ⟨d, e, hhead, hd⟩ := escapeText_head (c := c) cs
      rw [hhead] at heq
      exact hd (List.cons.inj heq).1

theorem string_literalChars {cs : List Char} (hcs : ∀ c ∈ cs, isLiteralChar c = true)
    {rest : List Char} (hrest : Unquoted rest) :
    string ('\'' :: (cs ++ '\'' :: rest)) = some (String.ofList cs, rest) := by
  rw [string_literal, literalTail_append hcs]
  intro more heq
  cases cs with
  | nil =>
    obtain ⟨-, rfl⟩ := List.cons.inj heq
    exact (hrest '\'' rfl).2 rfl
  | cons c cs =>
    obtain ⟨rfl, -⟩ := List.cons.inj heq
    cases hcs '\'' List.mem_cons_self

theorem string_basicLines (cs : List Char) {rest : List Char} (hrest : Unquoted rest) :
    string ('"' :: '"' :: '"' ::
      (opening cs ++ (escapeText true 2 0 cs ++ '"' :: '"' :: '"' :: rest))) =
        some (String.ofList cs, rest) := by
  rw [string, dropFirstLineEnd_opening cs fun hfeed => afterLineEnd?_escapeText hfeed _,
    basicLinesTail_escapeText cs hrest (Nat.zero_le 2)]
  · rfl
  · simp only [List.length_append]
    omega

theorem string_literalLines {cs : List Char} (hcs : ∀ c ∈ cs, isControl c = false)
    (hrun : longestRun '\'' 0 cs ≤ 2) {rest : List Char} (hrest : Unquoted rest) :
    string ('\'' :: '\'' :: '\'' :: (opening cs ++ (cs ++ '\'' :: '\'' :: '\'' :: rest))) =
      some (String.ofList cs, rest) := by
  rw [string, dropFirstLineEnd_opening cs fun hfeed => afterLineEnd?_append hcs hfeed _,
    literalLinesTail_append hcs hrest hrun]
  · rfl
  · simp only [List.length_append]
    omega

/-- A string in quotes is read as what it was, up to the closing quotes. -/
theorem string_quote (s : String) {rest : List Char} (hrest : Unquoted rest) :
    string (quote s ++ rest) = some (s, rest) := by
  have hs : String.ofList s.toList = s := String.ofList_toList
  generalize s.toList = cs at hs
  subst hs
  rw [quote, String.toList_ofList]
  cases hquotes : quotesFor cs with
  | basic => simpa using string_escapeText cs hrest
  | literal => simpa using string_literalChars (isLiteralChar_of_quotesFor hquotes) hrest
  | basicLines => simpa using string_basicLines cs hrest
  | literalLines =>
    obtain ⟨hcontrol, hrun⟩ := of_literalLines hquotes
    simpa using string_literalLines hcontrol hrun hrest

theorem quote_head (s : String) : ∃ q more, quote s = q :: more ∧ (q = '"' ∨ q = '\'') := by
  rw [quote]
  cases quotesFor s.toList with
  | basic | basicLines => exact ⟨'"', _, rfl, .inl rfl⟩
  | literal | literalLines => exact ⟨'\'', _, rfl, .inr rfl⟩

end SourceWeb.Toml
