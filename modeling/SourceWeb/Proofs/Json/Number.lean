/-
  How a number is read: up to its end and no further.

  What stands behind a number does not change how it is read, as long as that does not go on with
  it.  The same holds for every part of a numeral, and is kept when readers are put together.
-/
import SourceWeb.Proofs.Json.Token

namespace SourceWeb.Json

open SourceWeb.Text

/-! ### Readers of words -/

/-- Does the reader take characters of words only, and look at nothing behind a word? -/
structure Worded {α : Type} (read : List Char → Option (α × List Char)) : Prop where
  takes : ∀ {cs a rest}, read cs = some (a, rest) →
    ∃ w, cs = w ++ rest ∧ ∀ c ∈ w, isWordChar c = true
  stops : ∀ {rest}, Ends rest → ∀ w,
    read (w ++ rest) = (read w).map fun p => (p.1, p.2 ++ rest)

variable {α β : Type}

theorem Worded.bind {read : List Char → Option (α × List Char)}
    {next : α → List Char → Option (β × List Char)} (h : Worded read)
    (hnext : ∀ a, Worded (next a)) : Worded fun cs => (read cs).bind fun p => next p.1 p.2 where
  takes := by
    intro cs b rest heq
    obtain ⟨⟨a, mid⟩, hread, hrest⟩ := Option.bind_eq_some_iff.mp heq
    obtain ⟨w, rfl, hw⟩ := h.takes hread
    obtain ⟨w', rfl, hw'⟩ := (hnext a).takes hrest
    exact ⟨w ++ w', (List.append_assoc w w' rest).symm, List.forall_mem_append.mpr ⟨hw, hw'⟩⟩
  stops := by
    intro rest hrest w
    rw [h.stops hrest]
    cases read w with
    | none => rfl
    | some p => exact (hnext p.1).stops hrest p.2

theorem Worded.map {read : List Char → Option (α × List Char)} (h : Worded read) (f : α → β) :
    Worded fun cs => (read cs).map fun p => (f p.1, p.2) where
  takes := by
    intro cs b rest heq
    obtain ⟨⟨a, mid⟩, hread, hmap⟩ := Option.map_eq_some_iff.mp heq
    cases hmap
    exact h.takes hread
  stops := by
    intro rest hrest w
    rw [h.stops hrest]
    cases read w <;> rfl

theorem worded_some (a : α) : Worded fun cs => some (a, cs) where
  takes := by
    rintro cs b rest ⟨⟩
    exact ⟨[], rfl, by simp⟩
  stops := fun _ _ => rfl

theorem isWordChar_of_isDigit {c : Char} (h : c.isDigit = true) : isWordChar c = true := by
  simp [isWordChar, Char.isAlphanum, h]

/-- A reader that goes on in ways of their own behind certain characters, and in another way if the
    text starts with none of them. -/
theorem Worded.of_head {read other : List Char → Option (α × List Char)} (special : List Char)
    (hspecial : special.all isWordChar = true)
    (hnext : ∀ c ∈ special, Worded fun cs => read (c :: cs)) (hother : Worded other)
    (hnot : ∀ cs, (∀ c ∈ cs.head?, c ∉ special) → read cs = other cs) : Worded read where
  takes := by
    intro cs a rest heq
    cases cs with
    | nil => exact hother.takes ((hnot [] (by simp)).symm.trans heq)
    | cons c cs =>
      by_cases hc : c ∈ special
      · obtain ⟨w, rfl, hw⟩ := (hnext c hc).takes heq
        exact ⟨c :: w, rfl, List.forall_mem_cons.mpr ⟨List.all_eq_true.mp hspecial c hc, hw⟩⟩
      · exact hother.takes ((hnot (c :: cs) (by simpa using hc)).symm.trans heq)
  stops := by
    intro rest hrest w
    cases w with
    | nil =>
      have hhead : ∀ c ∈ rest.head?, c ∉ special := fun c hc hmem => by
        simpa [hrest c hc] using List.all_eq_true.mp hspecial c hmem
      rw [List.nil_append, hnot rest hhead, hnot [] (by simp)]
      exact hother.stops hrest []
    | cons c w =>
      by_cases hc : c ∈ special
      · exact (hnext c hc).stops hrest w
      · rw [hnot (c :: w ++ rest) (by simpa using hc), hnot (c :: w) (by simpa using hc)]
        exact hother.stops hrest (c :: w)

/-! ### Numbers -/

theorem takeWhile_dropWhile_digits {rest : List Char} (hrest : Ends rest) (w : List Char) :
    (w ++ rest).takeWhile Char.isDigit = w.takeWhile Char.isDigit ∧
      (w ++ rest).dropWhile Char.isDigit = w.dropWhile Char.isDigit ++ rest := by
  induction w with
  | nil =>
    cases rest with
    | nil => exact ⟨rfl, rfl⟩
    | cons c rest =>
      have hc : ¬ c.isDigit = true := fun hdigit => by
        have hword := isWordChar_of_isDigit hdigit
        simp [hrest c rfl] at hword
      simp [hc]
  | cons c w ih => by_cases hc : c.isDigit = true <;> simp [hc, ih]

theorem worded_plainRun : Worded Numeral.plainRun where
  takes := by
    intro cs ds rest h
    rw [Numeral.plainRun] at h
    split at h
    · simp at h
    · cases h
      exact ⟨cs.takeWhile Char.isDigit, List.takeWhile_append_dropWhile.symm,
        fun c hc => isWordChar_of_isDigit (List.mem_takeWhile_imp hc)⟩
  stops := by
    intro rest hrest w
    obtain ⟨htake, hdrop⟩ := takeWhile_dropWhile_digits hrest w
    rw [Numeral.plainRun, htake, hdrop, Numeral.plainRun]
    split <;> rfl

variable {run : Numeral.Run} (h : Worded run)

include h

theorem worded_readWhole : Worded (Numeral.readWhole run) := by
  refine .of_head ['0'] (by decide) (fun c hc => ?_) h fun cs hcs => ?_
  · cases List.mem_singleton.mp hc
    exact worded_some ['0']
  · cases cs with
    | nil => rfl
    | cons c cs =>
      have hc : c ≠ '0' := by simpa using hcs
      simp [Numeral.readWhole, hc]

theorem worded_readFraction : Worded (Numeral.readFraction run) := by
  refine .of_head ['.'] (by decide) (fun c hc => ?_) (worded_some none) fun cs hcs => ?_
  · cases List.mem_singleton.mp hc
    exact h.map some
  · cases cs with
    | nil => rfl
    | cons c cs =>
      have hc : c ≠ '.' := by simpa using hcs
      simp [Numeral.readFraction, hc]

theorem worded_readExponent : Worded (Numeral.readExponent run) := by
  have hpositive := h.map fun ds => some (digitsValue 10 ds : Int)
  have hnegative := h.map fun ds => some (-(digitsValue 10 ds : Int))
  refine .of_head ['e', 'E'] (by decide) (fun c hc => ?_) (worded_some none) fun cs hcs => ?_
  · have hletter : (c = 'e' || c = 'E') = true := by simpa using hc
    refine .of_head ['+', '-'] (by decide) (fun sign hsign => ?_) hpositive fun cs hcs => ?_
    · simp only [Numeral.readExponent, hletter, if_true]
      rcases List.mem_pair.mp hsign with rfl | rfl
      · exact hpositive
      · exact hnegative
    · cases cs with
      | nil => simp [Numeral.readExponent, hletter]
      | cons d cs =>
        obtain ⟨hplus, hminus⟩ : d ≠ '+' ∧ d ≠ '-' := by simpa using hcs
        simp [Numeral.readExponent, hletter, hplus, hminus]
  · cases cs with
    | nil => rfl
    | cons c cs =>
      have hletter : (c = 'e' || c = 'E') = false := by simpa using hcs
      simp [Numeral.readExponent, hletter]

theorem worded_read : Worded (Numeral.read run) := by
  have hexponent (whole : List Char) (fraction : Option (List Char)) :=
    (worded_readExponent h).map fun exponent => (⟨whole, fraction, exponent⟩ : Numeral)
  have hread : Numeral.read run = fun cs => (Numeral.readWhole run cs).bind fun p =>
      (Numeral.readFraction run p.2).bind fun q =>
        (Numeral.readExponent run q.2).map fun r => (⟨p.1, q.1, r.1⟩, r.2) := by
    funext cs
    simp only [Numeral.read, bind, pure, Option.map_eq_bind]
    rfl
  rw [hread]
  exact (worded_readWhole h).bind fun whole => (worded_readFraction h).bind (hexponent whole)

omit h

def unsigned : List Char → List Char
  | '-' :: cs => cs
  | cs => cs

theorem number_eq (cs : List Char) :
    number cs = (Numeral.read Numeral.plainRun (unsigned cs)).bind fun p =>
      if inRange p.1 then some (String.ofList (upTo cs p.2), p.2) else none :=
  rfl

theorem exists_unsigned (cs : List Char) :
    ∃ w, cs = w ++ unsigned cs ∧ ∀ c ∈ w, isWordChar c = true := by
  unfold unsigned
  split
  · exact ⟨['-'], rfl, List.forall_mem_singleton.mpr (by decide)⟩
  · exact ⟨[], rfl, by simp⟩

theorem unsigned_append {rest : List Char} (hrest : Ends rest) (w : List Char) :
    unsigned (w ++ rest) = unsigned w ++ rest := by
  cases w with
  | nil =>
    cases rest with
    | nil => rfl
    | cons c rest =>
      have hc : c ≠ '-' := by
        rintro rfl
        exact absurd (hrest '-' rfl) (by decide)
      simp [unsigned, hc]
  | cons c w => by_cases hc : c = '-' <;> simp [unsigned, hc]

/-- A number is read up to its end, whatever stands behind it. -/
theorem worded_number : Worded number where
  takes := by
    intro cs s rest heq
    rw [number_eq] at heq
    obtain ⟨⟨n, mid⟩, hread, hrange⟩ := Option.bind_eq_some_iff.mp heq
    obtain ⟨sign, hsign, hsignWord⟩ := exists_unsigned cs
    obtain ⟨w, hw, hword⟩ := (worded_read worded_plainRun).takes hread
    split at hrange
    · cases hrange
      exact ⟨sign ++ w, by rw [List.append_assoc, ← hw, ← hsign],
        List.forall_mem_append.mpr ⟨hsignWord, hword⟩⟩
    · simp at hrange
  stops := by
    intro rest hrest w
    rw [number_eq, unsigned_append hrest, (worded_read worded_plainRun).stops hrest, number_eq]
    cases Numeral.read Numeral.plainRun (unsigned w) with
    | none => rfl
    | some p =>
      have hupTo : upTo (w ++ rest) (p.2 ++ rest) = upTo w p.2 := by
        simp only [upTo, List.length_append, Nat.add_sub_add_right]
        exact List.take_append_of_le_length (Nat.sub_le _ _)
      simp only [Option.map_some, Option.bind_some, hupTo]
      split <;> rfl

theorem number_nil : number [] = none := by
  decide

/-- Where no word goes on behind a number, it is a word of its own. -/
theorem exists_word_of_number {cs rest : List Char} {s : String}
    (h : number cs = some (s, rest)) (hrest : Ends rest) :
    ∃ w, cs = w ++ rest ∧ number w = some (s, []) ∧ w ≠ [] ∧ ∀ c ∈ w, isWordChar c = true := by
  obtain ⟨w, rfl, hword⟩ := worded_number.takes h
  rw [worded_number.stops hrest] at h
  obtain ⟨⟨s', rest'⟩, hnumber, heq⟩ := Option.map_eq_some_iff.mp h
  obtain ⟨rfl, hrest'⟩ := Prod.mk.inj heq
  cases List.append_left_eq_self.mp hrest'
  refine ⟨w, rfl, hnumber, ?_, hword⟩
  rintro rfl
  simp [number_nil] at hnumber

theorem head_of_number {c : Char} {cs : List Char} {p : String × List Char}
    (h : number (c :: cs) = some p) : c = '-' ∨ c.isDigit = true := by
  by_contra hnot
  obtain ⟨hminus, hdigit⟩ := not_or.mp hnot
  have hzero : c ≠ '0' := by
    rintro rfl
    exact hdigit (by decide)
  simp [number_eq, unsigned, hminus, Numeral.read, Numeral.readWhole, hzero, Numeral.plainRun,
    hdigit] at h

end SourceWeb.Json
