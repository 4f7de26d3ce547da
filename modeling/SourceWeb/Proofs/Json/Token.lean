/-
  The tokens of a JSON text, and what stands in the gaps between them.

  A text spells tokens one behind the other, with a gap in front of each.  Which gaps may stand
  there is left open: white space in a strict text, comments as well in a lenient one.  A text that
  is made of white space and tokens is made of them in one way only, as long as words are taken
  whole.
-/
import Mathlib.Data.List.Chain
import Mathlib.Data.List.TakeWhile
import SourceWeb.Json.Reader

namespace SourceWeb.Json

/-! ### Tokens -/

def isMark (c : Char) : Bool :=
  c == '[' || c == ']' || c == '\x7b' || c == '\x7d' || c == ',' || c == ':'

/-- A character of a number or of one of the names for values. -/
def isWordChar (c : Char) : Bool :=
  c.isAlphanum || c == '+' || c == '-' || c == '.'

/-- Does the text of a string end where it should?  A backslash takes the next character along, and
    no other quote stands in it. -/
inductive Closed : List Char → Prop
  | nil : Closed []
  | plain {c : Char} {cs : List Char} : c ≠ '"' → c ≠ '\\' → Closed cs → Closed (c :: cs)
  | escaped {c : Char} {cs : List Char} : Closed cs → Closed ('\\' :: c :: cs)

theorem closed_of_plain {raw : List Char} (h : ∀ c ∈ raw, c ≠ '"' ∧ c ≠ '\\') : Closed raw := by
  induction raw with
  | nil => exact .nil
  | cons c raw ih =>
    obtain ⟨hquote, hback⟩ := h c (by simp)
    exact .plain hquote hback (ih fun d hd => h d (by simp [hd]))

/-- What a text is made of: marks, strings with what stands between their quotes, and words. -/
inductive Token
  | mark (c : Char)
  | quoted (raw : List Char)
  | word (cs : List Char)
  deriving DecidableEq, Repr

namespace Token

def text : Token → List Char
  | mark c => [c]
  | quoted raw => '"' :: (raw ++ ['"'])
  | word cs => cs

def Proper : Token → Prop
  | mark c => isMark c = true
  | quoted raw => Closed raw
  | word cs => cs ≠ [] ∧ ∀ c ∈ cs, isWordChar c = true

/-- Does the token open an array or an object? -/
def opens : Token → Bool
  | mark c => c == '\x7b' || c == '['
  | _ => false

/-- Does the token close an array or an object? -/
def closes : Token → Bool
  | mark c => c == '\x7d' || c == ']'
  | _ => false

def isWord : Token → Bool
  | word _ => true
  | _ => false

end Token

/-- Does no word stand right behind another one? -/
def Separate (ts : List Token) : Prop :=
  ts.IsChain fun t u => ¬ (t.isWord = true ∧ u.isWord = true)

/-! ### Spelling -/

def Blank (g : List Char) : Prop :=
  ∀ c ∈ g, isSpace c = true

/-- Does the text spell the tokens, with a gap in front of each, down to its rest? -/
inductive Spells (Gap : List Char → Prop) : List Token → List Char → List Char → Prop
  | nil (rest : List Char) : Spells Gap [] rest rest
  | cons {g : List Char} {t : Token} {ts : List Token} {cs rest : List Char} :
      Gap g → t.Proper → Spells Gap ts cs rest → Spells Gap (t :: ts) (g ++ (t.text ++ cs)) rest

/-- Do the tokens, and a gap at the end, make up the whole text? -/
def Made (Gap : List Char → Prop) (ts : List Token) (cs : List Char) : Prop :=
  ∃ g, Gap g ∧ Spells Gap ts cs g

variable {Gap : List Char → Prop} {ts us : List Token} {cs mid rest : List Char}

theorem Spells.append (h : Spells Gap ts cs mid) (h' : Spells Gap us mid rest) :
    Spells Gap (ts ++ us) cs rest := by
  induction h with
  | nil => exact h'
  | cons hg ht _ ih => exact .cons hg ht (ih h')

theorem Spells.of_append (h : Spells Gap (ts ++ us) cs rest) :
    ∃ mid, Spells Gap ts cs mid ∧ Spells Gap us mid rest := by
  induction ts generalizing cs with
  | nil => exact ⟨cs, .nil cs, h⟩
  | cons t ts ih =>
    cases h with
    | cons hg ht h =>
      obtain ⟨mid, hts, hus⟩ := ih h
      exact ⟨mid, .cons hg ht hts, hus⟩

theorem Token.text_ne_nil {t : Token} (h : t.Proper) : t.text ≠ [] := by
  cases t with
  | mark c => simp [text]
  | quoted raw => simp [text]
  | word cs => exact h.1

theorem Spells.length_le (h : Spells Gap ts cs rest) : ts.length ≤ cs.length := by
  induction h with
  | nil => exact Nat.zero_le _
  | cons _ ht _ ih =>
    have := List.length_pos_iff.mpr (Token.text_ne_nil ht)
    simp only [List.length_cons, List.length_append]
    omega

/-- Tokens may be written one right behind the other. -/
theorem spells_flatMap (hnil : Gap []) (h : ∀ t ∈ ts, t.Proper) :
    Spells Gap ts (ts.flatMap Token.text) [] := by
  induction ts with
  | nil => exact .nil []
  | cons t ts ih => exact .cons hnil (h t (by simp)) (ih fun u hu => h u (by simp [hu]))

/-! ### White space -/

theorem forall_isMark {p : Char → Prop}
    (h : p '[' ∧ p ']' ∧ p '\x7b' ∧ p '\x7d' ∧ p ',' ∧ p ':') {c : Char} (hc : isMark c = true) :
    p c := by
  obtain ⟨hopen, hclose, hopen', hclose', hcomma, hcolon⟩ := h
  simp only [isMark, Bool.or_eq_true, beq_iff_eq] at hc
  rcases hc with (((((rfl | rfl) | rfl) | rfl) | rfl) | rfl) <;> assumption

theorem isWordChar_eq_false_of_isMark {c : Char} (h : isMark c = true) : isWordChar c = false :=
  forall_isMark (p := fun c => isWordChar c = false) (by decide) h

theorem isSpace_eq_false_of_isMark {c : Char} (h : isMark c = true) : isSpace c = false :=
  forall_isMark (p := fun c => isSpace c = false) (by decide) h

theorem isWordChar_eq_false_of_isSpace {c : Char} (h : isSpace c = true) :
    isWordChar c = false := by
  simp only [isSpace, Bool.or_eq_true, beq_iff_eq] at h
  rcases h with (((rfl | rfl) | rfl) | rfl) <;> decide

theorem Token.isSpace_head {t : Token} (h : t.Proper) : ∃ c cs, t.text = c :: cs ∧
    isSpace c = false := by
  cases t with
  | mark c => exact ⟨c, [], rfl, isSpace_eq_false_of_isMark h⟩
  | quoted raw => exact ⟨'"', _, rfl, by decide⟩
  | word cs =>
    obtain ⟨c, cs, rfl⟩ := List.exists_cons_of_ne_nil h.1
    refine ⟨c, cs, rfl, ?_⟩
    rw [← Bool.not_eq_true]
    intro hspace
    have hword := h.2 c (by simp)
    simp [isWordChar_eq_false_of_isSpace hspace] at hword

theorem skipSpace_append {g : List Char} (hg : Blank g) (cs : List Char) :
    skipSpace (g ++ cs) = skipSpace cs := by
  rw [skipSpace, List.dropWhile_append_of_pos hg]
  rfl

theorem skipSpace_eq_nil {g : List Char} (hg : Blank g) : skipSpace g = [] := by
  rw [← List.append_nil g, skipSpace_append hg]
  rfl

theorem exists_skipSpace (cs : List Char) : ∃ g, Blank g ∧ cs = g ++ skipSpace cs :=
  ⟨cs.takeWhile isSpace, fun _ hc => List.mem_takeWhile_imp hc,
    List.takeWhile_append_dropWhile.symm⟩

/-- Behind the white space in front of it stands the first token. -/
theorem Spells.skipSpace {t : Token} (h : Spells Blank (t :: ts) cs rest) :
    ∃ cs', skipSpace cs = t.text ++ cs' ∧ t.Proper ∧ Spells Blank ts cs' rest := by
  cases h with
  | cons hg ht h =>
    refine ⟨_, ?_, ht, h⟩
    obtain ⟨c, text, htext, hspace⟩ := Token.isSpace_head ht
    rw [skipSpace_append hg, htext, Json.skipSpace, List.cons_append,
      List.dropWhile_cons_of_neg (by simp [hspace])]

/-- The white space in front of the first token may be left out. -/
theorem Spells.at_skipSpace (hne : ts ≠ []) (h : Spells Blank ts cs rest) :
    Spells Blank ts (Json.skipSpace cs) rest := by
  obtain ⟨t, ts, rfl⟩ := List.exists_cons_of_ne_nil hne
  obtain ⟨cs', hcs, ht, h⟩ := h.skipSpace
  rw [hcs]
  exact .cons (g := []) (by simp [Blank]) ht h

theorem Spells.skipSpace_singleton {t : Token} (h : Spells Blank [t] cs rest) :
    Json.skipSpace cs = t.text ++ rest := by
  obtain ⟨cs', hcs, -, h⟩ := h.skipSpace
  cases h
  exact hcs

theorem Spells.blank_append {g : List Char} (hg : Blank g) (hne : ts ≠ [])
    (h : Spells Blank ts cs rest) : Spells Blank ts (g ++ cs) rest := by
  cases h with
  | nil => exact absurd rfl hne
  | cons hg' ht h =>
    rw [← List.append_assoc]
    exact .cons (List.forall_mem_append.mpr ⟨hg, hg'⟩) ht h

theorem Spells.of_skipSpace (hne : ts ≠ []) (h : Spells Blank ts (Json.skipSpace cs) rest) :
    Spells Blank ts cs rest := by
  obtain ⟨g, hg, hcs⟩ := exists_skipSpace cs
  rw [hcs]
  exact h.blank_append hg hne

theorem spells_of_skipSpace {cs' : List Char} (t : Token) (ht : t.Proper)
    (h : skipSpace cs = t.text ++ cs') : Spells Blank [t] cs cs' := by
  refine Spells.of_skipSpace (by simp) ?_
  rw [h]
  exact .cons (g := []) (by simp [Blank]) ht (.nil cs')

theorem spells_mark {c : Char} (hc : isMark c = true) (h : skipSpace cs = c :: rest) :
    Spells Blank [.mark c] cs rest :=
  spells_of_skipSpace (.mark c) hc h

theorem spells_quoted {raw : List Char} (hraw : Closed raw)
    (h : skipSpace cs = '"' :: (raw ++ '"' :: rest)) : Spells Blank [.quoted raw] cs rest :=
  spells_of_skipSpace (.quoted raw) hraw (by simp [h, Token.text])

/-! ### One way to take a text apart -/

/-- Does a word end in front of the text? -/
def Ends (cs : List Char) : Prop :=
  ∀ c ∈ cs.head?, isWordChar c = false

theorem ends_nil : Ends [] := by
  simp [Ends]

theorem ends_blank_append {g : List Char} (hg : Blank g) (h : Ends cs) : Ends (g ++ cs) := by
  cases g with
  | nil => exact h
  | cons c g =>
    intro d hd
    cases hd
    exact isWordChar_eq_false_of_isSpace (hg c (by simp))

/-- A word ends in front of any other token. -/
theorem Spells.ends {t : Token} (h : Spells Blank (t :: ts) cs rest) (ht : t.isWord = false) :
    Ends cs := by
  cases h with
  | cons hg hproper _ =>
    refine ends_blank_append hg ?_
    intro c hc
    cases t with
    | mark d =>
      cases hc
      exact isWordChar_eq_false_of_isMark hproper
    | quoted raw =>
      cases hc
      decide
    | word w => simp [Token.isWord] at ht

/-- A string ends at the first quote that is not escaped. -/
theorem Closed.append_inj {raw raw' : List Char} (h : Closed raw) (h' : Closed raw')
    (heq : raw ++ '"' :: cs = raw' ++ '"' :: rest) : raw = raw' ∧ cs = rest := by
  induction h generalizing raw' with
  | nil =>
    cases h' with
    | nil => exact ⟨rfl, (List.cons.inj heq).2⟩
    | plain hquote _ _ => exact absurd (List.cons.inj heq).1.symm hquote
    | escaped _ => simp at heq
  | plain hquote hback _ ih =>
    cases h' with
    | nil => exact absurd (List.cons.inj heq).1 hquote
    | plain _ _ h' =>
      simp only [List.cons_append, List.cons.injEq] at heq
      obtain ⟨rfl, heq⟩ := heq
      obtain ⟨rfl, hrest⟩ := ih h' heq
      exact ⟨rfl, hrest⟩
    | escaped _ => exact absurd (List.cons.inj heq).1 hback
  | escaped _ ih =>
    cases h' with
    | nil => simp at heq
    | plain _ hback _ => exact absurd (List.cons.inj heq).1.symm hback
    | escaped h' =>
      simp only [List.cons_append, List.cons.injEq, true_and] at heq
      obtain ⟨rfl, heq⟩ := heq
      obtain ⟨rfl, hrest⟩ := ih h' heq
      exact ⟨rfl, hrest⟩

theorem takeWhile_word {w : List Char} (hw : ∀ c ∈ w, isWordChar c = true) (h : Ends cs) :
    (w ++ cs).takeWhile isWordChar = w := by
  rw [List.takeWhile_append_of_pos hw]
  cases cs with
  | nil => simp
  | cons c cs => simp [h c rfl]

/-- Only a mark starts with a mark. -/
theorem Token.eq_mark {t : Token} {c : Char} (ht : t.Proper) (hc : isMark c = true)
    (h : t.text ++ cs = c :: rest) : t = mark c := by
  cases t with
  | mark d => rw [(List.cons.inj h).1]
  | quoted raw =>
    obtain ⟨rfl, -⟩ := List.cons.inj h
    exact absurd hc (by decide)
  | word w =>
    obtain ⟨d, w, rfl⟩ := List.exists_cons_of_ne_nil ht.1
    obtain ⟨rfl, -⟩ := List.cons.inj h
    simpa [isWordChar_eq_false_of_isMark hc] using ht.2 d (by simp)

/-- The first token of a text is determined, if a word is not cut short. -/
theorem Token.text_append_inj {t u : Token} (ht : t.Proper) (hu : u.Proper)
    (hcs : t.isWord = true → Ends cs) (hrest : u.isWord = true → Ends rest)
    (heq : t.text ++ cs = u.text ++ rest) : t = u ∧ cs = rest := by
  have hmixed : ∀ {c : Char} {w cs rest : List Char}, (word w).Proper → isWordChar c = false →
      c :: cs ≠ w ++ rest := by
    intro c w cs rest hw hc heq
    obtain ⟨d, w, rfl⟩ := List.exists_cons_of_ne_nil hw.1
    obtain ⟨rfl, -⟩ := List.cons.inj heq
    simp [hw.2 c (by simp)] at hc
  have hquote : isMark '"' = false := by decide
  cases t with
  | mark c =>
    cases u with
    | mark d =>
      simp only [text, List.cons_append, List.cons.injEq, List.nil_append] at heq
      obtain ⟨rfl, hcut⟩ := heq
      exact ⟨rfl, hcut⟩
    | quoted raw =>
      obtain ⟨rfl, -⟩ := List.cons.inj heq
      exact absurd ht (by simp [Proper, hquote])
    | word w => exact absurd heq (hmixed hu (isWordChar_eq_false_of_isMark ht))
  | quoted raw =>
    cases u with
    | mark d =>
      obtain ⟨rfl, -⟩ := List.cons.inj heq
      exact absurd hu (by simp [Proper, hquote])
    | quoted raw' =>
      simp only [text, List.cons_append, List.append_assoc, List.cons.injEq, true_and,
        List.nil_append] at heq
      obtain ⟨rfl, hcut⟩ := Closed.append_inj ht hu heq
      exact ⟨rfl, hcut⟩
    | word w => exact absurd heq (hmixed hu (by decide))
  | word w =>
    cases u with
    | mark d => exact absurd heq.symm (hmixed ht (isWordChar_eq_false_of_isMark hu))
    | quoted raw' => exact absurd heq.symm (hmixed ht (by decide))
    | word w' =>
      have hwords : w = w' := by
        rw [← takeWhile_word ht.2 (hcs rfl), ← takeWhile_word hu.2 (hrest rfl)]
        exact congrArg _ heq
      subst hwords
      exact ⟨rfl, List.append_cancel_left heq⟩

/-- What follows a word in a text of separate tokens does not go on with it. -/
theorem Separate.ends {t : Token} {g : List Char} (h : Separate (t :: ts))
    (hts : Spells Blank ts cs g) (hg : Blank g) (ht : t.isWord = true) : Ends cs := by
  cases ts with
  | nil =>
    cases hts
    rw [← List.append_nil cs]
    exact ends_blank_append hg ends_nil
  | cons u ts =>
    refine hts.ends ?_
    have hpair := (List.isChain_cons_cons.mp h).1
    simpa [ht] using hpair

/-- A text is made of separate tokens and white space in one way. -/
theorem Made.inj (hts : Separate ts) (hus : Separate us) (h : Made Blank ts cs)
    (h' : Made Blank us cs) : ts = us := by
  obtain ⟨g, hg, h⟩ := h
  obtain ⟨g', hg', h'⟩ := h'
  have hnil : ∀ {t : Token} {ts : List Token} {g g' : List Char}, Blank g →
      ¬ Spells Blank (t :: ts) g g' := by
    intro t ts g g' hg h
    obtain ⟨cs, hcs, ht, -⟩ := h.skipSpace
    rw [skipSpace_eq_nil hg] at hcs
    exact Token.text_ne_nil ht (List.append_eq_nil_iff.mp hcs.symm).1
  -- the first tokens are the same, and leave the same text for the others
  induction ts generalizing us cs with
  | nil =>
    cases h
    cases us with
    | nil => rfl
    | cons u us => exact absurd h' (hnil hg)
  | cons t ts ih =>
    cases us with
    | nil =>
      cases h'
      exact absurd h (hnil hg')
    | cons u us =>
      obtain ⟨cs₁, hcs₁, ht, h⟩ := h.skipSpace
      obtain ⟨cs₂, hcs₂, hu, h'⟩ := h'.skipSpace
      obtain ⟨rfl, rfl⟩ := Token.text_append_inj ht hu (hts.ends h hg) (hus.ends h' hg')
        (hcs₁.symm.trans hcs₂)
      exact congrArg (t :: ·) (ih hts.tail hus.tail h h')

end SourceWeb.Json
