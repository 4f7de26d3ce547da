/-
  What the lenient reading does to the tokens of a text.

  Comments are taken out of the gaps, and all tokens are kept.  Then every comma in front of a
  closing bracket is dropped, with no regard to tokens: those that a text has behind its last items,
  and also those within a string, if nothing but white space stands between the comma and a bracket
  there.
-/
import SourceWeb.Alias.Lenient
import SourceWeb.Proofs.Json.Grammar

namespace SourceWeb.Alias

open SourceWeb.Json SourceWeb.Text

/-! ### Characters -/

/-- Characters of a kind that has neither quotes nor slashes start no string and no comment. -/
theorem ne_of_kind {kind : Char → Bool} (hquote : kind '"' = false) (hslash : kind '/' = false)
    {c : Char} (h : kind c = true) : c ≠ '"' ∧ c ≠ '/' := by
  constructor
  · rintro rfl
    exact absurd h (by simp [hquote])
  · rintro rfl
    exact absurd h (by simp [hslash])

theorem isSpace_ne {c : Char} (h : isSpace c = true) : c ≠ '"' ∧ c ≠ '/' :=
  ne_of_kind rfl rfl h

/-! ### Comments -/

/-- What a lenient text has between its tokens: white space, comments that go on to the end of their
    line, and comments in which no end of a comment stands but their own. -/
inductive Gap : List Char → Prop
  | nil : Gap []
  | space {c : Char} {g : List Char} : isSpace c = true → Gap g → Gap (c :: g)
  | line {body g : List Char} : '\n' ∉ body → Gap g → Gap ('/' :: '/' :: (body ++ '\n' :: g))
  | block {body g : List Char} : ¬ ['*', '/'] <:+: body → Gap g →
      Gap ('/' :: '*' :: (body ++ '*' :: '/' :: g))

/-- What starts neither a string nor a comment is kept. -/
theorem stripFrom_append {w : List Char} (h : ∀ c ∈ w, c ≠ '"' ∧ c ≠ '/') (cs : List Char) :
    stripFrom .code (w ++ cs) = w ++ stripFrom .code cs := by
  induction w with
  | nil => rfl
  | cons c w ih =>
    obtain ⟨hquote, hslash⟩ := h c (by simp)
    simp [stripFrom, hslash, ih fun d hd => h d (by simp [hd])]

/-- A line comment goes on to the end of its line. -/
theorem stripFrom_inLine {body : List Char} (h : '\n' ∉ body) (cs : List Char) :
    stripFrom .lineComment (body ++ cs) = stripFrom .lineComment cs := by
  induction body with
  | nil => rfl
  | cons c body ih =>
    simp only [List.mem_cons, not_or] at h
    have hne : c ≠ '\n' := fun heq => h.1 heq.symm
    simp [stripFrom, ih h.2]

theorem stripFrom_line {body : List Char} (h : '\n' ∉ body) (cs : List Char) :
    stripFrom .lineComment (body ++ '\n' :: cs) = '\n' :: stripFrom .code cs := by
  rw [stripFrom_inLine h]
  simp [stripFrom]

/-- A block comment is open until its end, which the character before may be a part of. -/
theorem stripFrom_inBlock {body : List Char} {last : Char} (h : ¬ ['*', '/'] <:+: last :: body)
    (cs : List Char) :
    stripFrom (.blockComment last) (body ++ cs) =
      stripFrom (.blockComment (body.getLastD last)) cs := by
  induction body generalizing last with
  | nil => rfl
  | cons c body ih =>
    have hopen : ¬ (last = '*' ∧ c = '/') := by
      rintro ⟨rfl, rfl⟩
      exact h ⟨[], body, rfl⟩
    rw [List.cons_append, stripFrom, if_neg hopen, List.getLastD_cons]
    exact ih fun hin => h (List.infix_cons hin)

theorem stripFrom_block {body : List Char} {last : Char} (h : ¬ ['*', '/'] <:+: last :: body)
    (cs : List Char) :
    stripFrom (.blockComment last) (body ++ '*' :: '/' :: cs) = stripFrom .code cs := by
  rw [stripFrom_inBlock h]
  simp [stripFrom]

/-- What is left of a gap is white space. -/
theorem Gap.stripFrom {g : List Char} (h : Gap g) :
    ∃ g', Blank g' ∧ ∀ cs, Alias.stripFrom .code (g ++ cs) = g' ++ Alias.stripFrom .code cs := by
  induction h with
  | nil => exact ⟨[], by simp [Blank], fun _ => rfl⟩
  | @space c g hc _ ih =>
    obtain ⟨g', hg', hstrip⟩ := ih
    refine ⟨c :: g', List.forall_mem_cons.mpr ⟨hc, hg'⟩, fun cs => ?_⟩
    have hkept := stripFrom_append (w := [c]) (by simpa using isSpace_ne hc) (g ++ cs)
    rw [hstrip] at hkept
    exact hkept
  | line hbody _ ih =>
    obtain ⟨g', hg', hstrip⟩ := ih
    refine ⟨'\n' :: g', List.forall_mem_cons.mpr ⟨by decide, hg'⟩, fun cs => ?_⟩
    simp only [List.cons_append, List.append_assoc, Alias.stripFrom]
    rw [stripFrom_line hbody, hstrip]
  | block hbody _ ih =>
    obtain ⟨g', hg', hstrip⟩ := ih
    refine ⟨g', hg', fun cs => ?_⟩
    have hfirst : ¬ ['*', '/'] <:+: '\x00' :: _ := fun hin =>
      (List.infix_cons_iff.mp hin).elim (by simp) hbody
    simp only [List.cons_append, List.append_assoc, Alias.stripFrom]
    rw [stripFrom_block hfirst, hstrip]

theorem stripFrom_string {raw : List Char} (h : Closed raw) (cs : List Char) :
    stripFrom .string (raw ++ '"' :: cs) = raw ++ '"' :: stripFrom .code cs := by
  induction h with
  | nil => simp [stripFrom]
  | plain hquote hback _ ih => simp [stripFrom, ih]
  | escaped _ ih => simp [stripFrom, ih]

theorem stripFrom_token {t : Token} (h : t.Proper) (cs : List Char) :
    stripFrom .code (t.text ++ cs) = t.text ++ stripFrom .code cs := by
  cases t with
  | mark c => exact stripFrom_append (w := [c]) (by simpa using ne_of_kind rfl rfl h) cs
  | quoted raw =>
    simp only [Token.text, List.cons_append, List.append_assoc, List.nil_append, stripFrom]
    rw [stripFrom_string h]
  | word w => exact stripFrom_append (fun c hc => ne_of_kind rfl rfl (h.2 c hc)) cs

/-- Without its comments a text has the tokens it had, with white space between them. -/
theorem made_stripFrom {ts : List Token} {cs : List Char} (h : Made Gap ts cs) :
    Made Blank ts (stripFrom .code cs) := by
  obtain ⟨g, hg, h⟩ := h
  induction h with
  | nil =>
    obtain ⟨g', hg', hstrip⟩ := hg.stripFrom
    have hrest := hstrip []
    rw [List.append_nil, stripFrom_nil, List.append_nil] at hrest
    refine ⟨g', hg', ?_⟩
    rw [hrest]
    exact .nil g'
  | cons hg₁ ht _ ih =>
    obtain ⟨g₁', hg₁', hstrip⟩ := hg₁.stripFrom
    obtain ⟨g', hg', hspells⟩ := ih hg
    refine ⟨g', hg', ?_⟩
    rw [hstrip, stripFrom_token ht]
    exact .cons hg₁' ht hspells

/-- A text without comments stays as it is, whatever stands behind it. -/
theorem stripFrom_made {ts : List Token} {cs : List Char} (h : Made Blank ts cs)
    (rest : List Char) : stripFrom .code (cs ++ rest) = cs ++ stripFrom .code rest := by
  have hblank : ∀ {g : List Char}, Blank g → ∀ cs,
      stripFrom .code (g ++ cs) = g ++ stripFrom .code cs :=
    fun hg => stripFrom_append fun c hc => isSpace_ne (hg c hc)
  obtain ⟨g, hg, h⟩ := h
  induction h with
  | nil => exact hblank hg rest
  | cons hg₁ ht _ ih =>
    simp only [List.append_assoc]
    rw [hblank hg₁, stripFrom_token ht, ih hg]

theorem stripFrom_eq_self {ts : List Token} {cs : List Char} (h : Made Blank ts cs) :
    stripFrom .code cs = cs := by
  have hself := stripFrom_made h []
  rwa [List.append_nil, stripFrom_nil, List.append_nil] at hself

/-! ### Commas -/

theorem isBlank_of_isSpace {c : Char} (h : isSpace c = true) : isBlank c = true := by
  simp only [isSpace, Bool.or_eq_true, beq_iff_eq] at h
  rcases h with (((rfl | rfl) | rfl) | rfl) <;> decide

theorem toNat_of_isWordChar {c : Char} (h : Json.isWordChar c = true) :
    43 ≤ c.toNat ∧ c.toNat ≤ 122 := by
  have hletter : c.isAlpha = (decide ('A'.val ≤ c.val ∧ c.val ≤ 'Z'.val) ||
      ('a'.val ≤ c.val && c.val ≤ 'z'.val)) := rfl
  simp only [Json.isWordChar, Char.isAlphanum, hletter, Char.isDigit, Bool.or_eq_true,
    Bool.and_eq_true, decide_eq_true_eq, beq_iff_eq, UInt32.le_iff_toNat_le, ge_iff_le] at h
  have hval : c.toNat = c.val.toNat := rfl
  have hA : 'A'.val.toNat = 65 := rfl
  have hZ : 'Z'.val.toNat = 90 := rfl
  have ha : 'a'.val.toNat = 97 := rfl
  have hz : 'z'.val.toNat = 122 := rfl
  have h0 : '0'.val.toNat = 48 := rfl
  have h9 : '9'.val.toNat = 57 := rfl
  rcases h with ((h | rfl) | rfl) | rfl
  · omega
  all_goals decide

/-- No token starts with white space of any script. -/
theorem isBlank_eq_false {c : Char}
    (h : isMark c = true ∨ c = '"' ∨ Json.isWordChar c = true) : isBlank c = false := by
  rcases h with h | rfl | h
  · exact forall_isMark (p := fun c => isBlank c = false) (by decide) h
  · decide
  · obtain ⟨hlow, hhigh⟩ := toNat_of_isWordChar h
    simp only [isBlank, blankRanges, Character.Ranges.has, Bool.and_eq_false_iff,
      Bool.or_eq_false_iff, decide_eq_false_iff_not]
    omega

theorem closesNext_cons {c : Char} (h : isBlank c = false) (cs : List Char) :
    closesNext (c :: cs) = (c == '\x7d' || c == ']') := by
  rw [closesNext, List.dropWhile_cons_of_neg (by simp [h])]

theorem closesNext_blank_append {g : List Char} (hg : Blank g) (cs : List Char) :
    closesNext (g ++ cs) = closesNext cs := by
  rw [closesNext, List.dropWhile_append_of_pos fun c hc => isBlank_of_isSpace (hg c hc)]
  rfl

/-- Does the next token close an array or an object? -/
def closing (ts : List Token) : Bool :=
  ts.head?.any Token.closes

theorem closesNext_of_spells {ts : List Token} {cs g : List Char} (hg : Blank g)
    (h : Spells Blank ts cs g) : closesNext cs = closing ts := by
  cases h with
  | nil =>
    rw [← List.append_nil cs, closesNext_blank_append hg]
    rfl
  | @cons g₁ t ts cs _ hg₁ ht _ =>
    rw [closesNext_blank_append hg₁]
    cases t with
    | mark c => exact closesNext_cons (isBlank_eq_false (.inl ht)) _
    | quoted raw => exact closesNext_cons (isBlank_eq_false (.inr (.inl rfl))) _
    | word w =>
      obtain ⟨c, w, rfl⟩ := List.exists_cons_of_ne_nil ht.1
      have hc := ht.2 c (by simp)
      refine (closesNext_cons (isBlank_eq_false (.inr (.inr hc))) _).trans ?_
      have hbrace : c ≠ '\x7d' := fun heq => absurd (heq ▸ hc) (by decide)
      have hbracket : c ≠ ']' := fun heq => absurd (heq ▸ hc) (by decide)
      simp [hbrace, hbracket, closing, Token.closes]

/-- Within a string only what the string holds is looked at. -/
theorem closesNext_quote (raw cs : List Char) :
    closesNext (raw ++ '"' :: cs) = closesNext raw := by
  induction raw with
  | nil => exact closesNext_cons (isBlank_eq_false (.inr (.inl rfl))) cs
  | cons c raw ih =>
    cases hc : isBlank c with
    | true =>
      have hskip : ∀ cs, closesNext (c :: cs) = closesNext cs := fun cs => by
        rw [closesNext, List.dropWhile_cons_of_pos hc]
        rfl
      rw [List.cons_append, hskip, hskip, ih]
    | false => rw [List.cons_append, closesNext_cons hc, closesNext_cons hc]

theorem dropLastCommas_append {w : List Char} (h : ',' ∉ w) (cs : List Char) :
    dropLastCommas (w ++ cs) = w ++ dropLastCommas cs := by
  induction w with
  | nil => rfl
  | cons c w ih =>
    simp only [List.mem_cons, not_or] at h
    have hne : c ≠ ',' := fun heq => h.1 heq.symm
    simp [dropLastCommas, hne, ih h.2]

theorem dropLastCommas_quoted (raw cs : List Char) :
    dropLastCommas ('"' :: (raw ++ '"' :: cs)) =
      '"' :: (dropLastCommas raw ++ '"' :: dropLastCommas cs) := by
  have hraw : ∀ raw : List Char, dropLastCommas (raw ++ '"' :: cs) =
      dropLastCommas raw ++ '"' :: dropLastCommas cs := by
    intro raw
    induction raw with
    | nil => simp [dropLastCommas]
    | cons c raw ih =>
      rw [List.cons_append, dropLastCommas, dropLastCommas, closesNext_quote, ih]
      split <;> rfl
  simp [dropLastCommas, hraw]

/-- A string stays one without some of its commas. -/
theorem exists_body_dropLastCommas {raw s : List Char} (h : Body raw s) :
    ∃ s', Body (dropLastCommas raw) s' := by
  induction h with
  | nil => exact ⟨[], .nil⟩
  | plain hquote hback hcontrol _ ih =>
    obtain ⟨s', hbody⟩ := ih
    rw [dropLastCommas]
    split
    · exact ⟨s', hbody⟩
    · exact ⟨_, .plain hquote hback hcontrol hbody⟩
  | @escaped c e raw s he _ ih =>
    obtain ⟨s', hbody⟩ := ih
    have hcomma : ',' ∉ '\\' :: e := by simp [he.no_comma]
    refine ⟨c :: s', ?_⟩
    rw [← List.cons_append, dropLastCommas_append hcomma]
    exact .escaped he hbody

/-! ### Commas and tokens -/

/-- The token with the commas dropped that stand in front of a bracket within it. -/
def trimmed : Token → Token
  | .quoted raw => .quoted (dropLastCommas raw)
  | t => t

theorem map_trimmed_eq_self {ts : List Token}
    (h : ∀ raw, .quoted raw ∈ ts → dropLastCommas raw = raw) : ts.map trimmed = ts := by
  conv_rhs => rw [← List.map_id ts]
  refine List.map_congr_left fun t ht => ?_
  cases t with
  | mark c => rfl
  | quoted raw => exact congrArg Token.quoted (h raw ht)
  | word w => rfl

/-- The tokens without the commas in front of what closes. -/
def dropCommas : List Token → List Token
  | [] => []
  | t :: ts =>
    if t = .mark ',' ∧ closing ts = true then dropCommas ts else trimmed t :: dropCommas ts

/-- Can the token be read, if it is a string? -/
def Sound (t : Token) : Prop :=
  ∀ raw, t = .quoted raw → ∃ s, Body raw s

@[simp] theorem sound_mark (c : Char) : Sound (.mark c) := by
  rintro raw ⟨⟩

@[simp] theorem sound_word (w : List Char) : Sound (.word w) := by
  rintro raw ⟨⟩

theorem sound_quoted {raw s : List Char} (h : Body raw s) : Sound (.quoted raw) := by
  rintro raw' ⟨⟩
  exact ⟨s, h⟩

theorem proper_trimmed {t : Token} (ht : t.Proper) (hsound : Sound t) : (trimmed t).Proper := by
  cases t with
  | mark c => exact ht
  | quoted raw =>
    obtain ⟨s, hbody⟩ := hsound raw rfl
    obtain ⟨s', hbody'⟩ := exists_body_dropLastCommas hbody
    exact hbody'.closed
  | word w => exact ht

theorem not_mem_of_blank {g : List Char} (hg : Blank g) : ',' ∉ g :=
  fun h => absurd (hg _ h) (by decide)

theorem dropLastCommas_token {t : Token} (ht : t.Proper) {cs : List Char}
    (h : ¬ (t = .mark ',' ∧ closesNext cs = true)) :
    dropLastCommas (t.text ++ cs) = (trimmed t).text ++ dropLastCommas cs := by
  cases t with
  | mark c =>
    by_cases hc : c = ','
    · have hopen : closesNext cs = false := by simpa [hc] using h
      simp [Token.text, trimmed, dropLastCommas, hopen]
    · exact dropLastCommas_append (w := [c]) (by simpa using Ne.symm hc) cs
  | quoted raw =>
    simpa only [Token.text, trimmed, List.cons_append, List.append_assoc, List.nil_append] using
      dropLastCommas_quoted raw cs
  | word w => exact dropLastCommas_append (fun hmem => absurd (ht.2 _ hmem) (by decide)) cs

theorem dropCommas_ne_nil {ts : List Token} (h : closing ts = true) : dropCommas ts ≠ [] := by
  cases ts with
  | nil => simp [closing] at h
  | cons t ts =>
    have hcomma : t ≠ .mark ',' := by
      rintro rfl
      simp [closing, Token.closes] at h
    simp [dropCommas, hcomma]

/-- Commas are dropped from a text as from its tokens. -/
theorem made_dropLastCommas {ts : List Token} {cs : List Char} (h : Made Blank ts cs)
    (hsound : ∀ t ∈ ts, Sound t) : Made Blank (dropCommas ts) (dropLastCommas cs) := by
  obtain ⟨g, hg, h⟩ := h
  have hend : dropLastCommas g = g := by
    rw [← List.append_nil g, dropLastCommas_append (not_mem_of_blank hg)]
    rfl
  refine ⟨g, hg, ?_⟩
  induction h with
  | nil g =>
    rw [hend]
    exact .nil g
  | @cons g₁ t ts cs g hg₁ ht hspells ih =>
    have hrest := ih (fun u hu => hsound u (by simp [hu])) hg hend
    rw [dropLastCommas_append (not_mem_of_blank hg₁), dropCommas]
    split
    · -- the gaps on both sides of the comma become one
      rename_i hdrop
      obtain ⟨rfl, hclosing⟩ := hdrop
      have hcloses : closesNext cs = true := (closesNext_of_spells hg hspells).trans hclosing
      simp only [Token.text, List.cons_append, List.nil_append, dropLastCommas, hcloses]
      exact hrest.blank_append hg₁ (dropCommas_ne_nil hclosing)
    · rename_i hkeep
      rw [← closesNext_of_spells hg hspells] at hkeep
      rw [dropLastCommas_token ht hkeep]
      exact .cons hg₁ (proper_trimmed ht (hsound t (by simp))) hrest

/-! ### Commas behind last items -/

/-- Are the tokens got from the others by writing commas in front of closing brackets, but not
    behind opening ones? -/
inductive Trailing : List Token → List Token → Prop
  | nil : Trailing [] []
  | keep {t : Token} {ts ts' : List Token} : Trailing ts ts' → Trailing (t :: ts) (t :: ts')
  | insert {t u : Token} {ts ts' : List Token} : t.opens = false → u.closes = true →
      Trailing (u :: ts) ts' → Trailing (t :: u :: ts) (t :: .mark ',' :: ts')

theorem Trailing.refl (ts : List Token) : Trailing ts ts := by
  induction ts with
  | nil => exact .nil
  | cons t ts ih => exact .keep ih

theorem Trailing.head?_eq {ts ts' : List Token} (h : Trailing ts ts') : ts'.head? = ts.head? := by
  cases h <;> rfl

theorem Trailing.closing_eq {ts ts' : List Token} (h : Trailing ts ts') :
    closing ts' = closing ts := by
  rw [closing, h.head?_eq, closing]

/-- What was inserted is dropped again. -/
theorem Trailing.dropCommas_eq {ts ts' : List Token} (h : Trailing ts ts')
    (hfits : ts.IsChain Fits) : dropCommas ts' = ts.map trimmed := by
  induction h with
  | nil => rfl
  | @keep t ts ts' h ih =>
    have hlast : ¬ (t = .mark ',' ∧ closing ts' = true) := by
      rintro ⟨rfl, hclosing⟩
      rw [h.closing_eq] at hclosing
      cases ts with
      | nil => simp [closing] at hclosing
      | cons u ts => simp [closing, (List.isChain_cons_cons.mp hfits).1.1 rfl] at hclosing
    rw [dropCommas, if_neg hlast, ih hfits.tail, List.map_cons]
  | @insert t u ts ts' _ hu h ih =>
    have hclosing : closing ts' = true := h.closing_eq.trans hu
    rw [dropCommas, if_neg (by simp [closing, Token.closes]), dropCommas, if_pos ⟨rfl, hclosing⟩,
      ih hfits.tail]
    rfl

/-- Tokens with a comma more do not fit. -/
theorem Trailing.eq_or_not_isChain {ts ts' : List Token} (h : Trailing ts ts') :
    ts' = ts ∨ ¬ ts'.IsChain Fits := by
  induction h with
  | nil => exact .inl rfl
  | @keep t ts ts' _ ih =>
    rcases ih with rfl | hnot
    · exact .inl rfl
    · exact .inr fun hchain => hnot hchain.tail
  | @insert t u ts ts' _ hu h _ =>
    refine .inr fun hchain => ?_
    have hclosing : closing ts' = true := h.closing_eq.trans hu
    cases ts' with
    | nil => simp [closing] at hclosing
    | cons v ts' =>
      have hopen := (List.isChain_cons_cons.mp hchain.tail).1.1 rfl
      simp [closing, hopen] at hclosing

theorem Trailing.separate {ts ts' : List Token} (h : Trailing ts ts') (hts : Separate ts) :
    Separate ts' := by
  induction h with
  | nil => exact hts
  | keep h ih =>
    obtain ⟨hfirst, hrest⟩ := List.isChain_cons.mp hts
    exact List.isChain_cons.mpr ⟨h.head?_eq ▸ hfirst, ih hrest⟩
  | insert _ _ h ih =>
    have hcomma : (Token.mark ',').isWord = false := rfl
    refine List.isChain_cons.mpr ⟨?_, List.isChain_cons.mpr ⟨?_, ih hts.tail⟩⟩
    · rintro u ⟨⟩
      simp [hcomma]
    · simp [hcomma]

theorem Trailing.sound {ts ts' : List Token} (h : Trailing ts ts') (hts : ∀ t ∈ ts, Sound t) :
    ∀ t ∈ ts', Sound t := by
  induction h with
  | nil => exact hts
  | keep h ih =>
    obtain ⟨ht, hts⟩ := List.forall_mem_cons.mp hts
    exact List.forall_mem_cons.mpr ⟨ht, ih hts⟩
  | insert _ _ h ih =>
    obtain ⟨ht, hts⟩ := List.forall_mem_cons.mp hts
    exact List.forall_mem_cons.mpr ⟨ht, List.forall_mem_cons.mpr ⟨sound_mark ',', ih hts⟩⟩

end SourceWeb.Alias
