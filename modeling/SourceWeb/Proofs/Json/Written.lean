/-
  What is written of a value is a document of the value.

  The tokens of a document denote a value, with its members in the order in which they are written
  and with numbers of any size.  Both ways of writing a value, compact and with one member a line,
  spell tokens that denote it, and nothing stands behind the last of them.  All that is asked of the
  value is that its numbers are spelled as such.
-/
import Mathlib.Data.List.Forall2
import SourceWeb.Proofs.Json.Number
import SourceWeb.Proofs.Json.Quoted

namespace SourceWeb.Json

open SourceWeb.Text

/-! ### Documents -/

def IsNumber (w : List Char) : Prop :=
  ∃ n, Numeral.read Numeral.plainRun (unsigned w) = some (n, [])

mutual

/-- Do the tokens denote the value? -/
inductive Denotes : Json → List Token → Prop
  | null : Denotes .null [.word ['n', 'u', 'l', 'l']]
  | yes : Denotes (.bool true) [.word ['t', 'r', 'u', 'e']]
  | no : Denotes (.bool false) [.word ['f', 'a', 'l', 's', 'e']]
  | num {text : String} : IsNumber text.toList → Denotes (.num text) [.word text.toList]
  | str {raw : List Char} {s : String} : Body raw s.toList → Denotes (.str s) [.quoted raw]
  | arr {items : List Json} {pieces : List (List Token)} : DenotesItems items pieces →
      Denotes (.arr items) (.mark '[' :: ([.mark ','].intercalate pieces ++ [.mark ']']))
  | obj {members : List (String × Json)} {pieces : List (List Token)} :
      DenotesMembers members pieces →
      Denotes (.obj members) (.mark '\x7b' :: ([.mark ','].intercalate pieces ++ [.mark '\x7d']))

/-- Do the token lists denote the items of an array? -/
inductive DenotesItems : List Json → List (List Token) → Prop
  | nil : DenotesItems [] []
  | cons {v : Json} {vs : List Json} {ts : List Token} {pieces : List (List Token)} :
      Denotes v ts → DenotesItems vs pieces → DenotesItems (v :: vs) (ts :: pieces)

/-- Do the token lists denote the members of an object? -/
inductive DenotesMembers : List (String × Json) → List (List Token) → Prop
  | nil : DenotesMembers [] []
  | cons {key : String} {raw : List Char} {v : Json} {ms : List (String × Json)} {ts : List Token}
      {pieces : List (List Token)} : Body raw key.toList → Denotes v ts →
      DenotesMembers ms pieces →
      DenotesMembers ((key, v) :: ms) ((.quoted raw :: .mark ':' :: ts) :: pieces)

end

/-- Does the text spell tokens that denote the value, with nothing behind them? -/
def Says (cs : List Char) (v : Json) : Prop :=
  ∃ ts, Denotes v ts ∧ Spells Blank ts cs []

/-- Is the text a document of the value? -/
def IsDocument (text : String) (v : Json) : Prop :=
  Says text.toList v

theorem Denotes.ne_nil {v : Json} {ts : List Token} (h : Denotes v ts) : ts ≠ [] := by
  cases h <;> simp

/-! ### Spelling in pieces -/

variable {ts us : List Token} {cs cs' mid : List Char}

theorem Spells.append_right (h : Spells Blank ts cs mid) (more : List Char) :
    Spells Blank ts (cs ++ more) (mid ++ more) := by
  induction h with
  | nil rest => exact .nil _
  | cons hg ht _ ih =>
    rw [List.append_assoc, List.append_assoc]
    exact .cons hg ht ih

theorem Spells.concat (h : Spells Blank ts cs []) (h' : Spells Blank us cs' []) :
    Spells Blank (ts ++ us) (cs ++ cs') [] :=
  (h.append_right cs').append h'

theorem spells_token {t : Token} (ht : t.Proper) : Spells Blank [t] t.text [] := by
  have h : Spells Blank [t] ([] ++ (t.text ++ [])) [] :=
    .cons (fun _ hc => absurd hc List.not_mem_nil) ht (.nil [])
  rwa [List.nil_append, List.append_nil] at h

theorem spells_intercalate {pieces : List (List Token)} {texts : List (List Char)}
    (h : List.Forall₂ (fun ts cs => Spells Blank ts cs []) pieces texts) :
    Spells Blank ([.mark ','].intercalate pieces) ([','].intercalate texts) [] := by
  have hcomma : Spells Blank [.mark ','] [','] [] := spells_token (t := .mark ',') rfl
  induction h with
  | nil => exact .nil []
  | cons hhead htail ih =>
    cases htail with
    | nil => simpa using hhead
    | cons =>
      rw [List.intercalate_cons_cons, List.intercalate_cons_cons]
      exact (hhead.concat hcomma).concat ih

theorem Token.isSpace_last {t : Token} (h : t.Proper) :
    ∃ c, t.text.getLast? = some c ∧ isSpace c = false := by
  cases t with
  | mark c => exact ⟨c, rfl, isSpace_eq_false_of_isMark h⟩
  | quoted raw => exact ⟨'"', List.getLast?_concat (l := '"' :: raw), by decide⟩
  | word w =>
    obtain ⟨w, c, rfl⟩ := (List.eq_nil_or_concat' w).resolve_left h.1
    refine ⟨c, List.getLast?_concat, ?_⟩
    rw [← Bool.not_eq_true]
    intro hspace
    have hword := h.2 c (by simp)
    simp [isWordChar_eq_false_of_isSpace hspace] at hword

/-- A text with nothing behind its last token does not end in white space. -/
theorem Spells.isSpace_last (h : Spells Blank ts cs []) (hne : ts ≠ []) :
    ∃ c, cs.getLast? = some c ∧ isSpace c = false := by
  generalize hrest : ([] : List Char) = rest at h
  induction h with
  | nil => exact absurd rfl hne
  | @cons g t ts cs rest _ ht htail ih =>
    subst hrest
    cases ts with
    | nil =>
      cases htail
      obtain ⟨c, hc, hspace⟩ := Token.isSpace_last ht
      exact ⟨c, by simp [hc], hspace⟩
    | cons u ts =>
      obtain ⟨c, hc, hspace⟩ := ih (by simp) rfl
      exact ⟨c, by simp [hc], hspace⟩

/-! ### Texts of values -/

theorem escapes_control {c : Char} (h : c.toNat < 32) :
    Escapes ['u', '0', '0', hexDigit (c.toNat / 16), hexDigit (c.toNat % 16)] c := by
  have hdigits : ∀ n < 32, fixedNumber 16 4 ['0', '0', hexDigit (n / 16), hexDigit (n % 16)] =
      some (n, []) := by decide
  have hread : unicodeEscape ['0', '0', hexDigit (c.toNat / 16), hexDigit (c.toNat % 16)] =
      some (c, []) := by
    rw [unicodeEscape, hdigits _ h]
    have hlow : ¬ (0xDC00 ≤ c.toNat ∧ c.toNat ≤ 0xDFFF) := by omega
    have hhigh : ¬ (0xD800 ≤ c.toNat ∧ c.toNat ≤ 0xDBFF) := by omega
    simp [hlow, hhigh]
  obtain ⟨e, he, hescapes, -⟩ := exists_escapes_of_unicode hread
  rw [List.append_nil] at he
  exact he ▸ hescapes

theorem Body.escapeChar (c : Char) {raw s : List Char} (h : Body raw s) :
    Body (Json.escapeChar c ++ raw) (c :: s) := by
  rw [Json.escapeChar]
  split_ifs with hquote hback hfeed hreturn htab hbackspace hform hcontrol
  · subst hquote
    exact .escaped (escapes_singleton (by decide) fun _ => rfl) h
  · subst hback
    exact .escaped (escapes_singleton (by decide) fun _ => rfl) h
  · subst hfeed
    exact .escaped (escapes_singleton (by decide) fun _ => rfl) h
  · subst hreturn
    exact .escaped (escapes_singleton (by decide) fun _ => rfl) h
  · subst htab
    exact .escaped (escapes_singleton (by decide) fun _ => rfl) h
  · rw [eq_ofNat_of_toNat hbackspace]
    exact .escaped (escapes_singleton (by decide) fun _ => rfl) h
  · rw [eq_ofNat_of_toNat hform]
    exact .escaped (escapes_singleton (by decide) fun _ => rfl) h
  · exact .escaped (escapes_control hcontrol) h
  · exact .plain hquote hback hcontrol h

theorem body_flatMap_escapeChar (s : List Char) : Body (s.flatMap escapeChar) s := by
  induction s with
  | nil => exact .nil
  | cons c s ih =>
    rw [List.flatMap_cons]
    exact ih.escapeChar c

theorem spells_quote (s : String) :
    Spells Blank [.quoted (s.toList.flatMap escapeChar)] (quote s) [] :=
  spells_token (t := .quoted _) (body_flatMap_escapeChar s.toList).closed

/-! ### Values -/

/-- Are the numbers in the value spelled as such? -/
inductive Spelled : Json → Prop
  | null : Spelled .null
  | bool (b : Bool) : Spelled (.bool b)
  | num {text : String} : IsNumber text.toList → Spelled (.num text)
  | str (s : String) : Spelled (.str s)
  | arr {items : List Json} : (∀ v ∈ items, Spelled v) → Spelled (.arr items)
  | obj {members : List (String × Json)} : (∀ m ∈ members, Spelled m.2) → Spelled (.obj members)

theorem head?_toDigits {n : Nat} (h : 0 < n) : (Nat.toDigits 10 n).head? ≠ some '0' := by
  induction n using Nat.strongRecOn with
  | _ n ih =>
    by_cases hlt : n < 10
    · rw [Nat.toDigits_of_lt_base hlt]
      have hdigit : ∀ k < 10, 0 < k → [Nat.digitChar k].head? ≠ some '0' := by decide
      exact hdigit n hlt h
    · rw [Nat.toDigits_of_base_le (by decide) (Nat.not_lt.mp hlt),
        List.head?_append_of_ne_nil _ Nat.toDigits_ne_nil]
      exact ih (n / 10) (by omega) (by omega)

/-- Natural numbers are spelled as numbers: with digits only, and with no idle zero. -/
theorem isNumber_nat (n : Nat) : IsNumber (toString n).toList := by
  have hdigits : ∀ c ∈ Nat.toDigits 10 n, c.isDigit = true := fun c hc =>
    Nat.isDigit_of_mem_toDigits (by decide) (by decide) hc
  rw [Nat.toString_eq_ofList_toDigits, String.toList_ofList, IsNumber]
  rcases Nat.eq_zero_or_pos n with rfl | hpos
  · exact ⟨⟨['0'], none, none⟩, rfl⟩
  · have hhead := head?_toDigits hpos
    generalize hds : Nat.toDigits 10 n = ds at hdigits hhead
    cases ds with
    | nil => exact absurd hds Nat.toDigits_ne_nil
    | cons d ds =>
      have hzero : d ≠ '0' := by simpa using hhead
      have hminus : d ≠ '-' := by
        rintro rfl
        exact absurd (hdigits '-' (by simp)) (by decide)
      refine ⟨⟨d :: ds, none, none⟩, ?_⟩
      have hrun : Numeral.plainRun (d :: ds) = some (d :: ds, []) := by
        rw [Numeral.plainRun, List.takeWhile_eq_self_iff.mpr hdigits,
          List.dropWhile_eq_nil_iff.mpr hdigits]
        rfl
      simp [unsigned, hminus, Numeral.read, Numeral.readWhole, hzero, hrun, Numeral.readFraction,
        Numeral.readExponent]

@[simp]
theorem spelled_nat (n : Nat) : Spelled (.nat n) :=
  .num (isNumber_nat n)

@[simp]
theorem spelled_bool (b : Bool) : Spelled (.bool b) :=
  .bool b

@[simp]
theorem spelled_str (s : String) : Spelled (.str s) :=
  .str s

@[simp]
theorem spelled_optionalStr (s : Option String) : Spelled (.optionalStr s) := by
  cases s with
  | none => exact .null
  | some s => exact .str s

@[simp]
theorem spelled_arr {items : List Json} : Spelled (.arr items) ↔ ∀ v ∈ items, Spelled v :=
  ⟨fun h => by cases h with | arr h => exact h, .arr⟩

@[simp]
theorem spelled_obj {members : List (String × Json)} :
    Spelled (.obj members) ↔ ∀ m ∈ members, Spelled m.2 :=
  ⟨fun h => by cases h with | obj h => exact h, .obj⟩

theorem isNumber_ne_nil {w : List Char} (h : IsNumber w) : w ≠ [] := by
  rintro rfl
  obtain ⟨n, hn⟩ := h
  simp [unsigned, Numeral.read, Numeral.readWhole, Numeral.plainRun] at hn

theorem spells_number {w : List Char} (h : IsNumber w) : Spells Blank [.word w] w [] := by
  refine spells_token (t := .word w) ⟨isNumber_ne_nil h, ?_⟩
  obtain ⟨n, hn⟩ := h
  obtain ⟨sign, hsign, hsignWord⟩ := exists_unsigned w
  obtain ⟨w', hw', hword⟩ := (worded_read worded_plainRun).takes hn
  rw [hsign, hw', List.append_nil]
  exact List.forall_mem_append.mpr ⟨hsignWord, hword⟩

theorem says_name {v : Json} {w : List Char} (h : Denotes v [.word w])
    (hw : (Token.word w).Proper) : Says w v :=
  ⟨_, h, spells_token hw⟩

theorem says_bool (b : Bool) : Says (if b then "true" else "false").toList (.bool b) := by
  cases b with
  | true => exact says_name .yes ⟨by simp, List.all_eq_true.mp (by decide)⟩
  | false => exact says_name .no ⟨by simp, List.all_eq_true.mp (by decide)⟩

theorem says_null : Says "null".toList .null :=
  says_name .null ⟨by simp, List.all_eq_true.mp (by decide)⟩

theorem says_num {text : String} (h : IsNumber text.toList) : Says text.toList (.num text) :=
  ⟨_, .num h, spells_number h⟩

theorem says_str (s : String) : Says (quote s) (.str s) :=
  ⟨_, .str (body_flatMap_escapeChar s.toList), spells_quote s⟩

/-! ### How documents start and end -/

def startsValue (c : Char) : Bool :=
  ['[', '\x7b', '"', 't', 'f', 'n', '-'].contains c || c.isDigit

theorem startsValue_of_isNumber {c : Char} {w : List Char} (h : IsNumber (c :: w)) :
    startsValue c = true := by
  by_contra hnot
  simp only [startsValue, Bool.or_eq_true, not_or] at hnot
  obtain ⟨hmarks, hdigit⟩ := hnot
  have hminus : c ≠ '-' := by
    rintro rfl
    exact hmarks (by decide)
  have hzero : c ≠ '0' := by
    rintro rfl
    exact hdigit (by decide)
  obtain ⟨n, hn⟩ := h
  simp [unsigned, hminus, Numeral.read, Numeral.readWhole, hzero, Numeral.plainRun, hdigit] at hn

theorem Denotes.head {v : Json} {ts : List Token} (h : Denotes v ts) :
    ∃ t us c more, ts = t :: us ∧ t.text = c :: more ∧ startsValue c = true := by
  cases h with
  | null | yes | no => exact ⟨_, [], _, _, rfl, rfl, rfl⟩
  | str _ => exact ⟨_, [], _, _, rfl, rfl, rfl⟩
  | @num text htext =>
    obtain ⟨c, w, hw⟩ := List.exists_cons_of_ne_nil (isNumber_ne_nil htext)
    exact ⟨_, [], c, w, rfl, hw, startsValue_of_isNumber (hw ▸ htext)⟩
  | arr _ | obj _ => exact ⟨_, _, _, [], rfl, rfl, rfl⟩

/-- Behind white space a document starts as values do. -/
theorem Says.head {cs : List Char} {v : Json} (h : Says cs v) :
    ∃ c rest, skipSpace cs = c :: rest ∧ startsValue c = true := by
  obtain ⟨ts, hdenotes, hspells⟩ := h
  obtain ⟨t, us, c, more, rfl, htext, hc⟩ := hdenotes.head
  obtain ⟨rest, hrest, -, -⟩ := hspells.skipSpace
  exact ⟨c, more ++ rest, by rw [hrest, htext, List.cons_append], hc⟩

theorem Says.isSpace_last {cs : List Char} {v : Json} (h : Says cs v) :
    ∃ c, cs.getLast? = some c ∧ isSpace c = false := by
  obtain ⟨ts, hdenotes, hspells⟩ := h
  exact hspells.isSpace_last hdenotes.ne_nil

/-! ### Lists of values -/

/-- The texts of items, with blanks in front of each. -/
theorem exists_items {write : Json → List Char} {g : List Char} (hg : Blank g) {vs : List Json}
    (h : ∀ v ∈ vs, Says (write v) v) :
    ∃ pieces, DenotesItems vs pieces ∧ List.Forall₂ (fun ts cs => Spells Blank ts cs []) pieces
      (vs.map fun v => g ++ write v) := by
  induction vs with
  | nil => exact ⟨[], .nil, .nil⟩
  | cons v vs ih =>
    obtain ⟨hv, hvs⟩ := List.forall_mem_cons.mp h
    obtain ⟨ts, hdenotes, hspells⟩ := hv
    obtain ⟨pieces, hpieces, htexts⟩ := ih hvs
    exact ⟨ts :: pieces, .cons hdenotes hpieces,
      .cons (hspells.blank_append hg hdenotes.ne_nil) htexts⟩

/-- The texts of members, with blanks in front of each key and each value. -/
theorem exists_members {write : Json → List Char} {g g' : List Char} (hg : Blank g)
    (hg' : Blank g') {ms : List (String × Json)} (h : ∀ m ∈ ms, Says (write m.2) m.2) :
    ∃ pieces, DenotesMembers ms pieces ∧ List.Forall₂ (fun ts cs => Spells Blank ts cs []) pieces
      (ms.map fun m => g ++ quote m.1 ++ ':' :: (g' ++ write m.2)) := by
  have hcolon : Spells Blank [.mark ':'] [':'] [] := spells_token (t := .mark ':') rfl
  induction ms with
  | nil => exact ⟨[], .nil, .nil⟩
  | cons m ms ih =>
    obtain ⟨hm, hms⟩ := List.forall_mem_cons.mp h
    obtain ⟨ts, hdenotes, hspells⟩ := hm
    obtain ⟨pieces, hpieces, htexts⟩ := ih hms
    have hkey := (spells_quote m.1).blank_append hg (by simp)
    have hvalue := hcolon.concat (hspells.blank_append hg' hdenotes.ne_nil)
    exact ⟨_, .cons (body_flatMap_escapeChar m.1.toList) hdenotes hpieces,
      .cons (hkey.concat hvalue) htexts⟩

theorem spells_between {opening closing : Char} (hopen : isMark opening = true)
    (hclose : isMark closing = true) {g : List Char} (hg : Blank g) (h : Spells Blank ts cs []) :
    Spells Blank (.mark opening :: (ts ++ [.mark closing])) (opening :: cs ++ g ++ [closing])
      [] := by
  have hfirst : Spells Blank [.mark opening] [opening] [] := spells_token (t := .mark opening) hopen
  have hlast : Spells Blank [.mark closing] [closing] [] := spells_token (t := .mark closing) hclose
  have hall := (hfirst.concat h).concat (hlast.blank_append hg (by simp))
  simpa using hall

theorem says_arr {write : Json → List Char} {g g' : List Char} (hg : Blank g) (hg' : Blank g')
    {vs : List Json} (h : ∀ v ∈ vs, Says (write v) v) :
    Says ('[' :: [','].intercalate (vs.map fun v => g ++ write v) ++ g' ++ [']']) (.arr vs) := by
  obtain ⟨pieces, hpieces, htexts⟩ := exists_items hg h
  exact ⟨_, .arr hpieces, spells_between rfl rfl hg' (spells_intercalate htexts)⟩

theorem says_obj {write : Json → List Char} {g g' g'' : List Char} (hg : Blank g)
    (hg' : Blank g') (hg'' : Blank g'') {ms : List (String × Json)}
    (h : ∀ m ∈ ms, Says (write m.2) m.2) :
    Says ('\x7b' ::
      [','].intercalate (ms.map fun m => g ++ quote m.1 ++ ':' :: (g' ++ write m.2)) ++ g'' ++
        ['\x7d']) (.obj ms) := by
  obtain ⟨pieces, hpieces, htexts⟩ := exists_members hg hg' h
  exact ⟨_, .obj hpieces, spells_between rfl rfl hg'' (spells_intercalate htexts)⟩

/-! ### Both ways of writing -/

theorem eq_intercalate {α : Type} {f : List α → List Char} {g : α → List Char} (hnil : f [] = [])
    (hone : ∀ a, f [a] = g a) (hcons : ∀ a b l, f (a :: b :: l) = g a ++ ',' :: f (b :: l))
    (l : List α) : f l = [','].intercalate (l.map g) := by
  induction l with
  | nil => exact hnil
  | cons a l ih =>
    cases l with
    | nil => simp [hone]
    | cons b l =>
      rw [hcons, ih, List.map_cons, List.map_cons, List.map_cons, List.intercalate_cons_cons]
      simp

theorem compactItems_eq (vs : List Json) :
    compactItems vs = [','].intercalate (vs.map compactChars) :=
  eq_intercalate rfl (fun _ => rfl) (fun _ _ _ => rfl) vs

theorem compactMembers_eq (ms : List (String × Json)) :
    compactMembers ms =
      [','].intercalate (ms.map fun m => quote m.1 ++ ':' :: compactChars m.2) :=
  eq_intercalate rfl (fun _ => rfl) (fun _ _ _ => rfl) ms

theorem prettyItems_eq (depth : Nat) (vs : List Json) :
    prettyItems depth vs =
      [','].intercalate (vs.map fun v => newline depth ++ prettyChars depth v) :=
  eq_intercalate rfl (fun _ => rfl) (fun _ _ _ => rfl) vs

theorem prettyMembers_eq (depth : Nat) (ms : List (String × Json)) :
    prettyMembers depth ms = [','].intercalate (ms.map fun m =>
      newline depth ++ quote m.1 ++ ':' :: ([' '] ++ prettyChars depth m.2)) :=
  eq_intercalate rfl (fun _ => rfl) (fun _ _ _ => by simp [prettyMembers]) ms

theorem blank_nil : Blank [] := by
  simp [Blank]

theorem blank_newline (depth : Nat) : Blank (newline depth) := by
  intro c hc
  rcases List.mem_cons.mp hc with rfl | hc
  · rfl
  · rw [List.eq_of_mem_replicate hc]
    rfl

theorem Spelled.says_compact {v : Json} (h : Spelled v) : Says (compactChars v) v := by
  induction h with
  | null => exact says_null
  | bool b => exact says_bool b
  | num htext => exact says_num htext
  | str s => exact says_str s
  | arr _ ih => simpa [compactChars, compactItems_eq] using says_arr blank_nil blank_nil ih
  | obj _ ih =>
    simpa [compactChars, compactMembers_eq] using says_obj blank_nil blank_nil blank_nil ih

theorem Spelled.says_pretty {v : Json} (h : Spelled v) (depth : Nat) :
    Says (prettyChars depth v) v := by
  have hspace : Blank [' '] := List.forall_mem_singleton.mpr rfl
  induction h generalizing depth with
  | null => exact says_null
  | bool b => exact says_bool b
  | num htext => exact says_num htext
  | str s => exact says_str s
  | @arr items _ ih =>
    cases items with
    | nil => exact ⟨_, .arr .nil, spells_between rfl rfl blank_nil (.nil [])⟩
    | cons v vs =>
      have hinner := says_arr (blank_newline (depth + 1)) (blank_newline depth)
        fun w hw => ih w hw (depth + 1)
      simpa [prettyChars, prettyItems_eq] using hinner
  | @obj members _ ih =>
    cases members with
    | nil => exact ⟨_, .obj .nil, spells_between rfl rfl blank_nil (.nil [])⟩
    | cons m ms =>
      have hinner := says_obj (blank_newline (depth + 1)) hspace (blank_newline depth)
        fun w hw => ih w hw (depth + 1)
      simpa [prettyChars, prettyMembers_eq] using hinner

/-- What is written of a value is a document of it. -/
theorem Spelled.isDocument {v : Json} (h : Spelled v) (pretty : Bool) :
    IsDocument (if pretty then v.pretty else v.compact) v := by
  cases pretty with
  | false => simpa [IsDocument, compact] using h.says_compact
  | true => simpa [IsDocument, Json.pretty] using h.says_pretty 0

end SourceWeb.Json
