/-
  The grammar of JSON over tokens, and the reader that goes by it.

  The reader accepts a text exactly if the text is made of white space and tokens that the grammar
  derives a value from, and then gives that value.  So what a text says depends on its tokens only.
  No token list of a value has two words in a row, nor a comma in front of a closing bracket.
-/
import SourceWeb.Proofs.Json.Number
import SourceWeb.Proofs.Json.Quoted

namespace SourceWeb.Json

/-! ### The grammar -/

/-- What token lists are derived from: a value, the items of an array, and the members of an object
    together with those that were read before. -/
inductive Form
  | value (v : Json)
  | items (vs : List Json)
  | members (read ms : List (String × Json))

/-- The token lists of a form, in which `depth` more arrays and objects may nest. -/
inductive Reads : Nat → Form → List Token → Prop
  | quoted {depth : Nat} {raw s : List Char} : Body raw s →
      Reads depth (.value (.str (String.ofList s))) [.quoted raw]
  | yes {depth : Nat} : Reads depth (.value (.bool true)) [.word ['t', 'r', 'u', 'e']]
  | no {depth : Nat} : Reads depth (.value (.bool false)) [.word ['f', 'a', 'l', 's', 'e']]
  | null {depth : Nat} : Reads depth (.value .null) [.word ['n', 'u', 'l', 'l']]
  | number {depth : Nat} {w : List Char} {s : String} : Json.number w = some (s, []) →
      Reads depth (.value (.num s)) [.word w]
  | emptyArray {depth : Nat} : Reads (depth + 1) (.value (.arr [])) [.mark '[', .mark ']']
  | array {depth : Nat} {vs : List Json} {ts : List Token} : Reads depth (.items vs) ts →
      Reads (depth + 1) (.value (.arr vs)) (.mark '[' :: (ts ++ [.mark ']']))
  | emptyObject {depth : Nat} :
      Reads (depth + 1) (.value (.obj [])) [.mark '\x7b', .mark '\x7d']
  | object {depth : Nat} {ms : List (String × Json)} {ts : List Token} :
      Reads depth (.members [] ms) ts →
      Reads (depth + 1) (.value (.obj ms)) (.mark '\x7b' :: (ts ++ [.mark '\x7d']))
  | lastItem {depth : Nat} {v : Json} {ts : List Token} : Reads depth (.value v) ts →
      Reads depth (.items [v]) ts
  | item {depth : Nat} {v : Json} {vs : List Json} {ts us : List Token} :
      Reads depth (.value v) ts → Reads depth (.items vs) us →
      Reads depth (.items (v :: vs)) (ts ++ .mark ',' :: us)
  | lastMember {depth : Nat} {read : List (String × Json)} {raw key : List Char} {v : Json}
      {ts : List Token} : Body raw key → Reads depth (.value v) ts →
      Reads depth (.members read (putMember (String.ofList key) v read))
        (.quoted raw :: .mark ':' :: ts)
  | member {depth : Nat} {read ms : List (String × Json)} {raw key : List Char} {v : Json}
      {ts us : List Token} : Body raw key → Reads depth (.value v) ts →
      Reads depth (.members (putMember (String.ofList key) v read) ms) us →
      Reads depth (.members read ms) (.quoted raw :: .mark ':' :: (ts ++ .mark ',' :: us))

/-! ### What the reader accepts is derived -/

theorem ends_of_skipSpace {cs cs' : List Char} {c : Char} (hc : isWordChar c = false)
    (h : skipSpace cs = c :: cs') : Ends cs := by
  obtain ⟨g, hg, hcs⟩ := exists_skipSpace cs
  rw [hcs, h]
  refine ends_blank_append hg fun d hd => ?_
  cases hd
  exact hc

/-- Is every value that is read with so much fuel derived, if no word goes on behind it? -/
def ValueSound (fuel : Nat) : Prop :=
  ∀ {depth cs v rest}, value fuel depth cs = some (v, rest) → Ends rest →
    ∃ ts, Reads depth (.value v) ts ∧ Spells Blank ts cs rest

def ItemsSound (fuel : Nat) : Prop :=
  ∀ {depth read cs v rest}, items fuel depth read cs = some (v, rest) →
    ∃ vs ts, v = .arr (read.reverse ++ vs) ∧ Reads depth (.items vs) ts ∧
      Spells Blank (ts ++ [.mark ']']) cs rest

def MembersSound (fuel : Nat) : Prop :=
  ∀ {depth read cs v rest}, members fuel depth read cs = some (v, rest) →
    ∃ ms ts, v = .obj ms ∧ Reads depth (.members read ms) ts ∧
      Spells Blank (ts ++ [.mark '\x7d']) cs rest

theorem ValueSound.succ {fuel : Nat} (hitems : ItemsSound fuel) (hmembers : MembersSound fuel) :
    ValueSound (fuel + 1) := by
  intro depth cs v rest h hrest
  rw [value.eq_def] at h
  dsimp only at h
  split at h
  · -- a string
    rename_i cs' hcs
    obtain ⟨⟨s, rest⟩, hs, heq⟩ := Option.map_eq_some_iff.mp h
    cases heq
    obtain ⟨raw, s, rfl, hbody, rfl⟩ := exists_body_of_string hs
    exact ⟨_, .quoted hbody, spells_quoted hbody.closed hcs⟩
  · -- an array
    rename_i cs' hcs
    split at h
    · simp at h
    have hopen := spells_mark (by decide) hcs
    split at h
    · rename_i hclose
      cases h
      exact ⟨_, .emptyArray, hopen.append (spells_mark (by decide) hclose)⟩
    · obtain ⟨vs, ts, rfl, hreads, hspells⟩ := hitems h
      exact ⟨_, .array hreads, hopen.append (hspells.of_skipSpace (by simp))⟩
  · -- an object
    rename_i cs' hcs
    split at h
    · simp at h
    have hopen := spells_mark (by decide) hcs
    split at h
    · rename_i hclose
      cases h
      exact ⟨_, .emptyObject, hopen.append (spells_mark (by decide) hclose)⟩
    · obtain ⟨ms, ts, rfl, hreads, hspells⟩ := hmembers h
      exact ⟨_, .object hreads, hopen.append (hspells.of_skipSpace (by simp))⟩
  · rename_i hcs
    cases h
    exact ⟨_, .yes, spells_of_skipSpace _ ⟨by simp, List.all_eq_true.mp (by decide)⟩ hcs⟩
  · rename_i hcs
    cases h
    exact ⟨_, .no, spells_of_skipSpace _ ⟨by simp, List.all_eq_true.mp (by decide)⟩ hcs⟩
  · rename_i hcs
    cases h
    exact ⟨_, .null, spells_of_skipSpace _ ⟨by simp, List.all_eq_true.mp (by decide)⟩ hcs⟩
  · -- a number, which ends where it was read to
    obtain ⟨⟨s, rest⟩, hs, heq⟩ := Option.map_eq_some_iff.mp h
    cases heq
    obtain ⟨w, hw, hnumber, hne, hword⟩ := exists_word_of_number hs hrest
    exact ⟨_, .number hnumber, spells_of_skipSpace (.word w) ⟨hne, hword⟩ hw⟩

theorem ItemsSound.succ {fuel : Nat} (hvalue : ValueSound fuel) (hitems : ItemsSound fuel) :
    ItemsSound (fuel + 1) := by
  intro depth read cs v rest h
  rw [items.eq_def] at h
  dsimp only at h
  split at h
  · rename_i v' mid hv
    split at h
    · rename_i hcomma
      obtain ⟨ts, hts, hspells⟩ := hvalue hv (ends_of_skipSpace (by decide) hcomma)
      obtain ⟨vs, us, rfl, hus, hrest⟩ := hitems h
      refine ⟨v' :: vs, _, by simp, .item hts hus, ?_⟩
      rw [List.append_assoc]
      exact hspells.append ((spells_mark (by decide) hcomma).append hrest)
    · rename_i hclose
      cases h
      obtain ⟨ts, hts, hspells⟩ := hvalue hv (ends_of_skipSpace (by decide) hclose)
      exact ⟨[v'], ts, by simp, .lastItem hts,
        hspells.append (spells_mark (by decide) hclose)⟩
    · simp at h
  · simp at h

theorem MembersSound.succ {fuel : Nat} (hvalue : ValueSound fuel) (hmembers : MembersSound fuel) :
    MembersSound (fuel + 1) := by
  intro depth read cs v rest h
  rw [members.eq_def] at h
  dsimp only at h
  split at h
  case h_2 => simp at h
  rename_i hquote
  split at h
  case h_2 => simp at h
  rename_i hkey
  split at h
  case h_2 => simp at h
  rename_i hcolon
  split at h
  case h_2 => simp at h
  rename_i v' mid hv
  obtain ⟨raw, key, rfl, hbody, rfl⟩ := exists_body_of_string hkey
  have hstart := (spells_quoted hbody.closed hquote).append (spells_mark (by decide) hcolon)
  split at h
  · rename_i hcomma
    obtain ⟨ts, hts, hspells⟩ := hvalue hv (ends_of_skipSpace (by decide) hcomma)
    obtain ⟨ms, us, rfl, hus, hrest⟩ := hmembers h
    refine ⟨ms, _, rfl, .member hbody hts hus, ?_⟩
    have hspells := hstart.append
      (hspells.append ((spells_mark (by decide) hcomma).append hrest))
    simpa using hspells
  · rename_i hclose
    cases h
    obtain ⟨ts, hts, hspells⟩ := hvalue hv (ends_of_skipSpace (by decide) hclose)
    refine ⟨_, _, rfl, .lastMember hbody hts, ?_⟩
    exact hstart.append (hspells.append (spells_mark (by decide) hclose))
  · simp at h

theorem sound (fuel : Nat) : ValueSound fuel ∧ ItemsSound fuel ∧ MembersSound fuel := by
  -- for the three at once, since each reader calls the others with less fuel
  induction fuel with
  | zero => exact ⟨by simp [ValueSound, value], by simp [ItemsSound, items],
      by simp [MembersSound, members]⟩
  | succ fuel ih =>
    obtain ⟨hvalue, hitems, hmembers⟩ := ih
    exact ⟨ValueSound.succ hitems hmembers, ItemsSound.succ hvalue hitems,
      MembersSound.succ hvalue hmembers⟩

/-! ### How the tokens of a value stand together -/

/-- May the second token stand behind the first one? -/
def Fits (t u : Token) : Prop :=
  (t = .mark ',' → u.closes = false) ∧ ¬ (t.isWord = true ∧ u.isWord = true)

/-- Tokens that fit, the first of which closes nothing and the last of which is no comma. -/
structure Fitting (ts : List Token) : Prop where
  chain : ts.IsChain Fits
  head : ∃ t ∈ ts.head?, t.closes = false
  last : ∀ t ∈ ts.getLast?, t ≠ .mark ','

theorem Fitting.ne_nil {ts : List Token} (h : Fitting ts) : ts ≠ [] := by
  rintro rfl
  obtain ⟨t, ht, -⟩ := h.head
  simp at ht

theorem fitting_singleton {t : Token} (hclose : t.closes = false) (hcomma : t ≠ .mark ',') :
    Fitting [t] where
  chain := .singleton t
  head := ⟨t, rfl, hclose⟩
  last := by simpa using hcomma

/-- Tokens that fit may stand behind a mark that is no comma and closes nothing. -/
theorem Fitting.cons {ts : List Token} (h : Fitting ts) {t : Token} (hclose : t.closes = false)
    (hcomma : t ≠ .mark ',') (hword : t.isWord = false) : Fitting (t :: ts) where
  chain := by
    obtain ⟨u, ts, rfl⟩ := List.exists_cons_of_ne_nil h.ne_nil
    exact .cons_cons ⟨fun heq => absurd heq hcomma, by simp [hword]⟩ h.chain
  head := ⟨t, rfl, hclose⟩
  last := by
    rw [List.getLast?_cons_of_ne_nil h.ne_nil]
    exact h.last

theorem Fitting.append_comma {ts us : List Token} (h : Fitting ts) (h' : Fitting us) :
    Fitting (ts ++ .mark ',' :: us) where
  chain := by
    obtain ⟨u, us, rfl⟩ := List.exists_cons_of_ne_nil h'.ne_nil
    have hclose : u.closes = false := by simpa using h'.head
    refine List.isChain_append.mpr ⟨h.chain, ?_, ?_⟩
    · exact .cons_cons ⟨fun _ => hclose, by simp [Token.isWord]⟩ h'.chain
    · rintro t - u ⟨⟩
      exact ⟨fun _ => rfl, by simp [Token.isWord]⟩
  head := by
    obtain ⟨t, ts, rfl⟩ := List.exists_cons_of_ne_nil h.ne_nil
    exact h.head
  last := by
    rw [List.getLast?_append_of_ne_nil _ (by simp), List.getLast?_cons_of_ne_nil h'.ne_nil]
    exact h'.last

theorem Fitting.append_closing {ts : List Token} (h : Fitting ts) {c : Char}
    (hcomma : c ≠ ',') : Fitting (ts ++ [.mark c]) where
  chain := by
    refine List.isChain_append.mpr ⟨h.chain, .singleton _, ?_⟩
    rintro t ht u ⟨⟩
    exact ⟨fun heq => absurd heq (h.last t ht), by simp [Token.isWord]⟩
  head := by
    obtain ⟨t, ts, rfl⟩ := List.exists_cons_of_ne_nil h.ne_nil
    exact h.head
  last := by simpa using hcomma

theorem Reads.fitting {depth : Nat} {form : Form} {ts : List Token} (h : Reads depth form ts) :
    Fitting ts := by
  induction h with
  | quoted _ | yes | no | null | number _ => exact fitting_singleton rfl (by simp)
  | emptyArray | emptyObject =>
    exact (fitting_singleton (by decide) (by decide)).append_closing (by decide)
  | array _ ih | object _ ih =>
    exact (ih.append_closing (by decide)).cons (by decide) (by decide) rfl
  | lastItem _ ih => exact ih
  | item _ _ ih ih' => exact ih.append_comma ih'
  | lastMember _ _ ih => exact (ih.cons (by decide) (by decide) rfl).cons (by rfl) (by simp) rfl
  | member _ _ _ ih ih' =>
    exact ((ih.append_comma ih').cons (by decide) (by decide) rfl).cons (by rfl) (by simp) rfl

theorem Reads.separate {depth : Nat} {form : Form} {ts : List Token} (h : Reads depth form ts) :
    Separate ts :=
  h.fitting.chain.imp fun _ _ => And.right

/-! ### What is derived is accepted -/

/-- Does the reader, with fuel enough, take texts of these tokens for the form? -/
def Accepted (depth : Nat) : Form → List Token → Prop
  | .value v, ts => ∀ {fuel cs rest}, 2 * ts.length ≤ fuel → Spells Blank ts cs rest → Ends rest →
      value fuel depth cs = some (v, rest)
  | .items vs, ts => ∀ {fuel read cs rest}, 2 * ts.length + 1 ≤ fuel →
      Spells Blank (ts ++ [.mark ']']) cs rest →
      items fuel depth read cs = some (.arr (read.reverse ++ vs), rest)
  | .members read ms, ts => ∀ {fuel cs rest}, 2 * ts.length + 1 ≤ fuel →
      Spells Blank (ts ++ [.mark '\x7d']) cs rest →
      members fuel depth read cs = some (.obj ms, rest)

theorem accepted_number {depth : Nat} {w : List Char} {s : String}
    (h : number w = some (s, [])) : Accepted depth (.value (.num s)) [.word w] := by
  intro fuel cs rest hfuel hspells hrest
  obtain ⟨fuel, rfl⟩ : ∃ n, fuel = n + 1 := ⟨fuel - 1, by simp at hfuel; omega⟩
  have hcs : skipSpace cs = w ++ rest := hspells.skipSpace_singleton
  have hnumber : number (skipSpace cs) = some (s, rest) := by
    rw [hcs, worded_number.stops hrest, h]
    rfl
  have hhead : ∀ {c cs'}, skipSpace cs = c :: cs' → c = '-' ∨ c.isDigit = true := fun heq =>
    head_of_number (heq ▸ hnumber)
  rw [value.eq_def]
  dsimp only
  split
  case h_7 => rw [hnumber, Option.map_some]
  all_goals
    rename_i heq
    exact absurd (hhead heq) (by decide)

/-- What stands first in front of a list of tokens that fit closes nothing. -/
theorem Fitting.skipSpace_ne {ts us : List Token} {cs rest : List Char} (h : Fitting ts)
    (hspells : Spells Blank (ts ++ us) cs rest) {c : Char} (hc : (Token.mark c).closes = true)
    (hmark : isMark c = true) (more : List Char) : skipSpace cs ≠ c :: more := by
  intro heq
  obtain ⟨t, ts, rfl⟩ := List.exists_cons_of_ne_nil h.ne_nil
  obtain ⟨more', hmore, ht, -⟩ := hspells.skipSpace
  cases Token.eq_mark ht hmark (hmore.symm.trans heq)
  simpa [hc] using h.head

theorem accepted_array {depth : Nat} {vs : List Json} {ts : List Token} (hfitting : Fitting ts)
    (h : Accepted depth (.items vs) ts) :
    Accepted (depth + 1) (.value (.arr vs)) (.mark '[' :: (ts ++ [.mark ']'])) := by
  intro fuel cs rest hfuel hspells _
  obtain ⟨fuel, rfl⟩ : ∃ n, fuel = n + 1 := ⟨fuel - 1, by simp at hfuel; omega⟩
  obtain ⟨cs', hcs, -, hinner⟩ := hspells.skipSpace
  have hitems : items fuel depth [] (skipSpace cs') = some (.arr vs, rest) :=
    h (by simp at hfuel; omega) (hinner.at_skipSpace (by simp))
  simp only [value, hcs, Token.text, List.cons_append, List.nil_append]
  split
  · rename_i hclose
    exact absurd hclose (hfitting.skipSpace_ne hinner (by decide) (by decide) _)
  · exact hitems

theorem accepted_object {depth : Nat} {ms : List (String × Json)} {ts : List Token}
    (hfitting : Fitting ts) (h : Accepted depth (.members [] ms) ts) :
    Accepted (depth + 1) (.value (.obj ms)) (.mark '\x7b' :: (ts ++ [.mark '\x7d'])) := by
  intro fuel cs rest hfuel hspells _
  obtain ⟨fuel, rfl⟩ : ∃ n, fuel = n + 1 := ⟨fuel - 1, by simp at hfuel; omega⟩
  obtain ⟨cs', hcs, -, hinner⟩ := hspells.skipSpace
  have hmembers : members fuel depth [] (skipSpace cs') = some (.obj ms, rest) :=
    h (by simp at hfuel; omega) (hinner.at_skipSpace (by simp))
  simp only [value, hcs, Token.text, List.cons_append, List.nil_append]
  split
  · rename_i hclose
    exact absurd hclose (hfitting.skipSpace_ne hinner (by decide) (by decide) _)
  · exact hmembers

/-- A value and a mark behind it, and what the reader finds there. -/
theorem Accepted.before_mark {depth fuel : Nat} {v : Json} {ts us : List Token} {c : Char}
    {cs rest : List Char} (h : Accepted depth (.value v) ts) (hfuel : 2 * ts.length ≤ fuel)
    (hspells : Spells Blank (ts ++ .mark c :: us) cs rest) :
    ∃ mid cs', value fuel depth cs = some (v, mid) ∧ skipSpace mid = c :: cs' ∧
      Spells Blank us cs' rest := by
  obtain ⟨mid, hts, hmark⟩ := hspells.of_append
  obtain ⟨cs', hmid, -, hus⟩ := hmark.skipSpace
  exact ⟨mid, cs', h hfuel hts (hmark.ends rfl), hmid, hus⟩

theorem accepted_lastItem {depth : Nat} {v : Json} {ts : List Token}
    (h : Accepted depth (.value v) ts) : Accepted depth (.items [v]) ts := by
  intro fuel read cs rest hfuel hspells
  obtain ⟨fuel, rfl⟩ : ∃ n, fuel = n + 1 := ⟨fuel - 1, by omega⟩
  have henough : 2 * ts.length ≤ fuel := by omega
  obtain ⟨mid, cs', hv, hmid, hrest⟩ := h.before_mark henough hspells
  cases hrest
  simp [items, hv, hmid]

theorem accepted_item {depth : Nat} {v : Json} {vs : List Json} {ts us : List Token}
    (h : Accepted depth (.value v) ts) (h' : Accepted depth (.items vs) us) :
    Accepted depth (.items (v :: vs)) (ts ++ .mark ',' :: us) := by
  intro fuel read cs rest hfuel hspells
  obtain ⟨fuel, rfl⟩ : ∃ n, fuel = n + 1 := ⟨fuel - 1, by omega⟩
  rw [List.length_append, List.length_cons] at hfuel
  have henough : 2 * ts.length ≤ fuel := by omega
  rw [List.append_assoc] at hspells
  obtain ⟨mid, cs', hv, hmid, hrest⟩ := h.before_mark henough hspells
  have hitems : items fuel depth (v :: read) cs' = _ := h' (by omega) hrest
  simp [items, hv, hmid, hitems]

/-- What the reader finds of a key and its colon. -/
theorem skipSpace_of_key {raw : List Char} {ts : List Token} {cs rest : List Char}
    (hspells : Spells Blank (.quoted raw :: .mark ':' :: ts) cs rest) :
    ∃ mid cs', skipSpace cs = '"' :: (raw ++ '"' :: mid) ∧ skipSpace mid = ':' :: cs' ∧
      Spells Blank ts cs' rest := by
  obtain ⟨mid, hquote, -, hcolon⟩ := hspells.skipSpace
  obtain ⟨cs', hmid, -, hts⟩ := hcolon.skipSpace
  exact ⟨mid, cs', by simp [hquote, Token.text], hmid, hts⟩

theorem accepted_lastMember {depth : Nat} {read : List (String × Json)} {raw key : List Char}
    {v : Json} {ts : List Token} (hkey : Body raw key) (h : Accepted depth (.value v) ts) :
    Accepted depth (.members read (putMember (String.ofList key) v read))
      (.quoted raw :: .mark ':' :: ts) := by
  intro fuel cs rest hfuel hspells
  obtain ⟨fuel, rfl⟩ : ∃ n, fuel = n + 1 := ⟨fuel - 1, by omega⟩
  rw [List.length_cons, List.length_cons] at hfuel
  have henough : 2 * ts.length ≤ fuel := by omega
  obtain ⟨mid, cs₁, hquote, hcolon, hts⟩ := skipSpace_of_key hspells
  obtain ⟨mid', cs₂, hv, hmid, hrest⟩ := h.before_mark henough hts
  cases hrest
  simp only [members, hquote, hkey.string, hcolon, hv, hmid]

theorem accepted_member {depth : Nat} {read ms : List (String × Json)} {raw key : List Char}
    {v : Json} {ts us : List Token} (hkey : Body raw key) (h : Accepted depth (.value v) ts)
    (h' : Accepted depth (.members (putMember (String.ofList key) v read) ms) us) :
    Accepted depth (.members read ms) (.quoted raw :: .mark ':' :: (ts ++ .mark ',' :: us)) := by
  intro fuel cs rest hfuel hspells
  obtain ⟨fuel, rfl⟩ : ∃ n, fuel = n + 1 := ⟨fuel - 1, by omega⟩
  rw [List.length_cons, List.length_cons, List.length_append, List.length_cons] at hfuel
  have henough : 2 * ts.length ≤ fuel := by omega
  rw [List.cons_append, List.cons_append, List.append_assoc] at hspells
  obtain ⟨mid, cs₁, hquote, hcolon, hts⟩ := skipSpace_of_key hspells
  obtain ⟨mid', cs₂, hv, hmid, hrest⟩ := h.before_mark henough hts
  have hmembers : members fuel depth (putMember (String.ofList key) v read) cs₂ = _ :=
    h' (by omega) hrest
  simp only [members, hquote, hkey.string, hcolon, hv, hmid, hmembers]

theorem Reads.accepted {depth : Nat} {form : Form} {ts : List Token} (h : Reads depth form ts) :
    Accepted depth form ts := by
  induction h with
  | quoted hbody =>
    intro fuel cs rest hfuel hspells _
    obtain ⟨fuel, rfl⟩ : ∃ n, fuel = n + 1 := ⟨fuel - 1, by simp at hfuel; omega⟩
    simp [value, hspells.skipSpace_singleton, Token.text, hbody.string]
  | yes | no | null =>
    intro fuel cs rest hfuel hspells _
    obtain ⟨fuel, rfl⟩ : ∃ n, fuel = n + 1 := ⟨fuel - 1, by simp at hfuel; omega⟩
    simp [value, hspells.skipSpace_singleton, Token.text]
  | number hnumber => exact accepted_number hnumber
  | emptyArray | emptyObject =>
    intro fuel cs rest hfuel hspells _
    obtain ⟨fuel, rfl⟩ : ∃ n, fuel = n + 1 := ⟨fuel - 1, by simp at hfuel; omega⟩
    obtain ⟨cs', hcs, -, hclose⟩ := hspells.skipSpace
    simp [value, hcs, Token.text, hclose.skipSpace_singleton]
  | array hitems ih => exact accepted_array hitems.fitting ih
  | object hmembers ih => exact accepted_object hmembers.fitting ih
  | lastItem _ ih => exact accepted_lastItem ih
  | item _ _ ih ih' => exact accepted_item ih ih'
  | lastMember hkey _ ih => exact accepted_lastMember hkey ih
  | member hkey _ _ ih ih' => exact accepted_member hkey ih ih'

/-! ### Texts -/

variable {cs : List Char} {v : Json}

/-- A text that is accepted is made of tokens that its value is derived from. -/
theorem exists_tokens (h : ofChars? cs = some v) :
    ∃ ts, Reads depthLimit (.value v) ts ∧ Made Blank ts cs := by
  rw [ofChars?] at h
  split at h
  · rename_i v' rest hv
    split at h
    · rename_i hrest
      cases h
      obtain ⟨g, hg, hcs⟩ := exists_skipSpace rest
      rw [List.isEmpty_iff.mp hrest, List.append_nil] at hcs
      subst hcs
      have hends : Ends rest := by
        rw [← List.append_nil rest]
        exact ends_blank_append hg ends_nil
      obtain ⟨ts, hts, hspells⟩ := (sound _).1 hv hends
      exact ⟨ts, hts, rest, hg, hspells⟩
    · simp at h
  · simp at h

/-- The reader accepts the texts that the grammar derives a value from, and gives that value. -/
theorem ofChars?_eq_some_iff {ts : List Token} (hts : Separate ts) (h : Made Blank ts cs) :
    ofChars? cs = some v ↔ Reads depthLimit (.value v) ts := by
  constructor
  · intro hv
    -- the tokens that the value was read from are those that the text is known to be made of
    obtain ⟨us, hus, hmade⟩ := exists_tokens hv
    rwa [Made.inj hts hus.separate h hmade]
  · intro hv
    obtain ⟨g, hg, hspells⟩ := h
    have hends : Ends g := by
      rw [← List.append_nil g]
      exact ends_blank_append hg ends_nil
    have hlength := hspells.length_le
    have hvalue : value (2 * cs.length + 2) depthLimit cs = some (v, g) :=
      hv.accepted (by omega) hspells hends
    rw [ofChars?, hvalue]
    simp [skipSpace_eq_nil hg]

end SourceWeb.Json
