/-
  A document that was written is read as the tables that it was written from.

  Settings stand on lines below the header of their table.  Any number of empty lines may stand in
  front of a header and at the end.  The document is read from its end: what a line adds to the
  tables is known, and the lines behind it are read as before.
-/
import SourceWeb.Proofs.Toml.Quoted

namespace SourceWeb.Toml

open SourceWeb.Text

/-! ### Blanks and line ends -/

/-- Does the character stand for itself where blanks, comments and line ends are dropped? -/
def isPlain (c : Char) : Bool :=
  !isGap c && c != '#' && c != '\n' && c != '\r'

theorem skipGap_of_isPlain {c : Char} (hc : isPlain c = true) (cs : List Char) :
    skipGap (c :: cs) = c :: cs := by
  simp only [isPlain, Bool.and_eq_true, Bool.not_eq_true'] at hc
  exact List.dropWhile_cons_of_neg (by simp [hc.1.1.1])

theorem skipGap_append {g : List Char} (hg : ∀ c ∈ g, isGap c = true) {c : Char}
    (hc : isPlain c = true) (cs : List Char) : skipGap (g ++ c :: cs) = c :: cs := by
  rw [skipGap, List.dropWhile_append_of_pos hg]
  exact skipGap_of_isPlain hc cs

theorem skipLines_append {g : List Char} (hg : ∀ c ∈ g, isGap c = true) {c : Char}
    (hc : isPlain c = true) (cs : List Char) (fuel : Nat) :
    skipLines (fuel + 1) (g ++ c :: cs) = c :: cs := by
  have hplain := hc
  simp only [isPlain, Bool.and_eq_true, bne_iff_ne] at hplain
  obtain ⟨⟨⟨-, hcomment⟩, hfeed⟩, hreturn⟩ := hplain
  rw [skipLines, skipGap_append hg hc]
  have hskip : skipComment (c :: cs) = c :: cs := by
    rw [skipComment.eq_def]
    split
    · rename_i heq
      exact absurd (List.cons.inj heq).1 hcomment
    · rfl
  rw [hskip, afterLineEnd?_of_ne hfeed hreturn]

theorem skipLines_replicate (k fuel : Nat) (cs : List Char) :
    skipLines (k + fuel) (List.replicate k '\n' ++ cs) = skipLines fuel cs := by
  induction k with
  | zero => rw [Nat.zero_add, List.replicate_zero, List.nil_append]
  | succ k ih =>
    rw [Nat.add_right_comm, List.replicate_succ, List.cons_append]
    exact ih

/-- Are the characters dropped in front of one that stands for itself? -/
def Skipped (g : List Char) : Prop :=
  ∀ c cs, isPlain c = true → skipLines ((g ++ c :: cs).length + 1) (g ++ c :: cs) = c :: cs

theorem skipped_append (k : Nat) {g : List Char} (hg : ∀ c ∈ g, isGap c = true) :
    Skipped (List.replicate k '\n' ++ g) := by
  intro c cs hc
  have hlength : (List.replicate k '\n' ++ g ++ c :: cs).length + 1 =
      k + ((g ++ cs).length + 1 + 1) := by
    simp only [List.length_append, List.length_replicate, List.length_cons]
    omega
  rw [hlength, List.append_assoc, skipLines_replicate, skipLines_append hg hc]

theorem skipped_replicate (k : Nat) : Skipped (List.replicate k '\n') := by
  simpa using skipped_append k (g := []) (by simp)

theorem skipped_nil : Skipped [] :=
  skipped_replicate 0

/-! ### Values -/

def Setting.toToml : Setting → Toml
  | .str s => .str s
  | .bool b => .bool b
  | .strs items => .arr (items.map .str)

theorem value_quote (s : String) {rest : List Char} (hrest : Unquoted rest) (fuel depth : Nat) :
    value (fuel + 1) depth (quote s ++ rest) = some (.str s, rest) := by
  have hstring := string_quote s hrest
  obtain ⟨q, more, hquote, hq⟩ := quote_head s
  rw [hquote] at hstring ⊢
  have hscalar : scalar (q :: more ++ rest) = some (.str s, rest) := by
    rw [scalar, hstring]
  rcases hq with rfl | rfl <;> exact hscalar

theorem isPlain_of_quote {q : Char} (hq : q = '"' ∨ q = '\'') : isPlain q = true := by
  rcases hq with rfl | rfl <;> rfl

/-- The last item of an array, or one that a comma stands behind. -/
theorem items_quote {g : List Char} (hg : Skipped g) (s : String) {c : Char}
    (hc : c = ',' ∨ c = ']') (rest : List Char) (fuel depth : Nat) (read : List Toml) :
    items (fuel + 2) depth read (g ++ (quote s ++ c :: rest)) =
      if c = ',' then items (fuel + 1) depth (.str s :: read) rest
      else some (.arr (.str s :: read).reverse, rest) := by
  have hrest : Unquoted (c :: rest) := by
    rintro d ⟨⟩
    rcases hc with rfl | rfl <;> decide
  have hstop : isPlain c = true := by
    rcases hc with rfl | rfl <;> rfl
  have hvalue := value_quote s hrest fuel depth
  obtain ⟨q, more, hquote, hq⟩ := quote_head s
  rw [hquote] at hvalue ⊢
  rw [items.eq_def]
  dsimp only [List.cons_append] at hvalue ⊢
  rw [hg q _ (isPlain_of_quote hq)]
  split
  · rename_i heq
    rcases hq with rfl | rfl <;> cases (List.cons.inj heq).1
  · rw [hvalue]
    dsimp only
    rw [show skipLines ((c :: rest).length + 1) (c :: rest) = c :: rest from
      skipped_nil c rest hstop]
    rcases hc with rfl | rfl <;> rfl

/-- Behind the last item, or in an array without any, the array ends. -/
theorem items_close {g : List Char} (hg : Skipped g) (rest : List Char) (fuel depth : Nat)
    (read : List Toml) :
    items (fuel + 1) depth read (g ++ ']' :: rest) = some (.arr read.reverse, rest) := by
  rw [items, hg ']' rest rfl]
  rfl

/-- The items of an array on lines of their own, each with a comma behind it. -/
def itemLines (l : List String) : List Char :=
  l.flatMap fun s => "    ".toList ++ quote s ++ ",\n".toList

/-- The items of an array on lines of their own, from the line feed in front of them. -/
theorem items_itemLines (l : List String) (rest : List Char) {fuel depth : Nat} {read : List Toml}
    (hfuel : l.length < fuel) :
    items fuel depth read ('\n' :: (itemLines l ++ ']' :: rest)) =
      some (.arr (read.reverse ++ l.map .str), rest) := by
  induction l generalizing fuel read with
  | nil =>
    obtain ⟨fuel, rfl⟩ := Nat.exists_eq_add_one_of_ne_zero (Nat.ne_zero_of_lt hfuel)
    simpa [itemLines] using items_close (skipped_replicate 1) rest fuel depth read
  | cons s l ih =>
    rw [List.length_cons] at hfuel
    obtain ⟨fuel, rfl⟩ := Nat.exists_eq_add_of_le' (show 2 ≤ fuel by omega)
    have hindent : Skipped ('\n' :: "    ".toList) :=
      skipped_append 1 (List.all_eq_true.mp (by rfl))
    have hitem := items_quote hindent s (.inl rfl) ('\n' :: (itemLines l ++ ']' :: rest)) fuel depth
      read
    rw [if_pos rfl, ih (show l.length < fuel + 1 by omega)] at hitem
    simpa [itemLines] using hitem

theorem value_arrayOf (l : List String) (rest : List Char) {fuel depth : Nat}
    (hfuel : l.length + 2 ≤ fuel) :
    value fuel (depth + 1) (arrayOf l ++ rest) = some (.arr (l.map .str), rest) := by
  obtain ⟨fuel, rfl⟩ := Nat.exists_eq_add_one_of_ne_zero (show fuel ≠ 0 by omega)
  match l with
  | [] =>
    obtain ⟨fuel, rfl⟩ := Nat.exists_eq_add_one_of_ne_zero (show fuel ≠ 0 by simp at hfuel; omega)
    exact items_close skipped_nil rest fuel depth []
  | [s] =>
    obtain ⟨fuel, rfl⟩ := Nat.exists_eq_add_of_le' (show 2 ≤ fuel by simpa using hfuel)
    simpa [arrayOf, value] using items_quote skipped_nil s (.inr rfl) rest fuel depth []
  | s :: t :: l =>
    have hvalue : value (fuel + 1) (depth + 1)
        ('[' :: '\n' :: (itemLines (s :: t :: l) ++ ']' :: rest)) =
          some (.arr ((s :: t :: l).map .str), rest) :=
      items_itemLines (s :: t :: l) rest (by omega)
    rw [← hvalue]
    congr 1
    simp [arrayOf, itemLines]

theorem length_le_arrayOf (l : List String) : l.length ≤ (arrayOf l).length := by
  have hlines (l : List String) : l.length ≤ (itemLines l).length := by
    induction l with
    | nil => exact Nat.zero_le _
    | cons s l ih =>
      rw [itemLines, List.flatMap_cons, ← itemLines]
      simp only [List.length_append, List.length_cons]
      have hblanks : "    ".toList.length = 4 := rfl
      omega
  match l with
  | [] | [_] => simp [arrayOf]
  | s :: t :: l =>
    have hle := hlines (s :: t :: l)
    have harray : arrayOf (s :: t :: l) = "[\n".toList ++ itemLines (s :: t :: l) ++ [']'] := rfl
    rw [harray, List.length_append, List.length_append]
    omega

/-- A setting is read as the value that it stands for, up to the end of its line. -/
theorem value_settingChars (v : Setting) (cs : List Char) {fuel depth : Nat}
    (hfuel : (settingChars v ++ '\n' :: cs).length < fuel) :
    value fuel (depth + 1) (settingChars v ++ '\n' :: cs) = some (v.toToml, '\n' :: cs) := by
  have hpos : fuel ≠ 0 := Nat.ne_zero_of_lt hfuel
  obtain ⟨fuel, rfl⟩ := Nat.exists_eq_add_one_of_ne_zero hpos
  cases v with
  | str s => exact value_quote s (by rintro c ⟨⟩; decide) fuel (depth + 1)
  | bool b => cases b <;> rfl
  | strs l =>
    have hlength := length_le_arrayOf l
    rw [settingChars, List.length_append, List.length_cons] at hfuel
    exact value_arrayOf l ('\n' :: cs) (by omega)

theorem settingChars_head (v : Setting) :
    ∃ c more, settingChars v = c :: more ∧ isPlain c = true := by
  cases v with
  | str s =>
    obtain ⟨q, more, hquote, hq⟩ := quote_head s
    exact ⟨q, more, hquote, isPlain_of_quote hq⟩
  | bool b => cases b <;> exact ⟨_, _, rfl, rfl⟩
  | strs l =>
    match l with
    | [] | [_] | _ :: _ :: _ => exact ⟨'[', _, rfl, rfl⟩

/-! ### Keys -/

/-- Can the key stand without quotes? -/
def Bare (key : String) : Prop :=
  key.toList ≠ [] ∧ ∀ c ∈ key.toList, isKeyChar c = true

instance (key : String) : Decidable (Bare key) :=
  decidable_of_iff (key.toList.isEmpty = false ∧ key.toList.all isKeyChar = true)
    (and_congr List.isEmpty_eq_false_iff List.all_eq_true)

theorem isPlain_of_isKeyChar {c : Char} (h : isKeyChar c = true) : isPlain c = true := by
  by_contra hnot
  simp only [isPlain, isGap, Bool.and_eq_true, Bool.not_eq_true', Bool.or_eq_false_iff,
    beq_eq_false_iff_ne, bne_iff_ne, not_and_or, not_not] at hnot
  rcases hnot with (((rfl | rfl) | rfl) | rfl) | rfl <;> cases h

theorem Bare.exists_cons {key : String} (h : Bare key) :
    ∃ c more, key.toList = c :: more ∧ isKeyChar c = true := by
  obtain ⟨c, more, heq⟩ := List.exists_cons_of_ne_nil h.1
  exact ⟨c, more, heq, h.2 c (by rw [heq]; exact List.mem_cons_self)⟩

theorem keyPart_bare {name : String} (h : Bare name) {rest : List Char}
    (hrest : ∀ c ∈ rest.head?, isKeyChar c = false) :
    keyPart (name.toList ++ rest) = some (name, rest) := by
  have hends : rest.takeWhile isKeyChar = [] ∧ rest.dropWhile isKeyChar = rest := by
    cases rest with
    | nil => exact ⟨rfl, rfl⟩
    | cons c rest => simp [hrest c rfl]
  have htake : (name.toList ++ rest).takeWhile isKeyChar = name.toList := by
    rw [List.takeWhile_append_of_pos h.2, hends.1, List.append_nil]
  have hdrop : (name.toList ++ rest).dropWhile isKeyChar = rest := by
    rw [List.dropWhile_append_of_pos h.2, hends.2]
  obtain ⟨c, more, hcons, hc⟩ := h.exists_cons
  rw [keyPart.eq_def]
  split
  · rename_i heq
    rw [hcons] at heq
    obtain ⟨rfl, -⟩ := List.cons.inj heq
    cases hc
  · rename_i heq
    rw [hcons] at heq
    obtain ⟨rfl, -⟩ := List.cons.inj heq
    cases hc
  · rw [htake, hdrop, if_neg (by simpa using h.1), String.ofList_toList]

/-- A bare key is read up to what follows the blanks behind it, if that is no dot. -/
theorem key_bare {name : String} (h : Bare name) {rest : List Char}
    (hrest : ∀ c ∈ rest.head?, isKeyChar c = false) (hdot : ∀ more, skipGap rest ≠ '.' :: more) :
    key (name.toList ++ rest) = some ([name], skipGap rest) := by
  obtain ⟨c, more, hcons, hc⟩ := h.exists_cons
  have hgap : skipGap (name.toList ++ rest) = name.toList ++ rest := by
    rw [hcons]
    exact skipGap_of_isPlain (isPlain_of_isKeyChar hc) _
  rw [key, depthLimit, keyParts, hgap, keyPart_bare h hrest]
  dsimp only [bind, Option.bind]
  split
  · rename_i heq
    exact absurd heq (hdot _)
  · rfl

/-! ### Tables -/

variable {ms : List (String × Draft)} {name : String}

theorem lookup_of_not_mem {α : Type} {l : List (String × α)} {k : String}
    (h : k ∉ l.map Prod.fst) : l.lookup k = none := by
  rw [List.lookup_eq_none_iff]
  rintro ⟨k', a⟩ hmem
  rw [bne_iff_ne]
  rintro rfl
  exact h (List.mem_map_of_mem hmem)

theorem putDraft_of_not_mem {d : Draft} (h : name ∉ ms.map Prod.fst) :
    putDraft name d ms = ms ++ [(name, d)] := by
  induction ms with
  | nil => rfl
  | cons m ms ih =>
    rw [List.map_cons, List.mem_cons, not_or] at h
    rw [putDraft, if_neg fun heq => h.1 heq.symm, ih h.2, List.cons_append]

/-- The last of the tables is changed. -/
theorem putDraft_concat {d old : Draft} (h : name ∉ ms.map Prod.fst) :
    putDraft name d (ms ++ [(name, old)]) = ms ++ [(name, d)] := by
  induction ms with
  | nil => simp [putDraft]
  | cons m ms ih =>
    rw [List.map_cons, List.mem_cons, not_or] at h
    rw [List.cons_append, putDraft, if_neg fun heq => h.1 heq.symm, ih h.2, List.cons_append]

theorem lookup_concat {d : Draft} (h : name ∉ ms.map Prod.fst) :
    (ms ++ [(name, d)]).lookup name = some d := by
  rw [List.lookup_append, lookup_of_not_mem h]
  simp

theorem openTable_of_not_mem (h : name ∉ ms.map Prod.fst) :
    openTable [name] ms = some (ms ++ [(name, .open_ .header [])]) := by
  rw [openTable, lookup_of_not_mem h]
  simp [putDraft_of_not_mem h]

theorem addBelow_concat {key : String} {inner : List (String × Draft)} {v : Toml}
    (h : name ∉ ms.map Prod.fst) (hkey : key ∉ inner.map Prod.fst) :
    addBelow [name] [key] v (ms ++ [(name, .open_ .header inner)]) =
      some (ms ++ [(name, .open_ .header (inner ++ [(key, .done v)]))]) := by
  rw [addBelow, lookup_concat h]
  dsimp only
  rw [addBelow, addValue, lookup_of_not_mem hkey]
  simp [putDraft_of_not_mem hkey, putDraft_concat h]

/-! ### Lines -/

/-- With fuel enough, does reading the lines lead from these tables to those? -/
def Leads (at_ : List String) (ms : List (String × Draft)) (cs : List Char)
    (result : List (String × Draft)) : Prop :=
  ∀ fuel, cs.length < fuel → document fuel at_ ms cs = some result

theorem leads_end (at_ : List String) (ms : List (String × Draft)) (k : Nat) :
    Leads at_ ms (List.replicate k '\n') ms := by
  intro fuel hfuel
  obtain ⟨fuel, rfl⟩ := Nat.exists_eq_add_one_of_ne_zero (Nat.ne_zero_of_lt hfuel)
  have hskip : skipLines ((List.replicate k '\n').length + 1) (List.replicate k '\n') = [] := by
    rw [List.length_replicate]
    have hdrop := skipLines_replicate k 1 []
    rwa [List.append_nil] at hdrop
  rw [document, hskip]

variable {result : List (String × Draft)} {cs : List Char}

/-- A header opens its table. -/
theorem Leads.header {at_ : List String} (hbare : Bare name) (hname : name ∉ ms.map Prod.fst)
    (h : Leads [name] (ms ++ [(name, .open_ .header [])]) cs result) (k : Nat) :
    Leads at_ ms (List.replicate k '\n' ++ '[' :: (name.toList ++ ']' :: '\n' :: cs)) result := by
  intro fuel hfuel
  obtain ⟨fuel, rfl⟩ := Nat.exists_eq_add_one_of_ne_zero (Nat.ne_zero_of_lt hfuel)
  have hkey : key (name.toList ++ ']' :: '\n' :: cs) = some ([name], ']' :: '\n' :: cs) :=
    key_bare hbare (by rintro c ⟨⟩; rfl) fun more heq => by cases (List.cons.inj heq).1
  have hlength : cs.length < fuel := by
    simp only [List.length_append, List.length_cons] at hfuel
    omega
  rw [document, skipped_replicate k '[' _ rfl]
  simp only [hkey, openTable_of_not_mem hname]
  exact h fuel hlength

/-- A line adds its setting to the table whose header is in force. -/
theorem Leads.line {key : String} {inner : List (String × Draft)} {v : Setting}
    (hbare : Bare key) (hname : name ∉ ms.map Prod.fst) (hkey : key ∉ inner.map Prod.fst)
    (h : Leads [name] (ms ++ [(name, .open_ .header (inner ++ [(key, .done v.toToml)]))]) cs
      result) :
    Leads [name] (ms ++ [(name, .open_ .header inner)]) (line key v ++ cs) result := by
  intro fuel hfuel
  obtain ⟨fuel, rfl⟩ := Nat.exists_eq_add_one_of_ne_zero (Nat.ne_zero_of_lt hfuel)
  have hline : Toml.line key v ++ cs =
      key.toList ++ ' ' :: '=' :: ' ' :: (settingChars v ++ '\n' :: cs) := by
    simp [Toml.line]
  have hread : Toml.key (key.toList ++ ' ' :: '=' :: ' ' :: (settingChars v ++ '\n' :: cs)) =
      some ([key], '=' :: ' ' :: (settingChars v ++ '\n' :: cs)) :=
    key_bare hbare (by rintro c ⟨⟩; rfl) fun more heq => by cases (List.cons.inj heq).1
  have hgap : skipGap (' ' :: (settingChars v ++ '\n' :: cs)) = settingChars v ++ '\n' :: cs := by
    obtain ⟨c, more, hchars, hc⟩ := settingChars_head v
    rw [hchars]
    exact skipGap_append (g := [' ']) (by simp [isGap]) hc _
  have hvalue : value ((' ' :: (settingChars v ++ '\n' :: cs)).length + 1) depthLimit
      (settingChars v ++ '\n' :: cs) = some (v.toToml, '\n' :: cs) :=
    value_settingChars v cs (by simp only [List.length_cons]; omega)
  have hlength : cs.length < fuel := by
    simp only [hline, List.length_append, List.length_cons] at hfuel
    omega
  obtain ⟨c, more, hcons, hc⟩ := hbare.exists_cons
  have hskip : skipLines ((Toml.line key v ++ cs).length + 1) (Toml.line key v ++ cs) =
      Toml.line key v ++ cs := by
    rw [hline, hcons]
    exact skipped_nil c _ (isPlain_of_isKeyChar hc)
  rw [document, hskip, hline]
  split
  · rename_i heq
    rw [hcons] at heq
    cases heq
  · rename_i heq
    rw [hcons] at heq
    obtain ⟨rfl, -⟩ := List.cons.inj heq
    cases hc
  · simp only [hread, hgap, hvalue, addBelow_concat hname hkey]
    exact h fuel hlength

/-- The lines of a table add its settings in their order. -/
theorem Leads.lines (settings : List (String × Setting)) {inner : List (String × Draft)}
    (hname : name ∉ ms.map Prod.fst) (hbare : ∀ p ∈ settings, Bare p.1)
    (hkeys : (inner.map Prod.fst ++ settings.map Prod.fst).Nodup)
    (h : Leads [name] (ms ++ [(name, .open_ .header
      (inner ++ settings.map fun p => (p.1, .done p.2.toToml)))]) cs result) :
    Leads [name] (ms ++ [(name, .open_ .header inner)])
      ((settings.flatMap fun p => Toml.line p.1 p.2) ++ cs) result := by
  induction settings generalizing inner with
  | nil => simpa using h
  | cons p settings ih =>
    obtain ⟨hbare, hlater⟩ := List.forall_mem_cons.mp hbare
    have hkey : p.1 ∉ inner.map Prod.fst := by
      intro hmem
      exact (List.nodup_append.mp hkeys).2.2 _ hmem _ List.mem_cons_self rfl
    rw [List.flatMap_cons, List.append_assoc]
    refine Leads.line hbare hname hkey (ih hlater ?_ ?_)
    · simpa using hkeys
    · simpa using h

/-! ### Documents -/

/-- Tables with their names and settings. -/
abbrev Tables := List (String × List (String × Setting))

/-- Tables one below the other, with so many empty lines in front of each and at the end. -/
def spaced (gap : String → Nat) (last : Nat) (tables : Tables) : List Char :=
  (tables.flatMap fun t => List.replicate (gap t.1) '\n' ++ tableChars t.1 t.2) ++
    List.replicate last '\n'

/-- Are the names told apart, and can each stand without quotes? -/
structure ProperKeys (names : List String) : Prop where
  nodup : names.Nodup
  bare : ∀ name ∈ names, Bare name

instance (names : List String) : Decidable (ProperKeys names) :=
  decidable_of_iff (names.Nodup ∧ ∀ name ∈ names, Bare name)
    ⟨fun h => ⟨h.1, h.2⟩, fun h => ⟨h.1, h.2⟩⟩

theorem ProperKeys.sublist {names more : List String} (h : ProperKeys more)
    (hsub : names.Sublist more) : ProperKeys names :=
  ⟨h.nodup.sublist hsub, fun name hname => h.bare name (hsub.subset hname)⟩

/-- Are the names of the tables plain, and the keys within each? -/
structure Tables.Proper (tables : Tables) : Prop where
  names : ProperKeys (tables.map Prod.fst)
  keys : ∀ t ∈ tables, ProperKeys (t.2.map Prod.fst)

/-- A table while it is read, when all of its settings are. -/
def tableDraft (t : String × List (String × Setting)) : String × Draft :=
  (t.1, .open_ .header (t.2.map fun p => (p.1, .done p.2.toToml)))

def tableToml (t : String × List (String × Setting)) : String × Toml :=
  (t.1, .table (t.2.map fun p => (p.1, p.2.toToml)))

theorem leads_spaced (gap : String → Nat) (last : Nat) {tables : Tables}
    (hbare : ∀ t ∈ tables, Bare t.1) (hkeys : ∀ t ∈ tables, ProperKeys (t.2.map Prod.fst))
    (at_ : List String) {ms : List (String × Draft)}
    (hnames : (ms.map Prod.fst ++ tables.map Prod.fst).Nodup) :
    Leads at_ ms (spaced gap last tables) (ms ++ tables.map tableDraft) := by
  induction tables generalizing at_ ms with
  | nil => simpa [spaced] using leads_end at_ ms last
  | cons t tables ih =>
    obtain ⟨hbare, hlater⟩ := List.forall_mem_cons.mp hbare
    obtain ⟨hkeys, hlaterKeys⟩ := List.forall_mem_cons.mp hkeys
    have hname : t.1 ∉ ms.map Prod.fst := by
      intro hmem
      exact (List.nodup_append.mp hnames).2.2 _ hmem _ List.mem_cons_self rfl
    have hrest : Leads [t.1] (ms ++ [tableDraft t]) (spaced gap last tables)
        (ms ++ [tableDraft t] ++ tables.map tableDraft) :=
      ih hlater hlaterKeys [t.1] (by simpa [tableDraft] using hnames)
    have hlines : Leads [t.1] (ms ++ [(t.1, .open_ .header [])])
        ((t.2.flatMap fun p => Toml.line p.1 p.2) ++ spaced gap last tables)
        (ms ++ [tableDraft t] ++ tables.map tableDraft) :=
      Leads.lines t.2 hname (fun p hp => hkeys.bare p.1 (List.mem_map_of_mem hp)) hkeys.nodup hrest
    simpa [spaced, tableChars] using hlines.header hbare hname (gap t.1)

theorem draftMembers_map_tableDraft (tables : Tables) :
    draftMembers (tables.map tableDraft) = tables.map tableToml := by
  have hinner (settings : List (String × Setting)) :
      draftMembers (settings.map fun p => (p.1, .done p.2.toToml)) =
        settings.map fun p => (p.1, p.2.toToml) := by
    induction settings with
    | nil => rfl
    | cons p settings ih =>
      rw [List.map_cons, draftMembers, ih]
      rfl
  induction tables with
  | nil => rfl
  | cons t tables ih =>
    rw [List.map_cons, draftMembers, ih, tableDraft, Draft.toToml, hinner]
    rfl

theorem head?_replicate_append {c : Char} {k : Nat} {cs : List Char}
    (hcs : ∀ d ∈ cs.head?, d ≠ c) (hc : '\n' ≠ c) :
    ∀ d ∈ (List.replicate k '\n' ++ cs).head?, d ≠ c := by
  cases k with
  | zero => simpa using hcs
  | succ k =>
    rintro d ⟨⟩
    exact hc

/-- No mark stands in front of the text. -/
theorem spaced_ne_mark (gap : String → Nat) (last : Nat) (tables : Tables) :
    ∀ c ∈ (spaced gap last tables).head?, c ≠ '\uFEFF' := by
  cases tables with
  | nil =>
    rw [spaced, List.flatMap_nil, List.nil_append, ← List.append_nil (List.replicate _ _)]
    exact head?_replicate_append (by simp) (by decide)
  | cons t tables =>
    rw [spaced, List.flatMap_cons, List.append_assoc, List.append_assoc, tableChars]
    exact head?_replicate_append (by rintro c ⟨⟩; decide) (by decide)

theorem ofText?_of_head {cs : List Char} (h : ∀ c ∈ cs.head?, c ≠ '\uFEFF') :
    ofText? (String.ofList cs) =
      (document (cs.length + 1) [] [] cs).map fun ms => Draft.toToml (.open_ .header ms) := by
  rw [ofText?, String.toList_ofList]
  cases cs with
  | nil => rfl
  | cons c cs => simp only [if_neg (h c rfl)]

/-- Tables that were written are read as what they were. -/
theorem ofText?_spaced (gap : String → Nat) (last : Nat) {tables : Tables} (h : tables.Proper) :
    ofText? (String.ofList (spaced gap last tables)) = some (.table (tables.map tableToml)) := by
  have hleads : Leads [] [] (spaced gap last tables) (tables.map tableDraft) :=
    leads_spaced gap last (fun t ht => h.names.bare t.1 (List.mem_map_of_mem ht)) h.keys []
      h.names.nodup
  rw [ofText?_of_head (spaced_ne_mark gap last tables), hleads _ (Nat.lt_succ_self _)]
  simp [Draft.toToml, draftMembers_map_tableDraft]

end SourceWeb.Toml
