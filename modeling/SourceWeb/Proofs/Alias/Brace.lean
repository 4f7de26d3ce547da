/-
  Going on to the brace that closes an object.

  Strings are passed over together with the braces in them, and within a value every brace that
  opens is made up for by one that closes.  So as many braces are open behind a value as in front of
  it, and an object is closed by the brace at its own end.

  The number of open braces is taken with a sign, too: from a brace that opens, in any text, it
  stays above zero until the search ends, and the search ends where it is zero again.
-/
import SourceWeb.Alias.Lenient
import SourceWeb.Proofs.Json.Formed
import SourceWeb.Proofs.Json.Member

namespace SourceWeb.Alias

open SourceWeb.Json

variable {depth : Nat} {w w' : List Char}

/-! ### Texts -/

/-- Is the text passed over, with as many braces open behind it as in front of it? -/
def Passed (depth : Nat) (w : List Char) : Prop :=
  ∀ rest, closingFrom depth false false (w ++ rest) =
    (closingFrom depth false false rest).map (w.length + ·)

theorem map_add_add (m n : Nat) (o : Option Nat) :
    (o.map (n + ·)).map (m + ·) = o.map (m + n + ·) := by
  rw [Option.map_map]
  congr 1
  funext k
  exact (Nat.add_assoc m n k).symm

theorem map_succ (n : Nat) (o : Option Nat) : (o.map (n + ·)).map (· + 1) = o.map (n + 1 + ·) := by
  rw [Option.map_map]
  congr 1
  funext k
  exact Nat.add_right_comm n k 1

theorem passed_nil : Passed depth [] := by
  intro rest
  simp

theorem Passed.append (h : Passed depth w) (h' : Passed depth w') : Passed depth (w ++ w') := by
  intro rest
  rw [List.append_assoc, h, h', map_add_add, List.length_append]

theorem passed_plain (h : ∀ c ∈ w, c ≠ '"' ∧ c ≠ '\x7b' ∧ c ≠ '\x7d') : Passed depth w := by
  induction w with
  | nil => exact passed_nil
  | cons c w ih =>
    intro rest
    obtain ⟨hquote, hopen, hclose⟩ := h c (by simp)
    have hrest : Passed depth w := ih fun d hd => h d (by simp [hd])
    rw [List.cons_append, closingFrom, if_neg hquote, if_neg hopen, if_neg hclose, hrest, map_succ,
      List.length_cons]

theorem closingFrom_string {raw : List Char} (h : Closed raw) (rest : List Char) :
    closingFrom depth true false (raw ++ '"' :: rest) =
      (closingFrom depth false false rest).map (raw.length + 1 + ·) := by
  induction h with
  | nil =>
    rw [List.nil_append, closingFrom, if_neg (by decide), if_pos rfl]
    congr 1
    funext k
    exact Nat.add_comm k 1
  | plain hquote hback _ ih =>
    rw [List.cons_append, closingFrom, if_neg hback, if_neg hquote, ih, map_succ]
    rfl
  | escaped _ ih =>
    rw [List.cons_append, closingFrom, if_pos rfl, List.cons_append, closingFrom, ih, map_succ,
      map_succ]
    rfl

/-- A string is passed over, whatever braces stand in it. -/
theorem passed_quoted {raw : List Char} (h : Closed raw) :
    Passed depth (Token.quoted raw).text := by
  intro rest
  have hlength : (Token.quoted raw).text.length = raw.length + 1 + 1 := by
    simp [Token.text]
  rw [hlength, Token.text, List.cons_append, closingFrom, if_pos rfl, List.append_assoc,
    List.singleton_append, closingFrom_string h, map_succ]

/-- Two braces and what is passed over between them are passed over within an object. -/
theorem Passed.braces (h : Passed (depth + 1) w) (hdepth : 1 ≤ depth) :
    Passed depth ('\x7b' :: (w ++ ['\x7d'])) := by
  intro rest
  have hclose : closingFrom (depth + 1) false false ('\x7d' :: rest) =
      (closingFrom depth false false rest).map (· + 1) := by
    rw [closingFrom, if_neg (by decide), if_neg (by decide), if_pos rfl, if_neg (by omega)]
    rfl
  rw [List.cons_append, List.append_assoc, List.singleton_append, closingFrom, if_neg (by decide),
    if_pos rfl, h, hclose, map_succ, Option.map_map]
  congr 1
  funext k
  simp only [Function.comp_apply, List.length_cons, List.length_append, List.length_nil]
  omega

/-- The first brace is closed by the one behind what is passed over. -/
theorem Passed.closingFrom_braces (h : Passed 1 w) (rest : List Char) :
    closingFrom 0 false false ('\x7b' :: (w ++ '\x7d' :: rest)) = some (w.length + 1) := by
  have hclose : closingFrom 1 false false ('\x7d' :: rest) = some 0 := by
    rw [closingFrom, if_neg (by decide), if_neg (by decide), if_pos rfl, if_pos (by omega)]
  rw [closingFrom, if_neg (by decide), if_pos rfl, h, hclose]
  rfl

/-! ### Tokens -/

theorem passed_blank {g : List Char} (hg : Blank g) : Passed depth g := by
  apply passed_plain
  intro c hc
  have hspace := hg c hc
  refine ⟨?_, ?_, ?_⟩
  all_goals
    rintro rfl
    exact absurd hspace (by decide)

def isBrace : Token → Bool
  | .mark c => c == '\x7b' || c == '\x7d'
  | _ => false

/-- Every token but a brace is passed over. -/
theorem passed_token {t : Token} (ht : t.Proper) (hbrace : isBrace t = false) :
    Passed depth t.text := by
  cases t with
  | mark c =>
    simp only [isBrace, Bool.or_eq_false_iff, beq_eq_false_iff_ne] at hbrace
    apply passed_plain
    intro d hd
    obtain rfl : d = c := by simpa [Token.text] using hd
    refine ⟨?_, hbrace⟩
    rintro rfl
    exact absurd ht (by simp [Token.Proper, isMark])
  | quoted raw => exact passed_quoted ht
  | word w =>
    apply passed_plain
    intro c hc
    have hword := ht.2 c hc
    refine ⟨?_, ?_, ?_⟩
    all_goals
      rintro rfl
      exact absurd hword (by decide)

/-- Are the texts of the tokens passed over? -/
def Skipped (depth : Nat) (ts : List Token) : Prop :=
  ∀ cs rest, Spells Blank ts cs rest → ∃ w, cs = w ++ rest ∧ Passed depth w

theorem skipped_nil : Skipped depth [] := by
  intro cs rest hspells
  cases hspells
  exact ⟨[], rfl, passed_nil⟩

theorem Skipped.append {ts us : List Token} (h : Skipped depth ts) (h' : Skipped depth us) :
    Skipped depth (ts ++ us) := by
  intro cs rest hspells
  obtain ⟨mid, hts, hus⟩ := hspells.of_append
  obtain ⟨w, rfl, hw⟩ := h _ _ hts
  obtain ⟨w', rfl, hw'⟩ := h' _ _ hus
  exact ⟨w ++ w', (List.append_assoc w w' rest).symm, hw.append hw'⟩

theorem Skipped.cons {t : Token} {ts : List Token} (h : Skipped depth ts)
    (hbrace : isBrace t = false) : Skipped depth (t :: ts) := by
  intro cs rest hspells
  cases hspells with
  | @cons g _ _ _ _ hg ht hspells =>
    obtain ⟨w, rfl, hw⟩ := h _ _ hspells
    exact ⟨g ++ (t.text ++ w), by simp,
      (passed_blank hg).append ((passed_token ht hbrace).append hw)⟩

/-- Where the tokens of an object begin, and where they end. -/
theorem Skipped.of_object {ts : List Token} (h : Skipped (depth + 1) ts) {cs rest : List Char}
    (hspells : Spells Blank (.mark '\x7b' :: (ts ++ [.mark '\x7d'])) cs rest) :
    ∃ g w, Blank g ∧ Passed (depth + 1) w ∧ cs = g ++ '\x7b' :: (w ++ '\x7d' :: rest) := by
  cases hspells with
  | @cons g _ _ _ _ hg _ hspells =>
    obtain ⟨mid, hts, hend⟩ := hspells.of_append
    obtain ⟨w, rfl, hw⟩ := h _ _ hts
    cases hend with
    | @cons g' _ _ _ _ hg' _ hnil =>
      cases hnil
      exact ⟨g, w ++ g', hg, hw.append (passed_blank hg'), by simp [Token.text]⟩

theorem Skipped.object {ts : List Token} (h : Skipped (depth + 1) ts) (hdepth : 1 ≤ depth) :
    Skipped depth (.mark '\x7b' :: (ts ++ [.mark '\x7d'])) := by
  intro cs rest hspells
  obtain ⟨g, w, hg, hw, rfl⟩ := h.of_object hspells
  exact ⟨g ++ '\x7b' :: (w ++ ['\x7d']), by simp, (passed_blank hg).append (hw.braces hdepth)⟩

/-- A value within an object is passed over. -/
theorem skipped_of_formed {part : Part} {ts : List Token} (h : Formed part ts)
    (hdepth : 1 ≤ depth) : Skipped depth ts := by
  induction h generalizing depth with
  | quoted | word => exact skipped_nil.cons rfl
  | emptyArray => exact (skipped_nil.cons rfl).cons rfl
  | array _ ih => exact ((ih hdepth).append (skipped_nil.cons rfl)).cons rfl
  | emptyObject => exact skipped_nil.object hdepth
  | object _ ih => exact (ih (Nat.le_succ_of_le hdepth)).object hdepth
  | lastItem _ ih => exact ih hdepth
  | item _ _ ih ih' => exact (ih hdepth).append ((ih' hdepth).cons rfl)
  | lastMember _ _ ih => exact ((ih hdepth).cons rfl).cons rfl
  | member _ _ _ ih ih' => exact (((ih hdepth).append ((ih' hdepth).cons rfl)).cons rfl).cons rfl

/-- What stands between the braces of an object is passed over. -/
theorem exists_skipped_of_formed {ts : List Token} (h : Formed .value (.mark '\x7b' :: ts)) :
    ∃ us, Skipped 1 us ∧ ts = us ++ [.mark '\x7d'] := by
  obtain ⟨us, rfl, rfl | hmembers⟩ := h.of_object
  · exact ⟨[], skipped_nil, rfl⟩
  · exact ⟨us, skipped_of_formed hmembers (Nat.le_refl 1), rfl⟩

/-- **An object is closed by the brace at its end.**  From the brace that opens it the reader goes
    on to that one, whatever strings and objects stand in it and whatever stands behind it. -/
theorem closingFrom_of_reads {room : Nat} {ms : List (String × Json)} {ts : List Token}
    (h : Reads room (.value (.obj ms)) ts) {cs end_ : List Char}
    (hspells : Spells Blank ts cs end_) :
    ∃ g w, Blank g ∧ cs = g ++ '\x7b' :: (w ++ '\x7d' :: end_) ∧
      Made Blank ts ('\x7b' :: (w ++ ['\x7d'])) ∧
      ∀ rest, closingFrom 0 false false ('\x7b' :: (w ++ '\x7d' :: rest)) =
        some (w.length + 1) := by
  obtain ⟨ts', rfl⟩ : ∃ ts', ts = .mark '\x7b' :: ts' := by
    cases h with
    | emptyObject | object _ => exact ⟨_, rfl⟩
  obtain ⟨us, hus, rfl⟩ := exists_skipped_of_formed h.formed
  obtain ⟨g, w, hg, hw, rfl⟩ := hus.of_object hspells
  refine ⟨g, w, hg, rfl, ⟨[], blank_nil, ?_⟩, hw.closingFrom_braces⟩
  -- the white space in front of the object and what stands behind it are left out
  obtain ⟨object, hobject, hcut⟩ := hspells.cut
  have heq : object ++ end_ = g ++ '\x7b' :: (w ++ ['\x7d']) ++ end_ := by
    simp [← hobject]
  have hstart := (hcut []).at_skipSpace (by simp)
  rw [List.append_nil, List.append_cancel_right heq, skipSpace_append hg] at hstart
  exact hstart

/-! ### Counting -/

/-- What is known behind a part of a text: how many braces more have opened than closed, and whether
    the part ends in a string, and there behind a backslash. -/
structure Tally where
  depth : Int
  inString : Bool
  escaped : Bool

/-- One character more.  A brace that closes is counted also where none is open. -/
def Tally.next : Tally → Char → Tally
  | ⟨depth, true, true⟩, _ => ⟨depth, true, false⟩
  | ⟨depth, true, false⟩, c =>
    if c = '\\' then ⟨depth, true, true⟩
    else if c = '"' then ⟨depth, false, false⟩
    else ⟨depth, true, false⟩
  | ⟨depth, false, _⟩, c =>
    if c = '"' then ⟨depth, true, false⟩
    else if c = '\x7b' then ⟨depth + 1, false, false⟩
    else if c = '\x7d' then ⟨depth - 1, false, false⟩
    else ⟨depth, false, false⟩

/-- The number of braces that are open when the search from `start` has gone over `n` characters. -/
def openBraces (text : List Char) (start n : Nat) : Int :=
  (((text.drop start).take n).foldl Tally.next ⟨0, false, false⟩).depth

variable {n : Nat} {inString escaped : Bool} {cs : List Char}

/-- Within an object, one character ends the search and no brace is open behind it, or the search
    goes on with the braces that are open behind it. -/
theorem closingFrom_cons (hdepth : 0 < depth) (inString escaped : Bool) (c : Char)
    (cs : List Char) :
    ((Tally.next ⟨depth, inString, escaped⟩ c).depth = 0 ∧
      closingFrom depth inString escaped (c :: cs) = some 0) ∨
    ∃ (depth' : Nat) (inString' escaped' : Bool), 0 < depth' ∧
      Tally.next ⟨depth, inString, escaped⟩ c = ⟨depth', inString', escaped'⟩ ∧
      closingFrom depth inString escaped (c :: cs) =
        (closingFrom depth' inString' escaped' cs).map (· + 1) := by
  cases inString with
  | true =>
    -- nothing is counted in a string
    right
    cases escaped with
    | true => exact ⟨depth, true, false, hdepth, rfl, rfl⟩
    | false =>
      by_cases hback : c = '\\'
      · exact ⟨depth, true, true, hdepth, by simp [Tally.next, hback],
          by rw [closingFrom, if_pos hback]⟩
      · by_cases hquote : c = '"'
        · exact ⟨depth, false, false, hdepth, by simp [Tally.next, hquote],
            by rw [closingFrom, if_neg hback, if_pos hquote]⟩
        · exact ⟨depth, true, false, hdepth, by simp [Tally.next, hback, hquote],
            by rw [closingFrom, if_neg hback, if_neg hquote]⟩
  | false =>
    by_cases hquote : c = '"'
    · exact .inr ⟨depth, true, false, hdepth, by simp [Tally.next, hquote],
        by rw [closingFrom, if_pos hquote]⟩
    by_cases hopen : c = '\x7b'
    · exact .inr ⟨depth + 1, false, false, Nat.succ_pos depth, by simp [Tally.next, hopen],
        by rw [closingFrom, if_neg hquote, if_pos hopen]⟩
    by_cases hclose : c = '\x7d'
    · by_cases hlast : depth ≤ 1
      · left
        obtain rfl : depth = 1 := by omega
        exact ⟨by simp [Tally.next, hclose],
          by rw [closingFrom, if_neg hquote, if_neg hopen, if_pos hclose, if_pos hlast]⟩
      · refine .inr ⟨depth - 1, false, false, by omega, ?_, ?_⟩
        · have hcast : ((depth - 1 : Nat) : Int) = depth - 1 := by omega
          simp [Tally.next, hclose, hcast]
        · rw [closingFrom, if_neg hquote, if_neg hopen, if_pos hclose, if_neg hlast]
    · exact .inr ⟨depth, false, false, hdepth, by simp [Tally.next, hquote, hopen, hclose],
        by rw [closingFrom, if_neg hquote, if_neg hopen, if_neg hclose]⟩

/-- As long as the search goes on, braces are open. -/
theorem depth_pos_of_closingFrom (hdepth : 0 < depth) {m : Nat}
    (h : ∀ n, closingFrom depth inString escaped cs = some n → m ≤ n) :
    0 < ((cs.take m).foldl Tally.next ⟨depth, inString, escaped⟩).depth := by
  induction cs generalizing depth inString escaped m with
  | nil => simpa using hdepth
  | cons c cs ih =>
    cases m with
    | zero => simpa using hdepth
    | succ m =>
      rw [List.take_succ_cons, List.foldl_cons]
      rcases closingFrom_cons hdepth inString escaped c cs with
        ⟨-, hfound⟩ | ⟨depth', inString', escaped', hdepth', hnext, hrest⟩
      · exact absurd (h 0 hfound) (by omega)
      · rw [hnext]
        apply ih hdepth'
        intro n hn
        have hle := h (n + 1) (by rw [hrest, hn, Option.map_some])
        omega

/-- Where the search ends no brace is open any more. -/
theorem depth_eq_zero_of_closingFrom (hdepth : 0 < depth)
    (h : closingFrom depth inString escaped cs = some n) :
    ((cs.take (n + 1)).foldl Tally.next ⟨depth, inString, escaped⟩).depth = 0 := by
  induction cs generalizing depth inString escaped n with
  | nil => simp [closingFrom] at h
  | cons c cs ih =>
    rw [List.take_succ_cons, List.foldl_cons]
    rcases closingFrom_cons hdepth inString escaped c cs with
      ⟨hzero, hfound⟩ | ⟨depth', inString', escaped', hdepth', hnext, hrest⟩
    · rw [hfound] at h
      cases h
      simpa using hzero
    · rw [hrest] at h
      obtain ⟨k, hk, rfl⟩ := Option.map_eq_some_iff.mp h
      rw [hnext]
      exact ih hdepth' hk

/-! ### From a brace that opens -/

section

variable {text : List Char} {start : Nat}

theorem drop_of_open (hopen : text[start]? = some '\x7b') :
    text.drop start = '\x7b' :: text.drop (start + 1) := by
  obtain ⟨hlt, hget⟩ := List.getElem?_eq_some_iff.mp hopen
  rw [List.drop_eq_getElem_cons hlt, hget]

theorem closingBrace?_eq_some_iff (hopen : text[start]? = some '\x7b') {close : Nat} :
    closingBrace? text start = some close ↔ ∃ k,
      closingFrom 1 false false (text.drop (start + 1)) = some k ∧ close = start + (k + 1) := by
  have hcons : closingFrom 0 false false (text.drop start) =
      (closingFrom 1 false false (text.drop (start + 1))).map (· + 1) := by
    rw [drop_of_open hopen, closingFrom, if_neg (by decide), if_pos rfl]
  rw [closingBrace?, hcons, Option.map_map, Option.map_eq_some_iff]
  exact exists_congr fun k => and_congr_right fun _ => eq_comm

theorem openBraces_succ (hopen : text[start]? = some '\x7b') (n : Nat) :
    openBraces text start (n + 1) =
      (((text.drop (start + 1)).take n).foldl Tally.next ⟨(1 : Nat), false, false⟩).depth := by
  rw [openBraces, drop_of_open hopen]
  rfl

/-- Until the search ends at least one brace is open. -/
theorem openBraces_pos (hopen : text[start]? = some '\x7b') {n : Nat} (hn : 0 < n)
    (h : ∀ close, closingBrace? text start = some close → start + n ≤ close) :
    0 < openBraces text start n := by
  obtain ⟨m, rfl⟩ : ∃ m, n = m + 1 := ⟨n - 1, by omega⟩
  rw [openBraces_succ hopen]
  apply depth_pos_of_closingFrom Nat.one_pos
  intro k hk
  have hle := h _ ((closingBrace?_eq_some_iff hopen).mpr ⟨k, hk, rfl⟩)
  omega

theorem openBraces_eq_zero (hopen : text[start]? = some '\x7b') {n : Nat}
    (h : closingBrace? text start = some (start + n)) : openBraces text start (n + 1) = 0 := by
  obtain ⟨k, hk, hclose⟩ := (closingBrace?_eq_some_iff hopen).mp h
  obtain rfl : n = k + 1 := by omega
  rw [openBraces_succ hopen]
  exact depth_eq_zero_of_closingFrom Nat.one_pos hk

/-- The number of open braces is never below zero on the way of the search. -/
theorem openBraces_nonneg (hopen : text[start]? = some '\x7b') {n : Nat}
    (h : ∀ close, closingBrace? text start = some close → start + n ≤ close + 1) :
    0 ≤ openBraces text start n := by
  rcases Nat.eq_zero_or_pos n with rfl | hn
  · exact Int.le_refl 0
  by_cases hend : ∃ close, closingBrace? text start = some close ∧ start + n = close + 1
  · obtain ⟨close, hclose, hlast⟩ := hend
    obtain ⟨m, rfl⟩ : ∃ m, n = m + 1 := ⟨n - 1, by omega⟩
    obtain rfl : close = start + m := by omega
    exact Int.le_of_eq (openBraces_eq_zero hopen hclose).symm
  · refine Int.le_of_lt (openBraces_pos hopen hn fun close hclose => ?_)
    have hle := h close hclose
    have hne : start + n ≠ close + 1 := fun heq => hend ⟨close, hclose, heq⟩
    omega

/-- The search ends at the first brace behind which none is open any more. -/
theorem closingBrace?_eq_some_add_iff (hopen : text[start]? = some '\x7b') {n : Nat} :
    closingBrace? text start = some (start + n) ↔
      openBraces text start (n + 1) = 0 ∧ ∀ m, 0 < m → m ≤ n → 0 < openBraces text start m := by
  constructor
  · intro h
    refine ⟨openBraces_eq_zero hopen h, fun m hm hle => openBraces_pos hopen hm ?_⟩
    intro close hclose
    rw [h] at hclose
    cases hclose
    omega
  · rintro ⟨hzero, hpos⟩
    -- the search ends not later, since a brace would still be open, and not earlier
    obtain ⟨close, hclose, hlt⟩ : ∃ close, closingBrace? text start = some close ∧
        close < start + (n + 1) := by
      by_contra hnone
      have hopened : 0 < openBraces text start (n + 1) :=
        openBraces_pos hopen (Nat.succ_pos n) fun close hclose =>
          Nat.le_of_not_lt fun hlt => hnone ⟨close, hclose, hlt⟩
      omega
    obtain ⟨k, -, rfl⟩ := (closingBrace?_eq_some_iff hopen).mp hclose
    have hk := openBraces_eq_zero hopen hclose
    have hend : k + 1 = n := by
      by_contra hne
      have hopened := hpos (k + 1 + 1) (by omega) (by omega)
      omega
    rw [hclose, hend]

end

/-! ### In JSON texts -/

/-- Between the braces of an object as many braces close as open. -/
theorem exists_passed_of_isObject {object : List Char} (h : IsObject object) :
    ∃ w, object = '\x7b' :: (w ++ ['\x7d']) ∧ Passed 1 w := by
  obtain ⟨ts, hts, hspells⟩ := h.spelled
  obtain ⟨us, hus, rfl⟩ := exists_skipped_of_formed hts
  obtain ⟨g, w, hg, hw, rfl⟩ := hus.of_object hspells
  cases g with
  | nil => exact ⟨w, rfl, hw⟩
  | cons c g =>
    obtain rfl : c = '\x7b' := by simpa using h.head
    exact absurd (hg _ List.mem_cons_self) (by decide)

/-- From the brace that opens an object the search goes on to the brace at its end. -/
theorem closingBrace?_of_isObject {inner : List Char}
    (h : IsObject ('\x7b' :: (inner ++ ['\x7d']))) (before rest : List Char) :
    closingBrace? (before ++ '\x7b' :: (inner ++ '\x7d' :: rest)) before.length =
      some (before.length + (inner.length + 1)) := by
  obtain ⟨w, hsplit, hw⟩ := exists_passed_of_isObject h
  obtain rfl : inner = w := List.append_cancel_right (List.cons.inj hsplit).2
  rw [closingBrace?, List.drop_left, hw.closingFrom_braces, Option.map_some]

/-- **The brace that closes an object is found.**  Wherever a brace opens in a JSON text, an object
    begins; from there the search goes on to the brace at the end of that object, whatever is
    written behind the text.  And from a brace that opens in any text at all, the number of open
    braces is never below zero on the way, and the search ends at the first brace behind which it
    is zero. -/
theorem closingBrace?_closes :
    (∀ (pre post : List Token) (text : List Char),
      Formed .value (pre ++ .mark '\x7b' :: post) → Made Blank (pre ++ .mark '\x7b' :: post) text →
      ∃ before inner after, text = before ++ '\x7b' :: (inner ++ '\x7d' :: after) ∧
        Made Blank pre before ∧ IsObject ('\x7b' :: (inner ++ ['\x7d'])) ∧
        ∀ rest, closingBrace? (text ++ rest) before.length =
          some (before.length + (inner.length + 1))) ∧
    ∀ (text : List Char) (start : Nat), text[start]? = some '\x7b' →
      (∀ n, (∀ close, closingBrace? text start = some close → start + n ≤ close + 1) →
        0 ≤ openBraces text start n) ∧
      ∀ n, closingBrace? text start = some (start + n) ↔ openBraces text start (n + 1) = 0 ∧
        ∀ m, 0 < m → m ≤ n → 0 < openBraces text start m := by
  refine ⟨fun pre post text hformed hmade => ?_, fun text start hopen => ⟨fun n => ?_, fun n => ?_⟩⟩
  · obtain ⟨before, behind, rfl, hbefore, hbehind⟩ := hmade.at_mark
    obtain ⟨object, after, hobject, hsplit⟩ := hformed.exists_isObject hbehind
    obtain ⟨inner, rfl, -⟩ := exists_passed_of_isObject hobject
    obtain rfl : behind = inner ++ '\x7d' :: after := by simpa using hsplit
    refine ⟨before, inner, after, rfl, hbefore, hobject, fun rest => ?_⟩
    have hclose := closingBrace?_of_isObject hobject before (after ++ rest)
    simpa using hclose
  · exact openBraces_nonneg hopen
  · exact closingBrace?_eq_some_add_iff hopen

/-- An array of an object and a number; the object has a brace and a quote in a key. -/
def nestedTokens : List Token :=
  [.mark '[', .mark '\x7b', .quoted ['a', '\x7d', '\\', '"'], .mark ':', .mark '\x7b',
    .mark '\x7d', .mark '\x7d', .mark ',', .word ['1'], .mark ']']

def nestedText : List Char :=
  nestedTokens.flatMap Token.text

/-- Neither the brace in the key nor that of the inner object closes the outer one. -/
theorem closingBrace?_nestedText :
    (Formed .value nestedTokens ∧ Made Blank nestedTokens nestedText ∧
      nestedText[1]? = some '\x7b') ∧
    (∃ before inner after, nestedText = before ++ '\x7b' :: (inner ++ '\x7d' :: after) ∧
      Made Blank [.mark '['] before ∧ IsObject ('\x7b' :: (inner ++ ['\x7d'])) ∧
      ∀ rest, closingBrace? (nestedText ++ rest) before.length =
        some (before.length + (inner.length + 1))) ∧
    (∀ n, (∀ close, closingBrace? nestedText 1 = some close → 1 + n ≤ close + 1) →
      0 ≤ openBraces nestedText 1 n) ∧
    closingBrace? nestedText 1 = some 11 := by
  have hformed : Formed .value nestedTokens :=
    .array (.item (.object (.lastMember _ .emptyObject)) (.lastItem (.word ['1'])))
  have hkey : Closed ['a', '\x7d', '\\', '"'] :=
    .plain (by decide) (by decide) (.plain (by decide) (by decide) (.escaped .nil))
  have hproper : ∀ t ∈ nestedTokens, t.Proper := by
    simp [nestedTokens, Token.Proper, hkey, isMark, isWordChar]
  have hmade : Made Blank nestedTokens nestedText :=
    ⟨[], blank_nil, spells_flatMap blank_nil hproper⟩
  have hopen : nestedText[1]? = some '\x7b' := by decide
  obtain ⟨hobject, hcount⟩ := closingBrace?_closes
  exact ⟨⟨hformed, hmade, hopen⟩, hobject [.mark '['] _ nestedText hformed hmade,
    (hcount nestedText 1 hopen).1, by decide⟩

end SourceWeb.Alias
