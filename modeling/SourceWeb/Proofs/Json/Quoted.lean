/-
  What may stand between the quotes of a string: characters that stand for themselves, and escapes.

  A string is read exactly if it is made of these, and read up to the quote at its end.
-/
import SourceWeb.Proofs.Json.Token
import SourceWeb.Proofs.Text.Digits

namespace SourceWeb.Json

open SourceWeb.Text

/-! ### Escapes -/

/-- Does the text behind a backslash stand for the character, whatever comes next? -/
structure Escapes (e : List Char) (c : Char) : Prop where
  reads : ∀ rest, escape (e ++ rest) = some (c, rest)
  no_comma : ',' ∉ e
  closed : ∀ raw, Closed raw → Closed ('\\' :: (e ++ raw))

theorem Closed.append {w raw : List Char} (hw : ∀ c ∈ w, c ≠ '"' ∧ c ≠ '\\') (h : Closed raw) :
    Closed (w ++ raw) := by
  induction w with
  | nil => exact h
  | cons c w ih =>
    obtain ⟨hquote, hback⟩ := hw c (by simp)
    exact .plain hquote hback (ih fun d hd => hw d (by simp [hd]))

theorem isDigitOf_ne {c d : Char} (hc : isDigitOf 16 c = false) (hd : isDigitOf 16 d = true) :
    d ≠ c := by
  rintro rfl
  simp [hc] at hd

theorem not_mem_digits {c : Char} (hc : isDigitOf 16 c = false) {ds : List Char}
    (hds : ∀ d ∈ ds, isDigitOf 16 d = true) : c ∉ ds :=
  fun h => isDigitOf_ne hc (hds c h) rfl

/-- Hexadecimal digits stand for themselves. -/
theorem closed_digits {ds raw : List Char} (hds : ∀ d ∈ ds, isDigitOf 16 d = true)
    (h : Closed raw) : Closed (ds ++ raw) :=
  .append (fun d hd => ⟨isDigitOf_ne (by decide) (hds d hd), isDigitOf_ne (by decide) (hds d hd)⟩) h

theorem exists_escapes_of_unicode {cs rest : List Char} {c : Char}
    (h : unicodeEscape cs = some (c, rest)) :
    ∃ e, cs = e ++ rest ∧ Escapes ('u' :: e) c ∧ '"' ∉ e := by
  have hcomma {ds : List Char} : (∀ d ∈ ds, isDigitOf 16 d = true) → ',' ∉ ds :=
    not_mem_digits (by decide)
  have hquote {ds : List Char} : (∀ d ∈ ds, isDigitOf 16 d = true) → '"' ∉ ds :=
    not_mem_digits (by decide)
  unfold unicodeEscape at h
  obtain ⟨⟨n, mid⟩, hn, hcode⟩ := Option.bind_eq_some_iff.mp h
  clear h
  obtain ⟨ds, rfl, hds, hread⟩ := fixedNumber_eq_some hn
  dsimp only at hcode
  split at hcode
  · simp at hcode
  rename_i hlow
  split at hcode
  · -- the first half of a pair
    rename_i hhigh
    split at hcode
    · rename_i mid
      obtain ⟨⟨m, end_⟩, hm, hpair⟩ := Option.bind_eq_some_iff.mp hcode
      clear hcode
      obtain ⟨ds', rfl, hds', hread'⟩ := fixedNumber_eq_some hm
      dsimp only at hpair
      split at hpair
      · rename_i hsecond
        obtain ⟨rfl, rfl⟩ := Prod.mk.inj (Option.some.inj hpair)
        refine ⟨ds ++ '\\' :: 'u' :: ds', by simp, ⟨fun more => ?_, ?_, fun raw hraw => ?_⟩, ?_⟩
        · simp only [List.cons_append, List.append_assoc, escape, unicodeEscape]
          simp [hread, hread', hlow, hhigh, hsecond]
        · simp [hcomma hds, hcomma hds']
        · simp only [List.cons_append, List.append_assoc]
          exact .escaped (closed_digits hds (.escaped (closed_digits hds' hraw)))
        · simp [hquote hds, hquote hds']
      · simp at hpair
    · simp at hcode
  · rename_i hhigh
    obtain ⟨rfl, rfl⟩ := Prod.mk.inj (Option.some.inj hcode)
    refine ⟨ds, rfl, ⟨fun more => ?_, ?_, fun raw hraw => .escaped (closed_digits hds hraw)⟩,
      hquote hds⟩
    · simp only [List.cons_append, escape, unicodeEscape]
      simp [hread, hlow, hhigh]
    · simp [hcomma hds]

theorem escapes_singleton {x c : Char} (hx : x ≠ ',')
    (hreads : ∀ more, escape (x :: more) = some (c, more)) : Escapes [x] c :=
  ⟨hreads, by simpa using hx.symm, fun _ hraw => .escaped hraw⟩

theorem exists_escapes {cs rest : List Char} {c : Char} (h : escape cs = some (c, rest)) :
    ∃ e, cs = e ++ rest ∧ Escapes e c := by
  unfold escape at h
  split at h
  case h_10 => simp at h
  case h_9 cs' =>
    obtain ⟨e, rfl, he, -⟩ := exists_escapes_of_unicode h
    exact ⟨'u' :: e, rfl, he⟩
  all_goals
    cases h
    exact ⟨[_], rfl, escapes_singleton (by decide) fun _ => rfl⟩

theorem Escapes.ne_nil {e : List Char} {c : Char} (h : Escapes e c) : e ≠ [] := by
  rintro rfl
  have hread := h.reads []
  simp [escape] at hread

/-- Only a quote is escaped with a quote. -/
theorem Escapes.eq_quote {e : List Char} {c : Char} (h : Escapes e c) (hmem : '"' ∈ e) :
    c = '"' := by
  have hread := h.reads []
  rw [List.append_nil] at hread
  unfold escape at hread
  split at hread
  case h_10 => simp at hread
  case h_9 cs =>
    obtain ⟨e, rfl, -, hquote⟩ := exists_escapes_of_unicode hread
    simp [hquote] at hmem
  all_goals
    cases hread
    first
    | rfl
    | simp at hmem

/-! ### Strings -/

/-- Do these characters, written between quotes, spell those? -/
inductive Body : List Char → List Char → Prop
  | nil : Body [] []
  | plain {c : Char} {raw s : List Char} : c ≠ '"' → c ≠ '\\' → ¬ c.toNat < 32 → Body raw s →
      Body (c :: raw) (c :: s)
  | escaped {c : Char} {e raw s : List Char} : Escapes e c → Body raw s →
      Body ('\\' :: (e ++ raw)) (c :: s)

/-- What needs no escape may stand for itself. -/
theorem body_of_plain {raw : List Char} (h : ∀ c ∈ raw, c ≠ '"' ∧ c ≠ '\\' ∧ ¬ c.toNat < 32) :
    Body raw raw := by
  induction raw with
  | nil => exact .nil
  | cons c raw ih =>
    obtain ⟨hquote, hback, hcontrol⟩ := h c (by simp)
    exact .plain hquote hback hcontrol (ih fun d hd => h d (by simp [hd]))

theorem Body.closed {raw s : List Char} (h : Body raw s) : Closed raw := by
  induction h with
  | nil => exact .nil
  | plain hquote hback _ _ ih => exact .plain hquote hback ih
  | escaped he _ ih => exact he.closed _ ih

theorem Body.length_le {raw s : List Char} (h : Body raw s) : s.length ≤ raw.length := by
  induction h with
  | nil => exact Nat.le_refl 0
  | plain _ _ _ _ ih => exact Nat.succ_le_succ ih
  | escaped _ _ ih =>
    simp only [List.length_cons, List.length_append]
    omega

theorem Body.quote_mem {raw s : List Char} (h : Body raw s) (hmem : '"' ∈ raw) : '"' ∈ s := by
  induction h with
  | nil => exact hmem
  | plain hquote _ _ _ ih =>
    rcases List.mem_cons.mp hmem with heq | hmem
    · exact absurd heq.symm hquote
    · exact List.mem_cons_of_mem _ (ih hmem)
  | escaped he _ ih =>
    rw [List.mem_cons, List.mem_append] at hmem
    rcases hmem with hback | hmem | hmem
    · exact absurd hback (by decide)
    · rw [he.eq_quote hmem]
      exact List.mem_cons_self
    · exact List.mem_cons_of_mem _ (ih hmem)

/-- What stands in front of the first quote is the string only if nothing is escaped in it. -/
theorem Body.takeWhile_eq_iff {raw s : List Char} (h : Body raw s) :
    raw.takeWhile (· ≠ '"') = s ↔ '\\' ∉ raw := by
  induction h with
  | nil => simp
  | plain hquote hback _ _ ih =>
    rw [List.takeWhile_cons_of_pos (by simpa using hquote), List.cons.injEq, ih]
    simp [Ne.symm hback]
  | @escaped c e raw s he hbody _ =>
    refine iff_of_false ?_ (by simp)
    intro heq
    -- a quote would be one of the string, and without any the text is too long
    have hnone : '"' ∉ '\\' :: (e ++ raw) := by
      intro hmem
      have hquote := (Body.escaped he hbody).quote_mem hmem
      rw [← heq] at hquote
      simpa using List.mem_takeWhile_imp hquote
    rw [List.takeWhile_eq_self_iff.mpr] at heq
    · have hlength := congrArg List.length heq
      have hpos := List.length_pos_iff.mpr he.ne_nil
      have hle := hbody.length_le
      simp only [List.length_cons, List.length_append] at hlength
      omega
    · intro d hd
      simpa using ne_of_mem_of_not_mem hd hnone

theorem Body.stringTail {raw s : List Char} (h : Body raw s) {fuel : Nat}
    (hfuel : raw.length < fuel) (read rest : List Char) :
    Json.stringTail fuel read (raw ++ '"' :: rest) =
      some (String.ofList (read.reverse ++ s), rest) := by
  induction h generalizing fuel read with
  | nil =>
    obtain ⟨fuel, rfl⟩ := Nat.exists_eq_add_one_of_ne_zero (Nat.ne_of_gt hfuel)
    simp [Json.stringTail]
  | plain hquote hback hcontrol _ ih =>
    obtain ⟨fuel, rfl⟩ := Nat.exists_eq_add_one_of_ne_zero (Nat.ne_zero_of_lt hfuel)
    rw [List.cons_append, Json.stringTail]
    · rw [if_neg hcontrol, ih (by simpa using hfuel)]
      simp
    · exact fun h => hquote h
    · exact fun h => hback h
  | @escaped c e raw s he _ ih =>
    obtain ⟨fuel, rfl⟩ := Nat.exists_eq_add_one_of_ne_zero (Nat.ne_zero_of_lt hfuel)
    have hlength : raw.length < fuel := by
      simp only [List.length_cons, List.length_append] at hfuel
      omega
    rw [List.cons_append, List.append_assoc, Json.stringTail, he.reads]
    simp only [ih hlength]
    simp

theorem exists_body {fuel : Nat} {read cs rest : List Char} {text : String}
    (h : stringTail fuel read cs = some (text, rest)) : ∃ raw s, cs = raw ++ '"' :: rest ∧
      Body raw s ∧ text = String.ofList (read.reverse ++ s) := by
  induction fuel generalizing read cs with
  | zero => simp [stringTail] at h
  | succ fuel ih =>
    rw [stringTail.eq_def] at h
    dsimp only at h
    split at h
    · cases h
      exact ⟨[], [], rfl, .nil, by simp⟩
    · split at h
      · rename_i hescape
        obtain ⟨e, rfl, he⟩ := exists_escapes hescape
        obtain ⟨raw, s, rfl, hbody, rfl⟩ := ih h
        exact ⟨_, _, by simp, .escaped he hbody, by simp⟩
      · simp at h
    · rename_i hquote hback
      split at h
      · simp at h
      · rename_i hcontrol
        obtain ⟨raw, s, rfl, hbody, rfl⟩ := ih h
        exact ⟨_, _, rfl, .plain hquote hback hcontrol hbody, by simp⟩
    · simp at h

theorem Body.string {raw s : List Char} (h : Body raw s) (rest : List Char) :
    Json.string (raw ++ '"' :: rest) = some (String.ofList s, rest) := by
  refine h.stringTail ?_ [] rest
  simp only [List.length_append, List.length_cons]
  omega

theorem exists_body_of_string {cs rest : List Char} {text : String}
    (h : string cs = some (text, rest)) :
    ∃ raw s, cs = raw ++ '"' :: rest ∧ Body raw s ∧ text = String.ofList s :=
  exists_body h

end SourceWeb.Json
