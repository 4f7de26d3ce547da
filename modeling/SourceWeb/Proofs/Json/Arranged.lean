/-
  What the reader makes of the members of an object.

  A document denotes a value whose members stand in the order in which they are written.  The reader
  gives this value with the members in the order of their keys, whatever the order in which they are
  written, and of several members with one key it keeps the last.
-/
import SourceWeb.Proofs.Json.Grammar
import SourceWeb.Proofs.Json.Written
import SourceWeb.Proofs.Text.Order

namespace SourceWeb.Json

open SourceWeb.Text

/-! ### Members in order -/

def Ascending {α : Type} (ms : List (String × α)) : Prop :=
  ms.Pairwise fun m n => precedes m.1 n.1 = true

theorem Ascending.eq_of_perm {α : Type} {ms ns : List (String × α)} (hms : Ascending ms)
    (hns : Ascending ns) (h : ms.Perm ns) : ms = ns := by
  apply h.eq_of_pairwise _ hms hns
  intro m n _ _ hmn hnm
  rw [precedes_asymm hmn] at hnm
  exact absurd hnm (by simp)

theorem lookup_cons_eq (k key : String) (v : Json) (ms : List (String × Json)) :
    List.lookup k ((key, v) :: ms) = if k = key then some v else ms.lookup k := by
  rw [List.lookup_cons]
  by_cases hk : k = key
  · simp [hk]
  · simp [hk, beq_eq_false_iff_ne.mpr hk]

theorem lookup_putMember (key : String) (v : Json) (ms : List (String × Json)) (k : String) :
    (putMember key v ms).lookup k = if k = key then some v else ms.lookup k := by
  induction ms with
  | nil => rw [putMember, lookup_cons_eq]
  | cons m ms ih =>
    obtain ⟨k', old⟩ := m
    rw [putMember]
    by_cases hsame : key = k'
    · subst hsame
      rw [if_pos rfl, lookup_cons_eq, lookup_cons_eq]
      split_ifs <;> rfl
    · rw [if_neg hsame]
      by_cases hbefore : precedes key k' = true
      · rw [if_pos hbefore, lookup_cons_eq]
      · rw [if_neg hbefore, lookup_cons_eq, lookup_cons_eq, ih]
        by_cases hk : k = k'
        · rw [if_pos hk, if_pos hk, if_neg fun heq => hsame (heq.symm.trans hk)]
        · rw [if_neg hk, if_neg hk]

theorem mem_putMember {key : String} {v : Json} {ms : List (String × Json)} {m : String × Json}
    (h : m ∈ putMember key v ms) : m = (key, v) ∨ m ∈ ms := by
  induction ms with
  | nil => simpa [putMember] using h
  | cons n ms ih =>
    obtain ⟨k, old⟩ := n
    rw [putMember] at h
    split_ifs at h <;> grind

theorem Ascending.putMember {key : String} {v : Json} {ms : List (String × Json)}
    (h : Ascending ms) : Ascending (Json.putMember key v ms) := by
  induction ms with
  | nil => exact List.pairwise_singleton _ _
  | cons m ms ih =>
    obtain ⟨k, old⟩ := m
    obtain ⟨hfirst, hrest⟩ := List.pairwise_cons.mp h
    rw [Json.putMember]
    split_ifs with hsame hbefore
    · subst hsame
      exact List.pairwise_cons.mpr ⟨hfirst, hrest⟩
    · refine List.pairwise_cons.mpr ⟨?_, h⟩
      intro n hn
      rcases List.mem_cons.mp hn with rfl | hn
      · exact hbefore
      · exact precedes_trans hbefore (hfirst n hn)
    · refine List.pairwise_cons.mpr ⟨?_, ih hrest⟩
      intro n hn
      rcases mem_putMember hn with rfl | hn
      · exact (precedes_or hsame).resolve_left hbefore
      · exact hfirst n hn

theorem putMember_perm {key : String} {v : Json} {ms : List (String × Json)}
    (h : ∀ m ∈ ms, m.1 ≠ key) : (putMember key v ms).Perm ((key, v) :: ms) := by
  induction ms with
  | nil => exact List.Perm.refl _
  | cons m ms ih =>
    obtain ⟨k, old⟩ := m
    obtain ⟨hk, hms⟩ := List.forall_mem_cons.mp h
    rw [putMember, if_neg (Ne.symm hk)]
    split_ifs
    · exact List.Perm.refl _
    · exact ((ih hms).cons _).trans (List.Perm.swap _ _ _)

/-- The members put in order behind those read before. -/
def arrange (read : List (String × Json)) (ms : List (String × Json)) : List (String × Json) :=
  ms.foldl (fun read m => putMember m.1 m.2 read) read

/-- The value of a key, the last one if there are several. -/
def last? (v : Json) (key : String) : Option Json :=
  v.members?.bind fun ms => ms.reverse.lookup key

theorem Ascending.arrange {read ms : List (String × Json)} (h : Ascending read) :
    Ascending (Json.arrange read ms) := by
  induction ms generalizing read with
  | nil => exact h
  | cons m ms ih => exact ih h.putMember

theorem lookup_arrange (read ms : List (String × Json)) (key : String) :
    (arrange read ms).lookup key = (ms.reverse.lookup key).or (read.lookup key) := by
  induction ms generalizing read with
  | nil => simp [arrange]
  | cons m ms ih =>
    obtain ⟨k, v⟩ := m
    have hstep : arrange read ((k, v) :: ms) = arrange (putMember k v read) ms := rfl
    rw [hstep, ih, lookup_putMember, List.reverse_cons, List.lookup_append]
    cases ms.reverse.lookup key with
    | some found => rfl
    | none =>
      rw [Option.none_or, lookup_cons_eq]
      split_ifs <;> simp

theorem arrange_perm {read ms : List (String × Json)} (hnew : ∀ m ∈ read, ∀ n ∈ ms, m.1 ≠ n.1)
    (hms : (ms.map Prod.fst).Nodup) : (arrange read ms).Perm (read ++ ms) := by
  induction ms generalizing read with
  | nil =>
    rw [List.append_nil]
    exact List.Perm.refl _
  | cons n ms ih =>
    obtain ⟨hn, hrest⟩ := List.nodup_cons.mp hms
    have hput : (putMember n.1 n.2 read).Perm (n :: read) :=
      putMember_perm fun m hm => hnew m hm n (by simp)
    have harrange : (arrange (putMember n.1 n.2 read) ms).Perm (putMember n.1 n.2 read ++ ms) := by
      apply ih _ hrest
      intro m hm n' hn'
      rcases List.mem_cons.mp (hput.subset hm) with rfl | hm
      · intro heq
        exact hn (heq ▸ List.mem_map_of_mem hn')
      · exact hnew m hm n' (by simp [hn'])
    exact harrange.trans ((hput.append_right ms).trans List.perm_middle.symm)

/-! ### Values as the reader gives them -/

mutual

/-- The value with the members of every object in order. -/
def settled : Json → Json
  | arr items => arr (settledItems items)
  | obj members => obj (arrange [] (settledMembers members))
  | null => null
  | bool b => bool b
  | num text => num text
  | str s => str s

def settledItems : List Json → List Json
  | [] => []
  | v :: vs => settled v :: settledItems vs

def settledMembers : List (String × Json) → List (String × Json)
  | [] => []
  | (k, v) :: ms => (k, settled v) :: settledMembers ms

end

theorem settledItems_eq (vs : List Json) : settledItems vs = vs.map settled := by
  induction vs with
  | nil => rfl
  | cons v vs ih => rw [settledItems, ih, List.map_cons]

theorem settledMembers_eq (ms : List (String × Json)) :
    settledMembers ms = ms.map fun m => (m.1, settled m.2) := by
  induction ms with
  | nil => rfl
  | cons m ms ih => rw [settledMembers, ih, List.map_cons]

theorem lookup_map_snd (f : Json → Json) (ms : List (String × Json)) (key : String) :
    (ms.map fun m => (m.1, f m.2)).lookup key = (ms.lookup key).map f := by
  induction ms with
  | nil => rfl
  | cons m ms ih =>
    rw [List.map_cons, List.lookup_cons, List.lookup_cons, ih]
    cases key == m.1 <;> rfl

/-- The reader gives the last value of a key. -/
theorem get?_settled (v : Json) (key : String) :
    v.settled.get? key = (v.last? key).map settled := by
  cases v with
  | obj ms =>
    have hlookup := lookup_map_snd settled ms.reverse key
    rw [List.map_reverse, ← settledMembers_eq] at hlookup
    simp only [settled, get?, last?, members?, Option.bind_some]
    rw [lookup_arrange, hlookup]
    simp
  | null | bool _ | num _ | str _ | arr _ => rfl

/-! ### Single tokens -/

theorem Body.inj {raw s s' : List Char} (h : Body raw s) (h' : Body raw s') : s = s' := by
  have heq := (h.string []).symm.trans (h'.string [])
  exact String.ofList_inj.mp (Prod.mk.inj (Option.some.inj heq)).1

theorem text_of_number {w : List Char} {s : String} (h : number w = some (s, [])) :
    s = String.ofList w := by
  rw [number_eq] at h
  obtain ⟨⟨n, rest⟩, -, h⟩ := Option.bind_eq_some_iff.mp h
  dsimp only at h
  split at h
  · obtain ⟨rfl, rfl⟩ := Prod.mk.inj (Option.some.inj h)
    simp [upTo]
  · simp at h

theorem isNumber_of_number {w : List Char} {s : String} (h : number w = some (s, [])) :
    IsNumber w := by
  rw [number_eq] at h
  obtain ⟨⟨n, rest⟩, hread, h⟩ := Option.bind_eq_some_iff.mp h
  dsimp only at h
  split at h
  · obtain ⟨-, rfl⟩ := Prod.mk.inj (Option.some.inj h)
    exact ⟨n, hread⟩
  · simp at h

theorem not_isNumber_name : ¬ IsNumber ['t', 'r', 'u', 'e'] ∧
    ¬ IsNumber ['f', 'a', 'l', 's', 'e'] ∧ ¬ IsNumber ['n', 'u', 'l', 'l'] := by
  refine ⟨?_, ?_, ?_⟩
  all_goals
    rintro ⟨n, hn⟩
    simp [unsigned, Numeral.read, Numeral.readWhole, Numeral.plainRun] at hn

theorem Reads.of_word {depth : Nat} {v : Json} {text : List Char}
    (h : Reads depth (.value v) [.word text]) :
    (v = .bool true ∧ text = ['t', 'r', 'u', 'e']) ∨
      (v = .bool false ∧ text = ['f', 'a', 'l', 's', 'e']) ∨
      (v = .null ∧ text = ['n', 'u', 'l', 'l']) ∨
      (v = .num (String.ofList text) ∧ IsNumber text) := by
  generalize hts : [Token.word text] = ts at h
  cases h with
  | yes => exact .inl ⟨rfl, by simpa using hts⟩
  | no => exact .inr (.inl ⟨rfl, by simpa using hts⟩)
  | null => exact .inr (.inr (.inl ⟨rfl, by simpa using hts⟩))
  | number hnumber =>
    cases hts
    rw [text_of_number hnumber]
    exact .inr (.inr (.inr ⟨rfl, isNumber_of_number hnumber⟩))
  | quoted _ | emptyArray | array _ | emptyObject | object _ => simp at hts

/-- A word denotes one value. -/
theorem Denotes.reads_word {w : Json} {text : List Char} (h : Denotes w [.word text]) {depth : Nat}
    {v : Json} (hv : Reads depth (.value v) [.word text]) : v = w.settled := by
  obtain ⟨htrue, hfalse, hnull⟩ := not_isNumber_name
  generalize hts : [Token.word text] = ts at h
  cases h with
  | null =>
    cases hts
    rcases hv.of_word with ⟨-, heq⟩ | ⟨-, heq⟩ | ⟨rfl, -⟩ | ⟨-, hnumber⟩
    · simp at heq
    · simp at heq
    · rfl
    · exact absurd hnumber hnull
  | yes =>
    cases hts
    rcases hv.of_word with ⟨rfl, -⟩ | ⟨-, heq⟩ | ⟨-, heq⟩ | ⟨-, hnumber⟩
    · rfl
    · simp at heq
    · simp at heq
    · exact absurd hnumber htrue
  | no =>
    cases hts
    rcases hv.of_word with ⟨-, heq⟩ | ⟨rfl, -⟩ | ⟨-, heq⟩ | ⟨-, hnumber⟩
    · simp at heq
    · rfl
    · simp at heq
    · exact absurd hnumber hfalse
  | num hnumber =>
    cases hts
    rcases hv.of_word with ⟨-, heq⟩ | ⟨-, heq⟩ | ⟨-, heq⟩ | ⟨rfl, -⟩
    · exact absurd (heq ▸ hnumber) htrue
    · exact absurd (heq ▸ hnumber) hfalse
    · exact absurd (heq ▸ hnumber) hnull
    · rw [String.ofList_toList, settled]
  | str _ | arr _ | obj _ => simp at hts

/-- A value that starts with a token which opens nothing is that token. -/
theorem Denotes.eq_singleton {w : Json} {t : Token} {ts xs ys : List Token} (h : Denotes w ts)
    (ht : t.opens = false) (heq : ts ++ xs = t :: ys) : ts = [t] := by
  cases h with
  | null | yes | no | num _ | str _ => rw [(List.cons.inj heq).1]
  | arr _ | obj _ =>
    rw [← (List.cons.inj heq).1] at ht
    exact absurd ht (by decide)

/-! ### How documents stand together -/

theorem DenotesItems.eq_nil_iff {vs : List Json} {pieces : List (List Token)}
    (h : DenotesItems vs pieces) : vs = [] ↔ pieces = [] := by
  cases h <;> simp

theorem DenotesMembers.eq_nil_iff {ms : List (String × Json)} {pieces : List (List Token)}
    (h : DenotesMembers ms pieces) : ms = [] ↔ pieces = [] := by
  cases h <;> simp

/-- Pieces with commas in between stand together as the pieces do. -/
theorem fitting_intercalate {ts : List Token} {pieces : List (List Token)} (h : Fitting ts)
    (hpieces : pieces ≠ [] → Fitting ([.mark ','].intercalate pieces)) :
    Fitting ([.mark ','].intercalate (ts :: pieces)) := by
  cases pieces with
  | nil =>
    rw [List.intercalate_singleton]
    exact h
  | cons us pieces =>
    rw [List.intercalate_cons_cons, List.append_assoc]
    exact h.append_comma (hpieces (by simp))

mutual

theorem Denotes.fitting {v : Json} {ts : List Token} (h : Denotes v ts) : Fitting ts := by
  cases h with
  | null | yes | no | num _ | str _ => exact fitting_singleton rfl (by simp)
  | @arr items pieces hitems =>
    by_cases hne : pieces = []
    · subst hne
      exact (fitting_singleton (by decide) (by decide)).append_closing (by decide)
    · exact ((hitems.fitting hne).append_closing (by decide)).cons (by decide) (by decide) rfl
  | @obj members pieces hmembers =>
    by_cases hne : pieces = []
    · subst hne
      exact (fitting_singleton (by decide) (by decide)).append_closing (by decide)
    · exact ((hmembers.fitting hne).append_closing (by decide)).cons (by decide) (by decide) rfl

theorem DenotesItems.fitting {vs : List Json} {pieces : List (List Token)}
    (h : DenotesItems vs pieces) (hne : pieces ≠ []) :
    Fitting ([.mark ','].intercalate pieces) := by
  cases h with
  | nil => exact absurd rfl hne
  | cons hv hvs => exact fitting_intercalate hv.fitting hvs.fitting

theorem DenotesMembers.fitting {ms : List (String × Json)} {pieces : List (List Token)}
    (h : DenotesMembers ms pieces) (hne : pieces ≠ []) :
    Fitting ([.mark ','].intercalate pieces) := by
  cases h with
  | nil => exact absurd rfl hne
  | cons _ hv hms =>
    refine fitting_intercalate ?_ hms.fitting
    exact (hv.fitting.cons (by decide) (by decide) rfl).cons (by rfl) (by simp) rfl

end

/-! ### One reading of a document -/

/-- What fits does not begin with a closing mark. -/
theorem Fitting.ne_closing {ts xs ys : List Token} (h : Fitting ts) {c : Char}
    (hc : (Token.mark c).closes = true) : ts ++ xs ≠ .mark c :: ys := by
  intro heq
  obtain ⟨t, ts, rfl⟩ := List.exists_cons_of_ne_nil h.ne_nil
  obtain ⟨rfl, -⟩ := List.cons.inj heq
  simpa [hc] using h.head

/-- Are the tokens read as what they denote, however they are written within others? -/
def ReadInOrder : Form → List Token → Prop
  | .value v, us => ∀ w ts xs ys, Denotes w ts → ts ++ xs = us ++ ys → us = ts ∧ v = w.settled
  | .items vs, us => ∀ ws pieces xs ys, DenotesItems ws pieces → ws ≠ [] →
      [.mark ','].intercalate pieces ++ .mark ']' :: xs = us ++ .mark ']' :: ys →
      us = [.mark ','].intercalate pieces ∧ vs = settledItems ws
  | .members read ns, us => ∀ ms pieces xs ys, DenotesMembers ms pieces → ms ≠ [] →
      [.mark ','].intercalate pieces ++ .mark '\x7d' :: xs = us ++ .mark '\x7d' :: ys →
      us = [.mark ','].intercalate pieces ∧ ns = arrange read (settledMembers ms)

theorem readInOrder_word (depth : Nat) {v : Json} {text : List Char}
    (h : Reads depth (.value v) [.word text]) : ReadInOrder (.value v) [.word text] := by
  intro w ts xs ys hw heq
  obtain rfl := hw.eq_singleton rfl heq
  exact ⟨rfl, hw.reads_word h⟩

theorem readInOrder_quoted {raw s : List Char} (h : Body raw s) :
    ReadInOrder (.value (.str (String.ofList s))) [.quoted raw] := by
  intro w ts xs ys hw heq
  obtain rfl := hw.eq_singleton rfl heq
  refine ⟨rfl, ?_⟩
  generalize hts : [Token.quoted raw] = ts at hw
  cases hw with
  | str h' =>
    cases hts
    rw [h.inj h', String.ofList_toList, settled]
  | null | yes | no | num _ | arr _ | obj _ => simp at hts

theorem readInOrder_emptyArray : ReadInOrder (.value (.arr [])) [.mark '[', .mark ']'] := by
  intro w ts xs ys hw heq
  cases hw with
  | @arr items pieces hitems =>
    by_cases hne : pieces = []
    · obtain rfl := hitems.eq_nil_iff.mpr hne
      subst hne
      exact ⟨rfl, rfl⟩
    · simp only [List.cons_append, List.append_assoc, List.nil_append, List.cons.injEq,
        true_and] at heq
      exact absurd heq ((hitems.fitting hne).ne_closing rfl)
  | null | yes | no | num _ | str _ | obj _ => simp at heq

theorem readInOrder_array {depth : Nat} {vs : List Json} {us : List Token}
    (hvs : Reads depth (.items vs) us) (h : ReadInOrder (.items vs) us) :
    ReadInOrder (.value (.arr vs)) (.mark '[' :: (us ++ [.mark ']'])) := by
  intro w ts xs ys hw heq
  cases hw with
  | @arr items pieces hitems =>
    simp only [List.cons_append, List.append_assoc, List.nil_append, List.cons.injEq,
      true_and] at heq
    by_cases hne : items = []
    · obtain rfl := hitems.eq_nil_iff.mp hne
      exact absurd heq.symm (hvs.fitting.ne_closing rfl)
    · obtain ⟨rfl, rfl⟩ := h _ _ _ _ hitems hne heq
      exact ⟨rfl, rfl⟩
  | null | yes | no | num _ | str _ | obj _ => simp at heq

theorem readInOrder_emptyObject :
    ReadInOrder (.value (.obj [])) [.mark '\x7b', .mark '\x7d'] := by
  intro w ts xs ys hw heq
  cases hw with
  | @obj members pieces hmembers =>
    by_cases hne : pieces = []
    · obtain rfl := hmembers.eq_nil_iff.mpr hne
      subst hne
      exact ⟨rfl, rfl⟩
    · simp only [List.cons_append, List.append_assoc, List.nil_append, List.cons.injEq,
        true_and] at heq
      exact absurd heq ((hmembers.fitting hne).ne_closing rfl)
  | null | yes | no | num _ | str _ | arr _ => simp at heq

theorem readInOrder_object {depth : Nat} {ns : List (String × Json)} {us : List Token}
    (hns : Reads depth (.members [] ns) us) (h : ReadInOrder (.members [] ns) us) :
    ReadInOrder (.value (.obj ns)) (.mark '\x7b' :: (us ++ [.mark '\x7d'])) := by
  intro w ts xs ys hw heq
  cases hw with
  | @obj members pieces hmembers =>
    simp only [List.cons_append, List.append_assoc, List.nil_append, List.cons.injEq,
      true_and] at heq
    by_cases hne : members = []
    · obtain rfl := hmembers.eq_nil_iff.mp hne
      exact absurd heq.symm (hns.fitting.ne_closing rfl)
    · obtain ⟨rfl, rfl⟩ := h _ _ _ _ hmembers hne heq
      exact ⟨rfl, rfl⟩
  | null | yes | no | num _ | str _ | arr _ => simp at heq

theorem readInOrder_lastItem {v : Json} {us : List Token} (h : ReadInOrder (.value v) us) :
    ReadInOrder (.items [v]) us := by
  intro ws pieces xs ys hws hne heq
  cases hws with
  | nil => exact absurd rfl hne
  | @cons w ws ts pieces hw hws =>
    cases pieces with
    | nil =>
      obtain rfl := hws.eq_nil_iff.mpr rfl
      rw [List.intercalate_singleton] at heq ⊢
      obtain ⟨rfl, rfl⟩ := h _ _ _ _ hw heq
      exact ⟨rfl, rfl⟩
    | cons ts' pieces =>
      rw [List.intercalate_cons_cons, List.append_assoc, List.append_assoc] at heq
      obtain ⟨rfl, -⟩ := h _ _ _ _ hw heq
      simp at heq

theorem readInOrder_item {v : Json} {vs : List Json} {us us' : List Token}
    (h : ReadInOrder (.value v) us) (h' : ReadInOrder (.items vs) us') :
    ReadInOrder (.items (v :: vs)) (us ++ .mark ',' :: us') := by
  intro ws pieces xs ys hws hne heq
  rw [List.append_assoc] at heq
  cases hws with
  | nil => exact absurd rfl hne
  | @cons w ws ts pieces hw hws =>
    cases pieces with
    | nil =>
      rw [List.intercalate_singleton] at heq
      obtain ⟨rfl, -⟩ := h _ _ _ _ hw heq
      simp at heq
    | cons ts' pieces =>
      rw [List.intercalate_cons_cons, List.append_assoc, List.append_assoc] at heq
      rw [List.intercalate_cons_cons, List.append_assoc]
      obtain ⟨rfl, rfl⟩ := h _ _ _ _ hw heq
      have hrest := (List.cons.inj (List.append_cancel_left heq)).2
      obtain ⟨rfl, rfl⟩ := h' _ _ _ _ hws (mt hws.eq_nil_iff.mp (by simp)) hrest
      exact ⟨rfl, rfl⟩

theorem readInOrder_lastMember {read : List (String × Json)} {raw key : List Char} {v : Json}
    {us : List Token} (hkey : Body raw key) (h : ReadInOrder (.value v) us) :
    ReadInOrder (.members read (putMember (String.ofList key) v read))
      (.quoted raw :: .mark ':' :: us) := by
  intro ms pieces xs ys hms hne heq
  cases hms with
  | nil => exact absurd rfl hne
  | @cons key' raw' w ms ts pieces hkey' hw hms =>
    cases pieces with
    | nil =>
      obtain rfl := hms.eq_nil_iff.mpr rfl
      rw [List.intercalate_singleton] at heq ⊢
      simp only [List.cons_append, List.cons.injEq, Token.quoted.injEq, true_and] at heq
      obtain ⟨rfl, heq⟩ := heq
      obtain ⟨rfl, rfl⟩ := h _ _ _ _ hw heq
      rw [hkey.inj hkey', String.ofList_toList]
      exact ⟨rfl, rfl⟩
    | cons ts' pieces =>
      rw [List.intercalate_cons_cons, List.append_assoc, List.append_assoc] at heq
      simp only [List.cons_append, List.cons.injEq, true_and] at heq
      obtain ⟨rfl, -⟩ := h _ _ _ _ hw heq.2
      simp at heq

theorem readInOrder_member {read ns : List (String × Json)} {raw key : List Char} {v : Json}
    {us us' : List Token} (hkey : Body raw key) (h : ReadInOrder (.value v) us)
    (h' : ReadInOrder (.members (putMember (String.ofList key) v read) ns) us') :
    ReadInOrder (.members read ns) (.quoted raw :: .mark ':' :: (us ++ .mark ',' :: us')) := by
  intro ms pieces xs ys hms hne heq
  cases hms with
  | nil => exact absurd rfl hne
  | @cons key' raw' w ms ts pieces hkey' hw hms =>
    cases pieces with
    | nil =>
      rw [List.intercalate_singleton] at heq
      simp only [List.cons_append, List.append_assoc, List.cons.injEq, true_and] at heq
      obtain ⟨rfl, -⟩ := h _ _ _ _ hw heq.2
      simp at heq
    | cons ts' pieces =>
      rw [List.intercalate_cons_cons, List.append_assoc, List.append_assoc] at heq
      rw [List.intercalate_cons_cons, List.append_assoc]
      simp only [List.cons_append, List.append_assoc, List.cons.injEq, Token.quoted.injEq,
        true_and] at heq
      obtain ⟨rfl, heq⟩ := heq
      obtain ⟨rfl, rfl⟩ := h _ _ _ _ hw heq
      have hrest := (List.cons.inj (List.append_cancel_left heq)).2
      obtain ⟨rfl, rfl⟩ := h' _ _ _ _ hms (mt hms.eq_nil_iff.mp (by simp)) hrest
      rw [hkey.inj hkey', String.ofList_toList]
      exact ⟨rfl, rfl⟩

theorem Reads.inOrder {depth : Nat} {form : Form} {us : List Token} (h : Reads depth form us) :
    ReadInOrder form us := by
  induction h with
  | quoted hbody => exact readInOrder_quoted hbody
  | yes => exact readInOrder_word 0 .yes
  | no => exact readInOrder_word 0 .no
  | null => exact readInOrder_word 0 .null
  | number hnumber => exact readInOrder_word 0 (.number hnumber)
  | emptyArray => exact readInOrder_emptyArray
  | array hvs ih => exact readInOrder_array hvs ih
  | emptyObject => exact readInOrder_emptyObject
  | object hns ih => exact readInOrder_object hns ih
  | lastItem _ ih => exact readInOrder_lastItem ih
  | item _ _ ih ih' => exact readInOrder_item ih ih'
  | lastMember hkey _ ih => exact readInOrder_lastMember hkey ih
  | member hkey _ _ ih ih' => exact readInOrder_member hkey ih ih'

/-- **The reader gives a document in order.**  What it accepts as made of the tokens that denote a
    value is this value, with the members of every object in the order of their keys, the last one
    of those with the same key. -/
theorem ofChars?_eq_settled {w v : Json} {ts : List Token} {cs : List Char} (hw : Denotes w ts)
    (h : Made Blank ts cs) (hv : ofChars? cs = some v) : v = w.settled := by
  have hseparate : Separate ts := hw.fitting.chain.imp fun _ _ => And.right
  have hreads := (ofChars?_eq_some_iff hseparate h).mp hv
  exact (hreads.inOrder w ts [] [] hw rfl).2

end SourceWeb.Json
