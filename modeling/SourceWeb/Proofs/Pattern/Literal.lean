/-
  Patterns that begin with a text of their own.

  Such a pattern is found at the first place where that text stands, if it matches there.  A run of
  characters of one set has to be taken whole where nothing that follows it can begin with one of
  them.
-/
import Mathlib.Data.List.Basic
import SourceWeb.Proofs.Pattern.Takes

namespace SourceWeb.Pattern

/-! ### Places of a text -/

/-- The place behind some text and in front of the rest. -/
def Head.behind (before rest : List Char) : Head :=
  ⟨before.getLast?, rest, before.length⟩

/-- The first places of a text lead nowhere. -/
theorem findSome?_headsFrom {β : Type} (f : Head → Option β) {a b : List Char} (rest : List Char)
    (h : ∀ b₁ b₂, b = b₁ ++ b₂ → b₂ ≠ [] → f (.behind (a ++ b₁) (b₂ ++ rest)) = none) :
    (headsFrom a.getLast? a.length (b ++ rest)).findSome? f =
      (headsFrom (a ++ b).getLast? (a ++ b).length rest).findSome? f := by
  induction b generalizing a with
  | nil => simp
  | cons c b ih =>
    have hfirst := h [] (c :: b) rfl (by simp)
    rw [List.append_nil, Head.behind] at hfirst
    have hrest := ih (a := a ++ [c]) (by
      intro b₁ b₂ hb hne
      have hlater := h (c :: b₁) b₂ (by rw [hb]; rfl) hne
      rwa [List.append_cons] at hlater)
    rw [List.getLast?_concat, List.length_append, List.length_singleton, ← List.append_cons] at hrest
    rw [List.cons_append, headsFrom, List.findSome?_cons, ← List.cons_append, hfirst]
    exact hrest

/-- The match is found at the first place from which there is one. -/
theorem find?_of_first {p : Pattern} {before rest : List Char} {e : End}
    (hnone : ∀ a b, before = a ++ b → b ≠ [] →
      ways (before ++ rest).length p (.behind a (b ++ rest)) = [])
    (hsome : (ways (before ++ rest).length p (.behind before rest)).head? = some e) :
    p.find? (before ++ rest) =
      some (.between (.behind [] (before ++ rest)) (.behind before rest) e) := by
  have hskip := findSome?_headsFrom (a := []) (b := before)
    (fun h => (ways (before ++ rest).length p h).head?.map
      (Match.between (.behind [] (before ++ rest)) h)) rest
  rw [find?, ends_eq, List.findSome?_map]
  refine (hskip fun a b hab hne => ?_).trans ?_
  · rw [List.nil_append, hnone a b hab hne]
    rfl
  have hhead : ∃ hs, headsFrom before.getLast? before.length rest = .behind before rest :: hs := by
    cases rest <;> exact ⟨_, rfl⟩
  obtain ⟨hs, hhead⟩ := hhead
  rw [List.nil_append, hhead, List.findSome?_cons, hsome]
  rfl

/-! ### Texts -/

def letters (w : List Char) : Pattern :=
  all (w.map fun c => set (.oneOf [c]))

theorem ways_set_behind (n : Nat) (s : CharSet) (before : List Char) (c : Char)
    (rest : List Char) :
    ways n (set s) (.behind before (c :: rest)) =
      if s.has c then [⟨.behind (before ++ [c]) rest, []⟩] else [] := by
  rw [Head.behind, ways_set, Head.behind, List.getLast?_concat, List.length_append,
    List.length_singleton]

/-- A text is taken as it is. -/
theorem ways_letters (n : Nat) (q : Pattern) (before w rest : List Char) :
    ways n (seq (letters w) q) (.behind before (w ++ rest)) =
      ways n q (.behind (before ++ w) rest) := by
  induction w generalizing before with
  | nil =>
    rw [List.append_nil]
    exact ways_empty_seq n q _
  | cons c w ih =>
    have hstep : letters (c :: w) = seq (set (.oneOf [c])) (letters w) := rfl
    rw [hstep, ways_seq_assoc, ways_seq, List.cons_append, ways_set_behind]
    simp only [CharSet.has_oneOf, List.contains_cons, beq_self_eq_true, Bool.true_or, if_true,
      List.flatMap_singleton, after_nil, List.map_id]
    rw [ih, ← List.append_cons]

theorem ways_letter (n : Nat) (q : Pattern) (before : List Char) (c : Char) (rest : List Char) :
    ways n (seq (letters [c]) q) (.behind before (c :: rest)) =
      ways n q (.behind (before ++ [c]) rest) :=
  ways_letters n q before [c] rest

theorem ways_letters_eq_nil {n : Nat} {q : Pattern} {before w rest : List Char}
    (h : ¬ w <+: rest) : ways n (seq (letters w) q) (.behind before rest) = [] := by
  induction w generalizing before rest with
  | nil => exact absurd List.nil_prefix h
  | cons c w ih =>
    have hstep : letters (c :: w) = seq (set (.oneOf [c])) (letters w) := rfl
    rw [hstep, ways_seq_assoc, ways_seq]
    cases rest with
    | nil => rfl
    | cons d rest =>
      rw [ways_set_behind]
      by_cases hcd : d = c
      · subst hcd
        rw [List.cons_prefix_cons] at h
        simp [ih (fun hw => h ⟨rfl, hw⟩)]
      · simp [hcd]

/-! ### Runs of one set -/

/-- A run is taken whole, if nothing leads on from within it. -/
theorem flatMap_many {n : Nat} {s : CharSet} {β : Type} (k : Head → List β)
    (hk : ∀ before c rest, s.has c = true → k (.behind before (c :: rest)) = [])
    {g rest : List Char} (hg : ∀ c ∈ g, s.has c = true) (hrest : ∀ c ∈ rest.head?, s.has c = false)
    (before : List Char) :
    (ways n (many (set s)) (.behind before (g ++ rest))).flatMap (fun e => k e.head) =
      k (.behind (before ++ g) rest) := by
  induction g generalizing before with
  | nil =>
    rw [List.append_nil, List.nil_append]
    cases rest with
    | nil => simp [Head.behind, ways_many_nil]
    | cons c rest => simp [Head.behind, ways_many_cons, hrest c rfl]
  | cons c g ih =>
    obtain ⟨hc, hg⟩ := List.forall_mem_cons.mp hg
    have hinner := ih hg (before ++ [c])
    have hhere := hk before c (g ++ rest) hc
    rw [Head.behind] at hhere
    rw [Head.behind, List.getLast?_concat, List.length_append, List.length_singleton,
      ← List.append_cons] at hinner
    rw [Head.behind, List.cons_append, ways_many_cons, if_pos hc, List.flatMap_append, hinner,
      List.flatMap_singleton, hhere, List.append_nil]

/-- No way on begins with a character of the set. -/
def Shuns (n : Nat) (s : CharSet) (q : Pattern) : Prop :=
  ∀ before c rest, s.has c = true → ways n q (.behind before (c :: rest)) = []

theorem shuns_letters {n : Nat} {s : CharSet} {c : Char} (hc : s.has c = false) (w : List Char)
    (q : Pattern) : Shuns n s (seq (letters (c :: w)) q) := by
  intro before d rest hd
  refine ways_letters_eq_nil fun hbegin => ?_
  rw [List.cons_prefix_cons] at hbegin
  rw [hbegin.1, hd] at hc
  exact absurd hc (by simp)

section

variable {n : Nat} {s : CharSet} {q : Pattern} (hq : Shuns n s q) {g rest : List Char}
  (hg : ∀ c ∈ g, s.has c = true) (hrest : ∀ c ∈ rest.head?, s.has c = false)
  (before : List Char)

include hq hg hrest

theorem ways_many_seq :
    ways n (seq (many (set s)) q) (.behind before (g ++ rest)) =
      ways n q (.behind (before ++ g) rest) := by
  rw [ways_seq, ← flatMap_many (ways n q) hq hg hrest before]
  refine List.flatMap_congr fun e he => ?_
  rw [(takes_many n s _).quiet e he, after_nil, List.map_id]

/-- What a run takes is kept. -/
theorem ways_group_many_seq (k : Nat) :
    ways n (seq (group k (many (set s))) q) (.behind before (g ++ rest)) =
      (ways n q (.behind (before ++ g) rest)).map
        (End.after [.opens k (.behind before (g ++ rest)),
          .closes k (.behind (before ++ g) rest)]) := by
  have hgroup : ways n (group k (many (set s))) (.behind before (g ++ rest)) =
      (ways n (many (set s)) (.behind before (g ++ rest))).map fun e =>
        ⟨e.head, .opens k (.behind before (g ++ rest)) :: (e.events ++ [.closes k e.head])⟩ := rfl
  have hwhole := flatMap_many (fun h => (ways n q h).map
    (End.after [.opens k (.behind before (g ++ rest)), .closes k h])) (n := n) (s := s) (by
      intro before' c rest' hc
      rw [hq before' c rest' hc]
      rfl) hg hrest before
  rw [ways_seq, hgroup, List.flatMap_map, ← hwhole]
  refine List.flatMap_congr fun e he => ?_
  rw [(takes_many n s _).quiet e he]
  rfl

end

end SourceWeb.Pattern
