/-
  The first way of a pattern.

  What a search finds is the first of all ways in which a pattern can match.  Where every part of
  a pattern first of all takes the piece of a text that is meant for it, the pattern first of all
  takes these pieces one behind the other, whatever other ways there are.  There is one lemma for
  each kind of part, with an arbitrary text behind the piece.  Main statement: what a pattern for
  a line keeps of a line that is cut like this.
-/
import SourceWeb.Proofs.Pattern.Lines
import SourceWeb.Proofs.Pattern.Literal

namespace SourceWeb.Pattern

open SourceWeb.Text

/-- Behind `a` and in front of `b`, does the pattern first of all take `m`, and pass nothing on its
    way? -/
def TakesFirst (p : Pattern) (a m b : List Char) : Prop :=
  ∀ n, (ways n p (.behind a (m ++ b))).head? = some ⟨.behind (a ++ m) b, []⟩

section

variable {p q : Pattern} {a m m' b : List Char}

/-! ### One part behind the other -/

theorem head?_ways_seq {n : Nat} {h : Head} {e e' : End} (hp : (ways n p h).head? = some e)
    (hq : (ways n q e.head).head? = some e') :
    (ways n (seq p q) h).head? = some (e'.after e.events) := by
  obtain ⟨others, hways⟩ := List.head?_eq_some_iff.mp hp
  rw [ways_seq, hways, List.flatMap_cons, List.head?_append, List.head?_map, hq]
  rfl

theorem takesFirst_empty (a b : List Char) : TakesFirst empty a [] b := by
  intro n
  rw [List.append_nil]
  rfl

theorem TakesFirst.seq (hp : TakesFirst p a m (m' ++ b)) (hq : TakesFirst q (a ++ m) m' b) :
    TakesFirst (seq p q) a (m ++ m') b := by
  intro n
  rw [List.append_assoc, head?_ways_seq (hp n) (hq n), List.append_assoc]
  rfl

theorem takesFirst_nil (a b : List Char) : TakesFirst (all []) a [] b :=
  takesFirst_empty a b

theorem TakesFirst.cons {ps : List Pattern} (hp : TakesFirst p a m (m' ++ b))
    (hps : TakesFirst (all ps) (a ++ m) m' b) : TakesFirst (all (p :: ps)) a (m ++ m') b :=
  hp.seq hps

theorem TakesFirst.skip {ps : List Pattern} (hp : TakesFirst p a [] (m ++ b))
    (hps : TakesFirst (all ps) a m b) : TakesFirst (all (p :: ps)) a m b := by
  rw [← List.append_nil a] at hps
  exact TakesFirst.cons hp hps

theorem takesFirst_singleton (hp : TakesFirst p a m b) : TakesFirst (all [p]) a m b := by
  have hlast : TakesFirst (all [p]) a (m ++ []) b :=
    TakesFirst.cons hp (takesFirst_nil (a ++ m) b)
  rwa [List.append_nil] at hlast

/-! ### Alternatives -/

theorem TakesFirst.left (hp : TakesFirst p a m b) : TakesFirst (alt p q) a m b := by
  intro n
  have halt : ways n (alt p q) (.behind a (m ++ b)) =
      ways n p (.behind a (m ++ b)) ++ ways n q (.behind a (m ++ b)) := rfl
  rw [halt, List.head?_append, hp n]
  rfl

theorem TakesFirst.right (hp : ∀ n, ways n p (.behind a (m ++ b)) = [])
    (hq : TakesFirst q a m b) : TakesFirst (alt p q) a m b := by
  intro n
  have halt : ways n (alt p q) (.behind a (m ++ b)) =
      ways n p (.behind a (m ++ b)) ++ ways n q (.behind a (m ++ b)) := rfl
  rw [halt, hp n, List.nil_append, hq n]

theorem TakesFirst.optional (hp : TakesFirst p a m b) : TakesFirst (optional p) a m b := by
  intro n
  rw [ways_optional, List.head?_append, hp n]
  rfl

theorem takesFirst_optional_nil (hp : ∀ n, ways n p (.behind a b) = []) :
    TakesFirst (optional p) a [] b := by
  intro n
  rw [ways_optional, List.nil_append, hp n, List.append_nil]
  rfl

/-! ### Characters -/

theorem takesFirst_place {q : Place} (h : (Head.behind a b).satisfies q = true) :
    TakesFirst (place q) a [] b := by
  intro n
  rw [ways_place, List.nil_append, if_pos h, List.append_nil]
  rfl

theorem takesFirst_set {s : CharSet} {c : Char} (hc : s.has c = true) (a b : List Char) :
    TakesFirst (set s) a [c] b := by
  intro n
  rw [List.singleton_append, ways_set_behind, if_pos hc]
  rfl

theorem takesFirst_sets {sets : List CharSet} {w : List Char}
    (h : List.Forall₂ (fun s c => s.has c = true) sets w) (a b : List Char) :
    TakesFirst (all (sets.map set)) a w b := by
  induction h generalizing a with
  | nil => exact takesFirst_nil a b
  | cons hc _ ih => exact TakesFirst.cons (takesFirst_set hc a _) (ih _)

theorem takesFirst_letters (w a b : List Char) : TakesFirst (letters w) a w b := by
  intro n
  rw [← ways_seq_empty, ways_letters]
  rfl

theorem ways_set_eq_nil {n : Nat} {s : CharSet} (h : ∀ c ∈ b.head?, s.has c = false) :
    ways n (set s) (.behind a b) = [] := by
  cases b with
  | nil => rfl
  | cons c b => rw [ways_set_behind, h c rfl, if_neg Bool.false_ne_true]

theorem ways_cons_eq_nil {n : Nat} {ps : List Pattern} {h : Head} (hp : ways n p h = []) :
    ways n (all (p :: ps)) h = [] := by
  have hseq : ways n (all (p :: ps)) h =
      (ways n p h).flatMap fun e => (ways n (all ps) e.head).map (End.after e.events) := rfl
  rw [hseq, hp, List.flatMap_nil]

/-! ### Runs -/

/-- A run is taken up to its end. -/
theorem takesFirst_many {s : CharSet} (hm : ∀ c ∈ m, s.has c = true)
    (hb : ∀ c ∈ b.head?, s.has c = false) (a : List Char) : TakesFirst (many (set s)) a m b := by
  intro n
  induction m generalizing a with
  | nil =>
    rw [List.nil_append, List.append_nil]
    cases b with
    | nil =>
      rw [Head.behind, ways_many_nil]
      rfl
    | cons c b =>
      rw [Head.behind, ways_many_cons, hb c rfl]
      rfl
  | cons c m ih =>
    obtain ⟨hc, hm⟩ := List.forall_mem_cons.mp hm
    have hmore := ih hm (a ++ [c])
    rw [Head.behind, List.getLast?_concat, List.length_append, List.length_singleton,
      ← List.append_cons] at hmore
    rw [List.cons_append, Head.behind, ways_many_cons, if_pos hc, List.head?_append, hmore]
    rfl

theorem ways_many1 (n : Nat) (p : Pattern) (h : Head) :
    ways n (many1 p) h = ways n (seq p (many p)) h := by
  simp [ways, many1, many, Course.ofPattern, Course.times, Course.ways]

theorem takesFirst_many1 {s : CharSet} (hne : m ≠ []) (hm : ∀ c ∈ m, s.has c = true)
    (hb : ∀ c ∈ b.head?, s.has c = false) (a : List Char) : TakesFirst (many1 (set s)) a m b := by
  obtain ⟨c, m, rfl⟩ := List.exists_cons_of_ne_nil hne
  obtain ⟨hc, hm⟩ := List.forall_mem_cons.mp hm
  intro n
  rw [ways_many1]
  exact (takesFirst_set hc a _).seq (takesFirst_many hm hb (a ++ [c])) n

theorem has_gap (c : Char) : (CharSet.oneOf " \t".toList).has c = isGap c := by
  rw [Bool.eq_iff_iff]
  simp [isGap]

theorem isGap_eq_false {c : Char} (h : isBlank c = false) : isGap c = false := by
  rw [← Bool.not_eq_true]
  intro hgap
  have hcases : c = ' ' ∨ c = '\t' := by simpa [isGap] using hgap
  rcases hcases with rfl | rfl
  · exact absurd h (by decide)
  · exact absurd h (by decide)

theorem notMem_of_isGap (hm : ∀ c ∈ m, isGap c = true) : '\n' ∉ m :=
  fun hmem => absurd (hm _ hmem) (by decide)

theorem forall_isGap_nil : ∀ c ∈ ([] : List Char), isGap c = true :=
  List.forall_mem_nil _

theorem forall_isGap_blank : [' '] ≠ [] ∧ ∀ c ∈ [' '], isGap c = true :=
  ⟨List.cons_ne_nil ' ' [], List.forall_mem_singleton.mpr rfl⟩

theorem takesFirst_gap (hm : ∀ c ∈ m, isGap c = true) (hb : ∀ c ∈ b.head?, isGap c = false)
    (a : List Char) : TakesFirst gap a m b := by
  simp only [← has_gap] at hm hb
  exact takesFirst_many hm hb a

theorem takesFirst_gap1 (hm : m ≠ [] ∧ ∀ c ∈ m, isGap c = true)
    (hb : ∀ c ∈ b.head?, isGap c = false) (a : List Char) : TakesFirst gap1 a m b := by
  simp only [← has_gap] at hm hb
  exact takesFirst_many1 hm.1 hm.2 hb a

end

/-! ### The start of a text -/

/-- What the first way takes from the start of a text is found there. -/
theorem TakesFirst.find? {p : Pattern} {m b : List Char} (hp : TakesFirst p [] m b) :
    ∃ found, p.find? (m ++ b) = some found ∧ found.rest = b := by
  have hnone : ∀ a' b' : List Char, [] = a' ++ b' → b' ≠ [] →
      ways ([] ++ (m ++ b)).length p (.behind a' (b' ++ (m ++ b))) = [] :=
    fun a' b' hnil hne => absurd (List.append_eq_nil_iff.mp hnil.symm).2 hne
  have hfound : p.find? ([] ++ (m ++ b)) = some (.between (.behind [] (m ++ b))
      (.behind [] (m ++ b)) ⟨.behind m b, []⟩) := find?_of_first hnone (hp _)
  exact ⟨_, hfound, rfl⟩

/-! ### A line -/

theorem ways_all_append (n : Nat) (ps qs : List Pattern) (h : Head) :
    ways n (all (ps ++ qs)) h = ways n (seq (all ps) (all qs)) h := by
  induction ps generalizing h with
  | nil => exact (ways_empty_seq n (all qs) h).symm
  | cons p ps ih =>
    have hcons : all (p :: ps) = seq p (all ps) := rfl
    rw [hcons, ways_seq_assoc, ways_seq]
    simp only [← ih]
    rfl

section

variable {front back : List Pattern} {q : Pattern} {a m b : List Char}
  (hfront : TakesFirst (all front) [] a (m ++ b)) (hq : TakesFirst q a m b)
  (hback : TakesFirst (all back) (a ++ m) [] b)

include hfront hq hback

/-- The first way of a pattern passes the start and the end of the group in it. -/
theorem head?_ways_kept (k n : Nat) :
    (ways n (all (front ++ group k q :: back)) (.behind [] (a ++ (m ++ b)))).head? =
      some ⟨.behind (a ++ m) b,
        [.opens k (.behind a (m ++ b)), .closes k (.behind (a ++ m) b)]⟩ := by
  have hgroup : (ways n (group k q) (.behind a (m ++ b))).head? =
      some ⟨.behind (a ++ m) b,
        [.opens k (.behind a (m ++ b)), .closes k (.behind (a ++ m) b)]⟩ := by
    have hways : ways n (group k q) (.behind a (m ++ b)) =
        (ways n q (.behind a (m ++ b))).map fun e =>
          ⟨e.head, .opens k (.behind a (m ++ b)) :: (e.events ++ [.closes k e.head])⟩ := rfl
    rw [hways, List.head?_map, hq n]
    rfl
  have hend := hback n
  rw [List.nil_append, List.append_nil] at hend
  have hcons : all (group k q :: back) = seq (group k q) (all back) := rfl
  rw [ways_all_append, hcons, head?_ways_seq (hfront n) (head?_ways_seq hgroup hend)]
  rfl

/-- **What is kept of a line.**  A pattern that begins at the start of a line, and whose parts first
    of all take the pieces of the line, is found in it once, and keeps the piece of its group. -/
theorem groups_findAll_line (k : Nat) (hm : m ≠ []) (hline : '\n' ∉ a ++ (m ++ b)) :
    ((all (lineStart :: (front ++ group k q :: back))).findAll (a ++ (m ++ b))).map Match.group? =
      [fun j => if k = j then some m else none] := by
  obtain ⟨c, cs, htext⟩ : ∃ c cs, a ++ (m ++ b) = c :: cs :=
    List.exists_cons_of_ne_nil (by simp [hm])
  have hc : c ≠ '\n' := fun heq => hline (by simp [htext, heq])
  have hcs : '\n' ∉ cs := fun hmem => hline (by simp [htext, hmem])
  have hfirst : (ways (a ++ (m ++ b)).length
      (seq lineStart (all (front ++ group k q :: back))) (.behind [] (a ++ (m ++ b)))).head? =
        some ⟨.behind (a ++ m) b,
          [.opens k (.behind a (m ++ b)), .closes k (.behind (a ++ m) b)]⟩ := by
    have hstart : TakesFirst lineStart [] [] (a ++ (m ++ b)) := takesFirst_place rfl
    exact head?_ways_seq (hstart _) (head?_ways_kept hfront hq hback k _)
  have hplaces : heads (a ++ (m ++ b)) = .behind [] (a ++ (m ++ b)) :: headsFrom (some c) 1 cs := by
    rw [htext]
    rfl
  have htaken : 0 < (Head.behind (a ++ m) b).pos := by
    have hlength := List.length_pos_of_ne_nil hm
    simp only [Head.behind, List.length_append]
    omega
  have hall : all (lineStart :: (front ++ group k q :: back)) =
      seq lineStart (all (front ++ group k q :: back)) := rfl
  rw [hall, findAll, ends_eq, hplaces, List.map_cons, hfirst, disjoint,
    disjoint_eq_nil (ways_lineStart_eq_nil hc hcs _ _ _),
    if_pos (by simpa [Head.behind] using htaken)]
  simp only [List.map_cons, List.map_nil, Match.between, List.cons.injEq, and_true]
  funext j
  by_cases hj : k = j
  · simp [Match.group?, groupText, Head.behind, hj]
  · simp [Match.group?, groupText, hj]

end

end SourceWeb.Pattern
