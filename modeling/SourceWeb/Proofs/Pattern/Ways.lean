/-
  All ways in which a pattern can match, in the order of preference, and the match that is found.

  The ways of a pattern from a place are listed by recursion on the pattern, one part behind the
  other.  The sweep through a text does not list them: it keeps one end for each set.  Main
  statement: from every place the sweep finds the end of the first way, or nothing if there is none.
-/
import SourceWeb.Pattern.Search
import SourceWeb.Proofs.First

namespace SourceWeb.Pattern

/-! ### Ways -/

def Head.next? (h : Head) : Option Head :=
  match h.rest with
  | c :: rest => some ⟨some c, rest, h.pos + 1⟩
  | [] => none

/-- Any number of ways one behind the other, each of which takes some text; `greedy` prefers more of
    them to fewer. -/
def again (ways : Head → List End) (greedy : Bool) (h : Head) : List End :=
  let more := (ways h).flatMap fun e =>
    if _ : e.head.rest.length < h.rest.length then
      (again ways greedy e.head).map (End.after e.events)
    else []
  if greedy then more ++ [⟨h, []⟩] else ⟨h, []⟩ :: more
termination_by h.rest.length

/-- The ends of all ways in which a course can be gone from a place, the preferred ones first. -/
def Course.ways : Course → Head → List End
  | .pass, h => [⟨h, []⟩]
  | .set s _, h => if h.meets s then h.next?.toList.map (⟨·, []⟩) else []
  | .place p, h => if h.satisfies p then [⟨h, []⟩] else []
  | .seq c d, h => (c.ways h).flatMap fun e => (d.ways e.head).map (End.after e.events)
  | .alt c d, h => c.ways h ++ d.ways h
  | .loop once greedy c, h =>
    if once then
      (c.ways h).flatMap fun e => (again c.ways greedy e.head).map (End.after e.events)
    else again c.ways greedy h
  | .group n c, h =>
    (c.ways h).map fun e => ⟨e.head, .opens n h :: (e.events ++ [.closes n e.head])⟩

/-- The end that a way leads to if `k` says where its end leads. -/
def onward (k : Head → Option End) (e : End) : Option End :=
  (k e.head).map (End.after e.events)

/-- Where the first way leads that leads anywhere. -/
def firstOf (k : Head → Option End) (ways : List End) : Option End :=
  ways.findSome? (onward k)

theorem after_nil : End.after [] = id := rfl

theorem after_comp (l l' : List Event) : End.after l ∘ End.after l' = End.after (l ++ l') := by
  funext e
  simp [End.after]

theorem map_after_after (l l' : List Event) (o : Option End) :
    (o.map (End.after l')).map (End.after l) = o.map (End.after (l ++ l')) := by
  rw [Option.map_map, after_comp]

theorem onward_after (k : Head → Option End) (events : List Event) (e : End) :
    onward k (End.after events e) = (onward k e).map (End.after events) :=
  (map_after_after events e.events (k e.head)).symm

theorem firstOf_append (k : Head → Option End) (l l' : List End) :
    firstOf k (l ++ l') = (firstOf k l).or (firstOf k l') :=
  List.findSome?_append

theorem firstOf_here (k : Head → Option End) (h : Head) : firstOf k [⟨h, []⟩] = k h := by
  rw [firstOf, List.findSome?_singleton, onward, after_nil, Option.map_id_fun, id_eq]

theorem firstOf_map_after (k : Head → Option End) (events : List Event) (l : List End) :
    firstOf k (l.map (End.after events)) = (firstOf k l).map (End.after events) := by
  rw [firstOf, List.findSome?_map, firstOf, List.map_findSome?]
  exact congrArg (List.findSome? · l) (funext (onward_after k events))

/-- First one part and then the other is one part that goes on with the other. -/
theorem firstOf_then (k : Head → Option End) (ways : Head → List End) (l : List End) :
    firstOf k (l.flatMap fun e => (ways e.head).map (End.after e.events)) =
      firstOf (fun h => firstOf k (ways h)) l := by
  rw [firstOf, findSome?_flatMap]
  exact congrArg (List.findSome? · l) (funext fun e => firstOf_map_after k e.events _)

theorem firstOf_some (l : List End) : firstOf (fun h => some ⟨h, []⟩) l = l.head? := by
  cases l with
  | nil => rfl
  | cons e l => simp [firstOf, onward, End.after]

/-! ### Ways go forward -/

theorem length_next? {h h' : Head} (hnext : h.next? = some h') :
    h'.rest.length < h.rest.length := by
  obtain ⟨last, rest, pos⟩ := h
  cases rest with
  | nil => simp [Head.next?] at hnext
  | cons c rest =>
    cases hnext
    simp

/-- Do the ways from a place lead to no place before it? -/
def Forward (ways : Head → List End) : Prop :=
  ∀ h, ∀ e ∈ ways h, e.head.rest.length ≤ h.rest.length

theorem forward_again (ways : Head → List End) (greedy : Bool) :
    Forward (again ways greedy) := by
  intro h e he
  induction hlength : h.rest.length using Nat.strongRecOn generalizing h e with
  | _ n ih =>
    subst hlength
    have hmore : e = ⟨h, []⟩ ∨ ∃ e' ∈ ways h, ∃ _ : e'.head.rest.length < h.rest.length,
        ∃ e'' ∈ again ways greedy e'.head, End.after e'.events e'' = e := by
      rw [again] at he
      have he : e = ⟨h, []⟩ ∨ e ∈ (ways h).flatMap fun e =>
          if _ : e.head.rest.length < h.rest.length then
            (again ways greedy e.head).map (End.after e.events)
          else [] := by
        cases greedy <;> simpa [or_comm] using he
      refine he.imp_right fun he => ?_
      obtain ⟨e', he', hafter⟩ := List.mem_flatMap.mp he
      split at hafter
      · rename_i hlt
        obtain ⟨e'', he'', rfl⟩ := List.mem_map.mp hafter
        exact ⟨e', he', hlt, e'', he'', rfl⟩
      · simp at hafter
    rcases hmore with rfl | ⟨e', -, hlt, e'', he'', rfl⟩
    · exact Nat.le_refl _
    · have := ih _ hlt e'.head e'' he'' rfl
      exact Nat.le_trans this (Nat.le_of_lt hlt)

theorem forward_flatMap {ways ways' : Head → List End} (h : Forward ways) (h' : Forward ways') :
    Forward fun g => (ways g).flatMap fun e => (ways' e.head).map (End.after e.events) := by
  intro g e he
  obtain ⟨e₁, he₁, hmap⟩ := List.mem_flatMap.mp he
  obtain ⟨e₂, he₂, rfl⟩ := List.mem_map.mp hmap
  exact Nat.le_trans (h' _ e₂ he₂) (h _ e₁ he₁)

namespace Course

theorem forward_ways (c : Course) : Forward c.ways := by
  induction c with
  | pass =>
    intro h e he
    cases List.mem_singleton.mp he
    exact Nat.le_refl _
  | set s mark =>
    intro h e he
    rw [ways] at he
    split at he
    · obtain ⟨h', hh', rfl⟩ := List.mem_map.mp he
      exact Nat.le_of_lt (length_next? (Option.mem_toList.mp hh'))
    · simp at he
  | place p =>
    intro h e he
    rw [ways] at he
    split at he
    · cases List.mem_singleton.mp he
      exact Nat.le_refl _
    · simp at he
  | seq c d ihc ihd => exact forward_flatMap ihc ihd
  | alt c d ihc ihd =>
    intro h e he
    rcases List.mem_append.mp he with he | he
    · exact ihc h e he
    · exact ihd h e he
  | loop once greedy c ih =>
    intro h e he
    rw [ways] at he
    split at he
    · exact forward_flatMap ih (forward_again c.ways greedy) h e he
    · exact forward_again c.ways greedy h e he
  | group n c ih =>
    intro h e he
    obtain ⟨e', he', rfl⟩ := List.mem_map.mp he
    exact ih h e' he'

end Course

/-- Do two ways of going on lead to the same from a place on? -/
def AgreeFrom (h : Head) (k k' : Head → Option End) : Prop :=
  ∀ g : Head, g.rest.length ≤ h.rest.length → k g = k' g

theorem firstOf_congr {k k' : Head → Option End} {ways : Head → List End} {h : Head}
    (hways : Forward ways) (hk : AgreeFrom h k k') : firstOf k (ways h) = firstOf k' (ways h) :=
  findSome?_congr fun e he => congrArg (Option.map _) (hk e.head (hways h e he))

/-! ### What repetitions lead to -/

/-- Where a repetition leads: on with what is repeated, from a place behind this one, or out. -/
theorem firstOf_again (k : Head → Option End) (ways : Head → List End) (greedy : Bool) (h : Head) :
    firstOf k (again ways greedy h) =
      let more := firstOf (fun g => if g.rest.length < h.rest.length then
        firstOf k (again ways greedy g) else none) (ways h)
      if greedy then more.or (k h) else (k h).or more := by
  have hmore : firstOf k ((ways h).flatMap fun e =>
      if _ : e.head.rest.length < h.rest.length then
        (again ways greedy e.head).map (End.after e.events)
      else []) = firstOf (fun g => if g.rest.length < h.rest.length then
        firstOf k (again ways greedy g) else none) (ways h) := by
    rw [firstOf, findSome?_flatMap]
    refine congrArg (List.findSome? · (ways h)) (funext fun e => ?_)
    rw [onward]
    split
    · exact firstOf_map_after k e.events _
    · rfl
  rw [again]
  cases greedy with
  | true => simp only [if_true, firstOf_append, hmore, firstOf_here]
  | false =>
    simp only [Bool.false_eq_true, if_false]
    rw [← List.singleton_append, firstOf_append, hmore, firstOf_here]

/-! ### Leads -/

namespace Lead

theorem ending_andThen (l l' : Lead) (next : Option End) :
    (l.andThen l').ending next = l.ending (l'.ending next) := by
  cases l with
  | ends e => rfl
  | past events e =>
    cases l' with
    | ends e' => rfl
    | past events' e' =>
      cases next with
      | none => simp [andThen, ending]
      | some next => simp [andThen, ending, End.after]

theorem ending_orElse (l l' : Lead) (next : Option End) :
    (l.orElse l').ending next = (l.ending next).or (l'.ending next) := by
  cases l with
  | ends e => cases e <;> rfl
  | past events e => cases next <;> simp [orElse, ending]

theorem ending_loop (l : Lead) (greedy : Bool) (next : Option End) :
    (l.loop greedy).ending next =
      if greedy then (l.ending none).or next else next.or (l.ending none) := by
  cases greedy with
  | true =>
    rw [loop, if_pos rfl, if_pos rfl, ending_orElse]
    simp [ending, after_nil]
  | false => simp [loop, ending, after_nil]

theorem ending_between (l : Lead) (n : Nat) (h : Head) (next : Option End) :
    (l.between (.opens n h) (.closes n h)).ending next =
      (l.ending (next.map (End.after [.closes n h]))).map (End.after [.opens n h]) := by
  cases l with
  | ends e => rfl
  | past events e =>
    cases next with
    | none => simp [between, ending]
    | some next => simp [between, ending, End.after]

end Lead

/-! ### Marks -/

namespace Course

/-- The course with every set marked for going on at a place, if there is one, where `k` says what
    follows the course. -/
def marked : Course → (Head → Option End) → Option Head → Course
  | pass, _, _ => pass
  | set s _, k, at_ => set s (at_.bind k)
  | place p, _, _ => place p
  | seq c d, k, at_ => seq (c.marked (fun h => firstOf k (d.ways h)) at_) (d.marked k at_)
  | alt c d, k, at_ => alt (c.marked k at_) (d.marked k at_)
  | loop once greedy c, k, at_ =>
    loop once greedy (c.marked (fun h => firstOf k (again c.ways greedy h)) at_)
  | group n c, k, at_ => group n (c.marked (fun h => (k h).map (End.after [.closes n h])) at_)

theorem marked_congr (c : Course) {k k' : Head → Option End} {at_ : Option Head}
    (h : ∀ g ∈ at_, AgreeFrom g k k') : c.marked k at_ = c.marked k' at_ := by
  induction c generalizing k k' with
  | pass | place p => rfl
  | set s mark =>
    cases at_ with
    | none => rfl
    | some g => exact congrArg (set s) (h g rfl g (Nat.le_refl _))
  | seq c d ihc ihd =>
    rw [marked, marked, ihd h]
    congr 1
    exact ihc fun g hg f hf =>
      firstOf_congr d.forward_ways fun e he => h g hg e (Nat.le_trans he hf)
  | alt c d ihc ihd => rw [marked, marked, ihc h, ihd h]
  | loop once greedy c ih =>
    rw [marked, marked]
    congr 1
    exact ih fun g hg f hf =>
      firstOf_congr (forward_again c.ways greedy) fun e he => h g hg e (Nat.le_trans he hf)
  | group n c ih =>
    rw [marked, marked]
    congr 1
    refine ih fun g hg f hf => ?_
    rw [h g hg f hf]

/-- One place of the sweep: a course that is marked for the place behind leads where its first way
    leads, and is marked for this place then. -/
theorem step_marked (c : Course) (k : Head → Option End) (h : Head) :
    (step h (c.marked k h.next?)).1.ending (k h) = firstOf k (c.ways h) ∧
      (step h (c.marked k h.next?)).2 (k h) = c.marked k (some h) := by
  induction c generalizing k with
  | pass => exact ⟨by simp [marked, step, ways, Lead.ending, after_nil, firstOf_here], rfl⟩
  | set s mark =>
    refine ⟨?_, rfl⟩
    rw [marked, step, ways]
    split
    · cases hnext : h.next? with
      | none => rfl
      | some g => exact (firstOf_here k g).symm
    · rfl
  | place p =>
    refine ⟨?_, rfl⟩
    rw [marked, step, ways]
    split
    · simp [Lead.ending, after_nil, firstOf_here]
    · rfl
  | seq c d ihc ihd =>
    obtain ⟨hlead, hclose⟩ := ihc fun h => firstOf k (d.ways h)
    obtain ⟨hlead', hclose'⟩ := ihd k
    constructor
    · rw [marked, step, Lead.ending_andThen, hlead', hlead, ways, firstOf_then]
    · simp only [marked, step, hlead', hclose, hclose']
  | alt c d ihc ihd =>
    obtain ⟨hlead, hclose⟩ := ihc k
    obtain ⟨hlead', hclose'⟩ := ihd k
    constructor
    · rw [marked, step, Lead.ending_orElse, hlead, hlead', ways, firstOf_append]
    · simp only [marked, step, hclose, hclose']
  | loop once greedy c ih =>
    obtain ⟨hlead, hclose⟩ := ih fun h => firstOf k (again c.ways greedy h)
    -- what is repeated takes some text, so only the places behind this one count
    have hmore : (step h (c.marked (fun h => firstOf k (again c.ways greedy h)) h.next?)).1.ending
        none = firstOf (fun g => if g.rest.length < h.rest.length then
          firstOf k (again c.ways greedy g) else none) (c.ways h) := by
      rw [← (ih _).1, if_neg (Nat.lt_irrefl _)]
      congr 3
      refine c.marked_congr fun g hg f hf => (if_pos ?_).symm
      exact Nat.lt_of_le_of_lt hf (length_next? hg)
    have hagain : ((step h (c.marked (fun h => firstOf k (again c.ways greedy h))
        h.next?)).1.loop greedy).ending (k h) = firstOf k (again c.ways greedy h) := by
      rw [Lead.ending_loop, hmore, firstOf_again]
    constructor
    · rw [marked, step, ways]
      cases once with
      | true =>
        simp only [if_true, Lead.ending_andThen, hagain, hlead, firstOf_then]
      | false => exact hagain
    · simp only [marked, step, hagain, hclose]
  | group n c ih =>
    obtain ⟨hlead, hclose⟩ := ih fun h => (k h).map (End.after [.closes n h])
    constructor
    · rw [marked, step, Lead.ending_between, hlead, ways, firstOf, firstOf, List.findSome?_map,
        List.map_findSome?]
      refine congrArg (List.findSome? · (c.ways h)) (funext fun e => ?_)
      simp only [Function.comp_apply, onward, map_after_after]
      rfl
    · simp only [marked, step, hclose]

/-! ### The sweep -/

/-- The end of the text asks nothing of the marks, and a new course has none. -/
def Unmarked (c : Course) : Prop :=
  ∀ k, c.marked k none = c

theorem unmarked_times {c next : Course} (hc : c.Unmarked) (hnext : next.Unmarked) (n : Nat) :
    (times c next n).Unmarked := by
  induction n with
  | zero => exact hnext
  | succ n ih =>
    intro k
    rw [times, marked, hc, ih]

theorem unmarked_upTo {c : Course} (hc : c.Unmarked) (greedy : Bool) (n : Nat) :
    (upTo greedy c n).Unmarked := by
  induction n with
  | zero => exact fun _ => rfl
  | succ n ih =>
    intro k
    rw [upTo]
    cases greedy <;> simp [marked, hc _, ih _]

theorem unmarked_ofPattern (n : Nat) (p : Pattern) : (ofPattern n p).Unmarked := by
  induction p with
  | empty | set s | place p => exact fun _ => rfl
  | seq p q ihp ihq | alt p q ihp ihq =>
    intro k
    rw [ofPattern, marked, ihp, ihq]
  | repeated least most greedy p ih =>
    cases most with
    | some m => exact unmarked_times ih (unmarked_upTo ih greedy _) _
    | none =>
      refine unmarked_times ih (fun k => ?_) _
      rw [marked, ih]
  | group m p ih =>
    intro k
    rw [ofPattern, marked, ih]

/-- The sweep finds the end of the first way from every place. -/
theorem sweep_headsFrom {c : Course} (hc : c.Unmarked) (text : List Char) (last : Option Char)
    (pos : Nat) :
    (headsFrom last pos text).foldr sweepStep (c, []) =
      (c.marked (fun h => some ⟨h, []⟩) (some ⟨last, text, pos⟩),
        (headsFrom last pos text).map fun h => (h, (c.ways h).head?)) := by
  induction text generalizing last pos with
  | nil =>
    obtain ⟨hlead, hclose⟩ := c.step_marked (fun h => some ⟨h, []⟩) ⟨last, [], pos⟩
    rw [Head.next?, hc] at hlead hclose
    simp only [headsFrom, List.foldr_cons, List.foldr_nil, sweepStep, hlead, hclose, firstOf_some,
      List.map_cons, List.map_nil]
  | cons d text ih =>
    obtain ⟨hlead, hclose⟩ := c.step_marked (fun h => some ⟨h, []⟩) ⟨last, d :: text, pos⟩
    rw [Head.next?] at hlead hclose
    simp only [headsFrom, List.foldr_cons, ih, sweepStep, hlead, hclose, firstOf_some,
      List.map_cons]

end Course

/-! ### Patterns -/

/-- The ends of all ways in which a pattern can match from a place in a text of `n` characters, the
    preferred ones first. -/
def ways (n : Nat) (p : Pattern) (h : Head) : List End :=
  (Course.ofPattern n p).ways h

theorem ways_empty (n : Nat) (h : Head) : ways n empty h = [⟨h, []⟩] := rfl

theorem ways_seq (n : Nat) (p q : Pattern) (h : Head) :
    ways n (seq p q) h =
      (ways n p h).flatMap fun e => (ways n q e.head).map (End.after e.events) := rfl

theorem ways_empty_seq (n : Nat) (p : Pattern) (h : Head) :
    ways n (seq empty p) h = ways n p h := by
  simp [ways_seq, ways_empty, after_nil]

theorem ways_seq_empty (n : Nat) (p : Pattern) (h : Head) :
    ways n (seq p empty) h = ways n p h := by
  simp [ways_seq, ways_empty, End.after]

theorem ways_seq_assoc (n : Nat) (p q r : Pattern) (h : Head) :
    ways n (seq (seq p q) r) h = ways n (seq p (seq q r)) h := by
  simp only [ways_seq, List.flatMap_assoc, List.flatMap_map, List.map_flatMap, List.map_map,
    after_comp]
  rfl

theorem ways_place (n : Nat) (p : Place) (h : Head) :
    ways n (place p) h = if h.satisfies p then [⟨h, []⟩] else [] := rfl

theorem ways_set (n : Nat) (s : CharSet) (last : Option Char) (c : Char) (rest : List Char)
    (pos : Nat) :
    ways n (set s) ⟨last, c :: rest, pos⟩ =
      if s.has c then [⟨⟨some c, rest, pos + 1⟩, []⟩] else [] := rfl

theorem ways_set_nil (n : Nat) (s : CharSet) (last : Option Char) (pos : Nat) :
    ways n (set s) ⟨last, [], pos⟩ = [] := rfl

theorem ways_optional (n : Nat) (p : Pattern) (h : Head) :
    ways n (optional p) h = ways n p h ++ [⟨h, []⟩] := by
  have hone : min (1 - 0) (n + 1) = 1 := Nat.min_eq_left (Nat.le_add_left 1 n)
  rw [ways, optional, Course.ofPattern, hone]
  simp [Course.times, Course.upTo, Course.ways, ways, End.after]

theorem ways_many_nil (n : Nat) (s : CharSet) (last : Option Char) (pos : Nat) :
    ways n (many (set s)) ⟨last, [], pos⟩ = [⟨⟨last, [], pos⟩, []⟩] := by
  rw [ways, many, Course.ofPattern, Course.ofPattern]
  simp [Course.times, Course.ways, again, Head.meets]

/-- As many characters of a set as possible, rather than fewer. -/
theorem ways_many_cons (n : Nat) (s : CharSet) (last : Option Char) (c : Char) (rest : List Char)
    (pos : Nat) :
    ways n (many (set s)) ⟨last, c :: rest, pos⟩ =
      (if s.has c then ways n (many (set s)) ⟨some c, rest, pos + 1⟩ else []) ++
        [⟨⟨last, c :: rest, pos⟩, []⟩] := by
  rw [ways, ways, many, Course.ofPattern, Course.ofPattern]
  simp only [Course.times, Nat.zero_min, Nat.zero_sub, bne_self_eq_false, Course.ways,
    Bool.false_eq_true, if_false]
  rw [again]
  cases hc : s.has c <;> simp [Head.meets, Head.next?, hc, after_nil]

/-- From every place of a text the search finds the first way of matching. -/
theorem ends_eq (p : Pattern) (text : List Char) :
    p.ends text = (heads text).map fun h => (h, (p.ways text.length h).head?) := by
  rw [ends, Course.sweep, heads, Course.sweep_headsFrom (Course.unmarked_ofPattern _ p)]
  rfl

theorem matchStart?_eq (p : Pattern) (text : List Char) :
    p.matchStart? text =
      (p.ways text.length ⟨none, text, 0⟩).head?.map (Match.between ⟨none, text, 0⟩
        ⟨none, text, 0⟩) := by
  obtain ⟨hs, hheads⟩ : ∃ hs, heads text = ⟨none, text, 0⟩ :: hs := by
    cases text <;> exact ⟨_, rfl⟩
  rw [matchStart?, ends_eq, hheads, List.map_cons]
  cases (p.ways text.length ⟨none, text, 0⟩).head? <;> rfl

end SourceWeb.Pattern
