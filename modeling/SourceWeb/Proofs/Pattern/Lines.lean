/-
  Patterns that stay within a line.

  A pattern that takes no line feed, and that asks of places only whether lines start or end there,
  matches from a place as if the text had no other lines.  This is shown by carrying the places of a
  line over to the whole text: whatever can be carried is matched alike.  Main statement: in two
  texts with a line feed between them the pattern finds what it finds in the one, then what it finds
  in the other.
-/
import Mathlib.Data.List.Basic
import SourceWeb.Proofs.Pattern.Ways

namespace SourceWeb.Pattern

/-! ### Patterns -/

/-- Does the pattern take no `d`, and is it blind to a `d` that follows?  It may ask whether a line
    starts, and, if `d` is a line feed, whether one ends. -/
def keepsOff (d : Char) : Pattern → Bool
  | empty => true
  | set s => !s.has d
  | place (.lineStart false) => true
  | place (.lineEnd false) => d == '\n'
  | place _ => false
  | seq p q => p.keepsOff d && q.keepsOff d
  | alt p q => p.keepsOff d && q.keepsOff d
  | repeated _ _ _ p => p.keepsOff d
  | group _ p => p.keepsOff d

theorem keepsOff_place {d : Char} {q : Place} (h : (place q).keepsOff d = true) :
    q = .lineStart false ∨ (q = .lineEnd false ∧ d = '\n') := by
  cases q with
  | lineStart returns => cases returns <;> simp [keepsOff] at h ⊢
  | lineEnd returns => cases returns <;> simp_all [keepsOff]
  | textStart | textEnd | word e | asciiWord e => simp [keepsOff] at h

/-- Is every part of the pattern taken at most once or any number of times? -/
def uncounted : Pattern → Bool
  | empty => true
  | set _ => true
  | place _ => true
  | seq p q => p.uncounted && q.uncounted
  | alt p q => p.uncounted && q.uncounted
  | repeated least most _ p => decide (least ≤ 1) && most.all (decide <| · ≤ 1) && p.uncounted
  | group _ p => p.uncounted

/-- Then its course does not depend on the length of the text. -/
theorem ofPattern_eq {p : Pattern} (hp : p.uncounted = true) (m n : Nat) :
    Course.ofPattern m p = Course.ofPattern n p := by
  induction p with
  | empty => rfl
  | set s => rfl
  | place q => rfl
  | seq p q ihp ihq =>
    simp only [uncounted, Bool.and_eq_true] at hp
    rw [Course.ofPattern, Course.ofPattern, ihp hp.1, ihq hp.2]
  | alt p q ihp ihq =>
    simp only [uncounted, Bool.and_eq_true] at hp
    rw [Course.ofPattern, Course.ofPattern, ihp hp.1, ihq hp.2]
  | repeated least most greedy p ih =>
    simp only [uncounted, Bool.and_eq_true, decide_eq_true_eq] at hp
    obtain ⟨⟨hleast, hmost⟩, hp⟩ := hp
    cases most with
    | none =>
      have hnone : ∀ n, min (least - 1) (n + 1) = 0 := by omega
      simp only [Course.ofPattern, ih hp, hnone]
    | some k =>
      have hk : k ≤ 1 := by simpa using hmost
      have hcount : ∀ n, min (k - least) (n + 1) = k - least := by omega
      have honce : ∀ n, min least (n + 1) = least := by omega
      simp only [Course.ofPattern, ih hp, hcount, honce]
  | group k p ih => rw [Course.ofPattern, Course.ofPattern, ih hp]

/-! ### Carrying places over -/

def Event.head : Event → Head
  | opens _ h => h
  | closes _ h => h

def Event.map (f : Head → Head) : Event → Event
  | opens k h => opens k (f h)
  | closes k h => closes k (f h)

def End.map (f : Head → Head) (e : End) : End :=
  ⟨f e.head, e.events.map (Event.map f)⟩

theorem map_after (f : Head → Head) (events : List Event) (e : End) :
    (e.after events).map f = (e.map f).after (events.map (Event.map f)) := by
  simp [End.map, End.after]

/-- Do the ways from the place that a place is carried to lead to where its ways lead? -/
def Carried (f : Head → Head) (ways : Head → List End) : Prop :=
  ∀ h, ways (f h) = (ways h).map (End.map f)

/-- Can places be carried over without notice of a pattern that keeps off `d`? -/
structure Carries (d : Char) (f : Head → Head) : Prop where
  satisfies : ∀ h q, (place q).keepsOff d = true → (f h).satisfies q = h.satisfies q
  meets : ∀ h s, s.has d = false → (f h).meets s = h.meets s
  next : ∀ h s, s.has d = false → h.meets s = true → (f h).next? = h.next?.map f
  shorter : ∀ g h, (f g).rest.length < (f h).rest.length ↔ g.rest.length < h.rest.length

section

variable {d : Char} {f : Head → Head} {ways ways' : Head → List End}

theorem carried_flatMap (h : Carried f ways) (h' : Carried f ways') :
    Carried f fun g => (ways g).flatMap fun e => (ways' e.head).map (End.after e.events) := by
  intro g
  simp only [h g, List.flatMap_map, List.map_flatMap]
  refine List.flatMap_congr fun e _ => ?_
  have he : ways' (e.map f).head = (ways' e.head).map (End.map f) := h' e.head
  rw [he, List.map_map, List.map_map]
  exact List.map_congr_left fun e' _ => (map_after f e.events e').symm

theorem carried_append (h : Carried f ways) (h' : Carried f ways') :
    Carried f fun g => ways g ++ ways' g := by
  intro g
  simp only [h g, h' g, List.map_append]

theorem carried_here : Carried f fun g => [⟨g, []⟩] :=
  fun _ => rfl

theorem carried_again (hf : Carries d f) (h : Carried f ways) (greedy : Bool) :
    Carried f (again ways greedy) := by
  intro g
  induction hn : g.rest.length using Nat.strongRecOn generalizing g with
  | _ n ih =>
    subst hn
    have hmore : ((ways (f g)).flatMap fun e =>
        if _ : e.head.rest.length < (f g).rest.length then
          (again ways greedy e.head).map (End.after e.events) else []) =
        ((ways g).flatMap fun e =>
          if _ : e.head.rest.length < g.rest.length then
            (again ways greedy e.head).map (End.after e.events) else []).map (End.map f) := by
      rw [h g, List.flatMap_map, List.map_flatMap]
      refine List.flatMap_congr fun e _ => ?_
      by_cases hlt : e.head.rest.length < g.rest.length
      · have hlt' : (e.map f).head.rest.length < (f g).rest.length := (hf.shorter _ _).mpr hlt
        have he : again ways greedy (e.map f).head = _ := ih _ hlt e.head rfl
        rw [dif_pos hlt, dif_pos hlt', he, List.map_map, List.map_map]
        exact List.map_congr_left fun e' _ => (map_after f e.events e').symm
      · have hlt' : ¬ (e.map f).head.rest.length < (f g).rest.length :=
          fun hlt' => hlt ((hf.shorter _ _).mp hlt')
        rw [dif_neg hlt, dif_neg hlt', List.map_nil]
    rw [again, again, hmore]
    cases greedy with
    | true => simp [End.map]
    | false => simp [End.map]

theorem carried_times {c next : Course} (hc : Carried f c.ways) (hnext : Carried f next.ways)
    (n : Nat) : Carried f (c.times next n).ways := by
  induction n with
  | zero => exact hnext
  | succ n ih => exact carried_flatMap hc ih

theorem carried_upTo {c : Course} (hc : Carried f c.ways) (greedy : Bool) (n : Nat) :
    Carried f (Course.upTo greedy c n).ways := by
  induction n with
  | zero => exact carried_here
  | succ n ih =>
    have hstep : Carried f (Course.seq c (Course.upTo greedy c n)).ways := carried_flatMap hc ih
    cases greedy with
    | true => exact carried_append hstep carried_here
    | false => exact carried_append carried_here hstep

/-- A pattern that keeps off a character matches from places that are carried over as before. -/
theorem carried_ways (hf : Carries d f) {p : Pattern} (hp : p.keepsOff d = true) (n : Nat) :
    Carried f (p.ways n) := by
  induction p with
  | empty => exact carried_here
  | set s =>
    intro h
    have hs : s.has d = false := by simpa [keepsOff] using hp
    simp only [ways, Course.ofPattern, Course.ways, hf.meets h s hs]
    cases hmeets : h.meets s with
    | true =>
      rw [hf.next h s hs hmeets]
      cases h.next? <;> rfl
    | false => rfl
  | place q =>
    intro h
    rw [ways_place, ways_place, hf.satisfies h q hp]
    split <;> rfl
  | seq p q ihp ihq =>
    simp only [keepsOff, Bool.and_eq_true] at hp
    exact carried_flatMap (ihp hp.1) (ihq hp.2)
  | alt p q ihp ihq =>
    simp only [keepsOff, Bool.and_eq_true] at hp
    exact carried_append (ihp hp.1) (ihq hp.2)
  | repeated least most greedy p ih =>
    have hc := ih hp
    cases most with
    | some k => exact carried_times hc (carried_upTo hc greedy _) _
    | none =>
      refine carried_times hc ?_ _
      cases hleast : least != 0 with
      | true => exact carried_flatMap hc (carried_again hf hc greedy)
      | false => exact carried_again hf hc greedy
  | group k p ih =>
    intro h
    have hc : (Course.ofPattern n p).ways (f h) = _ := ih hp h
    simp only [ways, Course.ofPattern, Course.ways, hc, List.map_map]
    exact List.map_congr_left fun e _ => by simp [End.map, Event.map]

end

/-! ### Places that a way passes -/

section

variable {P : Head → Prop} (hnext : ∀ g g', g.next? = some g' → P g → P g')

/-- Is the way, if it starts where `P` holds, at such places only? -/
def Stays (P : Head → Prop) (ways : Head → List End) : Prop :=
  ∀ h, P h → ∀ e ∈ ways h, P e.head ∧ ∀ v ∈ e.events, P v.head

theorem stays_here : Stays P fun h => [⟨h, []⟩] := by
  intro h hh e he
  rw [List.mem_singleton.mp he]
  exact ⟨hh, by simp⟩

theorem stays_append {ways ways' : Head → List End} (h : Stays P ways) (h' : Stays P ways') :
    Stays P fun g => ways g ++ ways' g := by
  intro g hg e he
  rcases List.mem_append.mp he with he | he
  · exact h g hg e he
  · exact h' g hg e he

theorem stays_after {e e' : End} (he : ∀ v ∈ e.events, P v.head)
    (he' : P e'.head ∧ ∀ v ∈ e'.events, P v.head) :
    P (e'.after e.events).head ∧ ∀ v ∈ (e'.after e.events).events, P v.head := by
  refine ⟨he'.1, fun v hv => ?_⟩
  rcases List.mem_append.mp hv with hv | hv
  · exact he v hv
  · exact he'.2 v hv

theorem stays_flatMap {ways ways' : Head → List End} (h : Stays P ways) (h' : Stays P ways') :
    Stays P fun g => (ways g).flatMap fun e => (ways' e.head).map (End.after e.events) := by
  intro g hg e he
  obtain ⟨e₁, he₁, hmap⟩ := List.mem_flatMap.mp he
  obtain ⟨e₂, he₂, rfl⟩ := List.mem_map.mp hmap
  have hfirst := h g hg e₁ he₁
  exact stays_after hfirst.2 (h' _ hfirst.1 e₂ he₂)

theorem stays_again {ways : Head → List End} (h : Stays P ways) (greedy : Bool) :
    Stays P (again ways greedy) := by
  intro g hg
  induction hn : g.rest.length using Nat.strongRecOn generalizing g with
  | _ n ih =>
    subst hn
    intro e he
    have hcases : e = ⟨g, []⟩ ∨ e ∈ (ways g).flatMap fun e =>
        if _ : e.head.rest.length < g.rest.length then
          (again ways greedy e.head).map (End.after e.events) else [] := by
      rw [again] at he
      cases greedy <;> simpa [or_comm] using he
    rcases hcases with rfl | hmore
    · exact ⟨hg, by simp⟩
    · obtain ⟨e₁, he₁, hafter⟩ := List.mem_flatMap.mp hmore
      have hfirst := h g hg e₁ he₁
      split at hafter
      · rename_i hlt
        obtain ⟨e₂, he₂, rfl⟩ := List.mem_map.mp hafter
        exact stays_after hfirst.2 (ih _ hlt e₁.head hfirst.1 rfl e₂ he₂)
      · simp at hafter

include hnext

/-- What one step to the next place keeps holds of all places that a way passes. -/
theorem Course.stays_ways (c : Course) : Stays P c.ways := by
  induction c with
  | pass => exact stays_here
  | set s mark =>
    intro h hh e he
    rw [ways] at he
    split at he
    · obtain ⟨g, hg, rfl⟩ := List.mem_map.mp he
      exact ⟨hnext h g (Option.mem_toList.mp hg) hh, by simp⟩
    · simp at he
  | place q =>
    intro h hh e he
    rw [ways] at he
    split at he
    · exact stays_here h hh e he
    · simp at he
  | seq c d ihc ihd => exact stays_flatMap ihc ihd
  | alt c d ihc ihd => exact stays_append ihc ihd
  | loop once greedy c ih =>
    cases once with
    | true => exact stays_flatMap ih (stays_again ih greedy)
    | false => exact stays_again ih greedy
  | group k c ih =>
    intro h hh e he
    obtain ⟨e', he', rfl⟩ := List.mem_map.mp he
    obtain ⟨hhead, hevents⟩ := ih h hh e' he'
    refine ⟨hhead, fun v hv => ?_⟩
    rcases List.mem_cons.mp hv with rfl | hv
    · exact hh
    rcases List.mem_append.mp hv with hv | hv
    · exact hevents v hv
    · rw [List.mem_singleton.mp hv]
      exact hhead

end

/-- Is the place one of a text of so many characters? -/
def Head.Within (n : Nat) (h : Head) : Prop :=
  h.pos + h.rest.length = n

theorem within_next (n : Nat) (g g' : Head) (h : g.next? = some g') (hg : g.Within n) :
    g'.Within n := by
  obtain ⟨last, rest, pos⟩ := g
  cases rest with
  | nil => simp [Head.next?] at h
  | cons c rest =>
    cases h
    simp only [Head.Within, List.length_cons] at hg ⊢
    omega

theorem within_of_mem_headsFrom {last : Option Char} {pos : Nat} {text : List Char} {h : Head}
    (hh : h ∈ headsFrom last pos text) : h.Within (pos + text.length) ∧ pos ≤ h.pos := by
  induction text generalizing last pos with
  | nil =>
    rw [List.mem_singleton.mp hh]
    exact ⟨rfl, Nat.le_refl _⟩
  | cons c text ih =>
    rcases List.mem_cons.mp hh with rfl | hh
    · exact ⟨rfl, Nat.le_refl _⟩
    · obtain ⟨hwithin, hpos⟩ := ih hh
      rw [List.length_cons, Nat.add_comm text.length, ← Nat.add_assoc]
      exact ⟨hwithin, by omega⟩

/-! ### What matches keep -/

theorem groupText_map {P : Head → Prop} {f : Head → Head}
    (hf : ∀ o h, P o → P h → (f o).rest.take ((f h).pos - (f o).pos) = o.rest.take (h.pos - o.pos))
    (k : Nat) {events : List Event} (hevents : ∀ v ∈ events, P v.head) {opened : Option Head}
    (hopened : ∀ o ∈ opened, P o) (found : Option (List Char)) :
    groupText k (opened.map f) found (events.map (Event.map f)) =
      groupText k opened found events := by
  induction events generalizing opened found with
  | nil => rfl
  | cons v events ih =>
    obtain ⟨hv, hlater⟩ := List.forall_mem_cons.mp hevents
    cases v with
    | opens j h =>
      rw [List.map_cons, Event.map, groupText, groupText]
      by_cases hj : j = k
      · have hsome : ∀ o ∈ some h, P o := by
          rintro o ⟨⟩
          exact hv
        rw [if_pos hj, if_pos hj]
        exact ih hlater hsome found
      · rw [if_neg hj, if_neg hj]
        exact ih hlater hopened found
    | closes j h =>
      rw [List.map_cons, Event.map, groupText, groupText]
      have htext : (opened.map f).map (fun o => o.rest.take ((f h).pos - o.pos)) =
          opened.map fun o => o.rest.take (h.pos - o.pos) := by
        cases opened with
        | none => rfl
        | some o => exact congrArg some (hf o h (hopened o rfl) hv)
      rw [htext]
      exact ih hlater hopened _

/-! ### Matches that are found -/

/-- A place with the match from it, carried over. -/
def carry (f : Head → Head) (x : Head × Option End) : Head × Option End :=
  (f x.1, x.2.map (End.map f))

theorem disjoint_append {l : List (Head × Option End)} {n : Nat}
    (hl : ∀ x ∈ l, ∀ e ∈ x.2, e.head.pos ≤ n) (l' : List (Head × Option End)) (done : Head)
    (hdone : done.pos ≤ n) :
    ∃ done' : Head, done'.pos ≤ n ∧
      disjoint done (l ++ l') = disjoint done l ++ disjoint done' l' := by
  induction l generalizing done with
  | nil => exact ⟨done, hdone, rfl⟩
  | cons x l ih =>
    obtain ⟨hx, hlater⟩ := List.forall_mem_cons.mp hl
    obtain ⟨h, e⟩ := x
    cases e with
    | none => exact ih hlater done hdone
    | some e =>
      rw [List.cons_append, disjoint, disjoint]
      split
      · obtain ⟨done', hdone', heq⟩ := ih hlater e.head (hx e rfl)
        exact ⟨done', hdone', congrArg _ heq⟩
      · exact ih hlater done hdone

theorem disjoint_skip {l : List (Head × Option End)} (hl : ∀ x ∈ l, x.2 = none)
    (l' : List (Head × Option End)) (done : Head) : disjoint done (l ++ l') = disjoint done l' := by
  induction l with
  | nil => rfl
  | cons x l ih =>
    obtain ⟨hx, hlater⟩ := List.forall_mem_cons.mp hl
    obtain ⟨h, e⟩ := x
    subst hx
    exact ih hlater

theorem disjoint_eq_nil {l : List (Head × Option End)} (hl : ∀ x ∈ l, x.2 = none) (done : Head) :
    disjoint done l = [] := by
  simpa [disjoint] using disjoint_skip hl [] done

/-- The matches that are carried over keep what they kept. -/
theorem groups_disjoint {P : Head → Prop} {f : Head → Head}
    (hpos : ∀ g h, (f g).pos ≤ (f h).pos ↔ g.pos ≤ h.pos)
    (hf : ∀ o h, P o → P h → (f o).rest.take ((f h).pos - (f o).pos) = o.rest.take (h.pos - o.pos))
    {l : List (Head × Option End)} (hl : ∀ x ∈ l, ∀ e ∈ x.2, ∀ v ∈ e.events, P v.head)
    {done done' : Head} (hdone : ∀ x ∈ l, done'.pos ≤ (f x.1).pos ↔ done.pos ≤ x.1.pos) :
    (disjoint done' (l.map (carry f))).map Match.group? = (disjoint done l).map Match.group? := by
  induction l generalizing done done' with
  | nil => rfl
  | cons x l ih =>
    obtain ⟨hx, hlater⟩ := List.forall_mem_cons.mp hl
    obtain ⟨hfirst, hrest⟩ := List.forall_mem_cons.mp hdone
    obtain ⟨h, e⟩ := x
    cases e with
    | none => exact ih hlater hrest
    | some e =>
      have hlt : (f h).pos < (f e.head).pos ↔ h.pos < e.head.pos := by
        rw [← Nat.not_le, ← Nat.not_le, hpos]
      have hgroup : (Match.between done' (f h) (e.map f)).group? =
          (Match.between done h e).group? := by
        have hnone : ∀ o ∈ (none : Option Head), P o := by simp
        funext k
        exact groupText_map hf k (hx e rfl) hnone none
      have hback : (disjoint (e.map f).head (l.map (carry f))).map Match.group? =
          (disjoint e.head l).map Match.group? :=
        ih hlater fun y _ => hpos e.head y.1
      rw [List.map_cons, carry, Option.map_some, disjoint, disjoint]
      by_cases hkeep : done.pos ≤ h.pos ∧ h.pos < e.head.pos
      · have hkeep' : done'.pos ≤ (f h).pos ∧ (f h).pos < (e.map f).head.pos :=
          ⟨hfirst.mpr hkeep.1, hlt.mpr hkeep.2⟩
        rw [if_pos (by simpa using hkeep'), if_pos (by simpa using hkeep), List.map_cons,
          List.map_cons, hgroup, hback]
      · have hkeep' : ¬ (done'.pos ≤ (f h).pos ∧ (f h).pos < (e.map f).head.pos) := fun hkeep' =>
          hkeep ⟨hfirst.mp hkeep'.1, hlt.mp hkeep'.2⟩
        rw [if_neg (by simpa using hkeep'), if_neg (by simpa using hkeep)]
        exact ih hlater hrest

/-! ### A text of two parts -/

/-- The same place with more text behind that of its own. -/
def Head.followedBy (tail : List Char) (h : Head) : Head :=
  { h with rest := h.rest ++ tail }

/-- The same place behind so many characters, the last of them a line feed. -/
def Head.shifted (n : Nat) (h : Head) : Head :=
  ⟨some (h.last.getD '\n'), h.rest, h.pos + n⟩

theorem carries_followedBy (d : Char) (tail : List Char) :
    Carries d (Head.followedBy (d :: tail)) := by
  constructor
  · intro h q hq
    rcases keepsOff_place hq with rfl | ⟨rfl, rfl⟩
    · rfl
    · cases hrest : h.rest <;> simp [Head.followedBy, Head.satisfies, Place.holds, hrest]
  · intro h s hs
    cases hrest : h.rest <;> simp [Head.followedBy, Head.meets, hrest, hs]
  · intro h s _ hmeets
    obtain ⟨last, rest, pos⟩ := h
    cases rest with
    | nil => simp [Head.meets] at hmeets
    | cons c rest => rfl
  · intro g h
    simp [Head.followedBy]

theorem carries_shifted (n : Nat) : Carries '\n' (Head.shifted n) := by
  constructor
  · intro h q hq
    rcases keepsOff_place hq with rfl | ⟨rfl, -⟩
    · cases hlast : h.last <;> simp [Head.shifted, Head.satisfies, Place.holds, hlast]
    · rfl
  · intro h s _
    rfl
  · intro h s _ _
    obtain ⟨last, rest, pos⟩ := h
    cases rest with
    | nil => rfl
    | cons c rest => simp [Head.shifted, Head.next?, Nat.add_right_comm]
  · intro g h
    rfl

theorem headsFrom_append (last : Option Char) (pos : Nat) (a : List Char) (d : Char)
    (b : List Char) :
    headsFrom last pos (a ++ d :: b) =
      (headsFrom last pos a).map (Head.followedBy (d :: b)) ++
        headsFrom (some d) (pos + a.length + 1) b := by
  induction a generalizing last pos with
  | nil => rfl
  | cons c a ih =>
    rw [List.cons_append, headsFrom, ih, headsFrom, List.map_cons, List.length_cons,
      Nat.add_right_comm pos 1, ← Nat.add_assoc]
    rfl

theorem headsFrom_shifted (last : Option Char) (pos n : Nat) (b : List Char) :
    headsFrom (some (last.getD '\n')) (pos + n) b =
      (headsFrom last pos b).map (Head.shifted n) := by
  induction b generalizing last pos with
  | nil => rfl
  | cons c b ih =>
    rw [headsFrom, headsFrom, List.map_cons, ← ih, Nat.add_right_comm]
    rfl

theorem ways_eq {p : Pattern} (hp : p.uncounted = true) (m n : Nat) : p.ways m = p.ways n :=
  funext fun h => congrArg (Course.ways · h) (ofPattern_eq hp m n)

theorem map_head?_ways {d : Char} {f : Head → Head} (hf : Carries d f) {p : Pattern}
    (hp : p.keepsOff d = true) (hcount : p.uncounted = true) (m n : Nat) (hs : List Head) :
    ((hs.map f).map fun h => (h, (p.ways m h).head?)) =
      (hs.map fun h => (h, (p.ways n h).head?)).map (carry f) := by
  rw [List.map_map, List.map_map]
  refine List.map_congr_left fun h _ => ?_
  have hways : p.ways m (f h) = (p.ways n h).map (End.map f) := by
    rw [carried_ways hf hp m h, ways_eq hcount m n]
  simp only [Function.comp_apply, carry, hways, List.head?_map]

/-- The ends in a text, up to a character that the pattern keeps off, are those of the text that
    stops there. -/
theorem ends_append {d : Char} {p : Pattern} (hp : p.keepsOff d = true)
    (hcount : p.uncounted = true) (a b : List Char) :
    p.ends (a ++ d :: b) = (p.ends a).map (carry (Head.followedBy (d :: b))) ++
      (headsFrom (some d) (a.length + 1) b).map fun h => (h, (p.ways b.length h).head?) := by
  rw [ends_eq, ends_eq, heads, heads, headsFrom_append, List.map_append, Nat.zero_add,
    map_head?_ways (carries_followedBy d b) hp hcount _ a.length,
    ways_eq hcount (a ++ d :: b).length b.length]

theorem within_ends {p : Pattern} {text : List Char} {x : Head × Option End} (hx : x ∈ p.ends text)
    {e : End} (he : e ∈ x.2) :
    e.head.Within text.length ∧ ∀ v ∈ e.events, v.head.Within text.length := by
  rw [ends_eq] at hx
  obtain ⟨h, hh, rfl⟩ := List.mem_map.mp hx
  have hwithin : h.Within text.length := by
    simpa using (within_of_mem_headsFrom hh).1
  exact Course.stays_ways (within_next text.length) _ h hwithin e
    (List.mem_of_mem_head? he)

/-- The matches before a character that the pattern keeps off keep what they keep without it. -/
theorem groups_disjoint_front {p : Pattern} {a : List Char} (tail : List Char) (done done' : Head)
    (hdone : done.pos = done'.pos) :
    (disjoint done' ((p.ends a).map (carry (Head.followedBy tail)))).map Match.group? =
      (disjoint done (p.ends a)).map Match.group? := by
  refine groups_disjoint (P := Head.Within a.length) (f := Head.followedBy tail)
    (fun g h => Iff.rfl) ?_ (fun x hx e he => (within_ends hx he).2) (fun x _ => by rw [hdone]; rfl)
  intro o h ho hh
  have hle : h.pos - o.pos ≤ o.rest.length := by
    simp only [Head.Within] at ho hh
    omega
  exact List.take_append_of_le_length hle

/-- The matches behind a line feed keep what they keep in a text that starts there. -/
theorem groups_disjoint_back (l : List (Head × Option End)) {n : Nat} {done' : Head}
    (hdone' : done'.pos ≤ n) (text : List Char) :
    (disjoint done' (l.map (carry (Head.shifted n)))).map Match.group? =
      (disjoint ⟨none, text, 0⟩ l).map Match.group? := by
  refine groups_disjoint (P := fun _ => True) (f := Head.shifted n)
    (fun g h => Nat.add_le_add_iff_right) ?_ (fun _ _ _ _ _ _ => trivial) ?_
  · intro o h _ _
    simp only [Head.shifted, Nat.add_sub_add_right]
  · intro x _
    simp only [Head.shifted, Nat.zero_le, iff_true]
    omega

/-- Up to a character that the pattern keeps off, it finds what it finds in the text that stops
    there. -/
theorem exists_groups_findAll_append {d : Char} {p : Pattern} (hp : p.keepsOff d = true)
    (hcount : p.uncounted = true) (a b : List Char) :
    ∃ done : Head, done.pos ≤ a.length ∧
      (p.findAll (a ++ d :: b)).map Match.group? = (p.findAll a).map Match.group? ++
        (disjoint done ((headsFrom (some d) (a.length + 1) b).map
          fun h => (h, (p.ways b.length h).head?))).map Match.group? := by
  have hfront : ∀ x ∈ (p.ends a).map (carry (Head.followedBy (d :: b))), ∀ e ∈ x.2,
      e.head.pos ≤ a.length := by
    intro x hx e he
    obtain ⟨y, hy, rfl⟩ := List.mem_map.mp hx
    obtain ⟨e', he', rfl⟩ := Option.map_eq_some_iff.mp he
    have hwithin := (within_ends hy he').1
    simp only [Head.Within] at hwithin
    simp only [End.map, Head.followedBy]
    omega
  obtain ⟨done, hdone, hsplit⟩ := disjoint_append hfront
    ((headsFrom (some d) (a.length + 1) b).map fun h => (h, (p.ways b.length h).head?))
    ⟨none, a ++ d :: b, 0⟩ (Nat.zero_le _)
  refine ⟨done, hdone, ?_⟩
  rw [findAll, ends_append hp hcount, hsplit, List.map_append,
    groups_disjoint_front (d :: b) ⟨none, a, 0⟩ ⟨none, a ++ d :: b, 0⟩ rfl]
  rfl

/-- In two texts with a line feed between them the pattern finds what it finds in the one, then what
    it finds in the other. -/
theorem groups_findAll_append {p : Pattern} (hp : p.keepsOff '\n' = true)
    (hcount : p.uncounted = true) (a b : List Char) :
    (p.findAll (a ++ '\n' :: b)).map Match.group? =
      (p.findAll a).map Match.group? ++ (p.findAll b).map Match.group? := by
  have hheads : headsFrom (some '\n') (a.length + 1) b =
      (heads b).map (Head.shifted (a.length + 1)) := by
    have hshift := headsFrom_shifted none 0 (a.length + 1) b
    rwa [Option.getD_none, Nat.zero_add] at hshift
  obtain ⟨done, hdone, hsplit⟩ := exists_groups_findAll_append hp hcount a b
  rw [hsplit, hheads, map_head?_ways (carries_shifted _) hp hcount _ b.length, ← ends_eq,
    groups_disjoint_back _ (by omega) b]
  rfl

/-! ### Patterns at the start of a line -/

theorem last_of_mem_headsFrom {last : Option Char} {pos : Nat} {text : List Char} {h : Head}
    (hh : h ∈ headsFrom last pos text) : h.last = last ∨ ∃ c ∈ text, h.last = some c := by
  induction text generalizing last pos with
  | nil => exact .inl (by rw [List.mem_singleton.mp hh])
  | cons c text ih =>
    rcases List.mem_cons.mp hh with rfl | hh
    · exact .inl rfl
    · rcases ih hh with hlast | ⟨d, hd, hlast⟩
      · exact .inr ⟨c, by simp, hlast⟩
      · exact .inr ⟨d, by simp [hd], hlast⟩

/-- Behind a character of a line no line starts. -/
theorem ways_lineStart_eq_nil {c : Char} (hc : c ≠ '\n') {b : List Char} (hb : '\n' ∉ b)
    (p : Pattern) (n pos : Nat) :
    ∀ x ∈ (headsFrom (some c) pos b).map (fun h => (h, ((seq lineStart p).ways n h).head?)),
      x.2 = none := by
  intro x hx
  obtain ⟨h, hh, rfl⟩ := List.mem_map.mp hx
  have hstart : h.satisfies (.lineStart false) = false := by
    rcases last_of_mem_headsFrom hh with hlast | ⟨d, hd, hlast⟩
    · simpa [Head.satisfies, Place.holds, hlast] using hc
    · have hne : d ≠ '\n' := fun heq => hb (heq ▸ hd)
      simpa [Head.satisfies, Place.holds, hlast] using hne
  simp [ways_seq, lineStart, ways_place, hstart]

/-- Of a line, only what stands before a character that the pattern keeps off is looked at. -/
theorem groups_findAll_lineStart {p : Pattern} {d : Char} (hp : p.keepsOff d = true)
    (hcount : p.uncounted = true) (a : List Char) {b : List Char} (hd : d ≠ '\n') (hb : '\n' ∉ b) :
    ((seq lineStart p).findAll (a ++ d :: b)).map Match.group? =
      ((seq lineStart p).findAll a).map Match.group? := by
  have hq : (seq lineStart p).keepsOff d = true := by simpa [keepsOff, lineStart] using hp
  have hqcount : (seq lineStart p).uncounted = true := by simpa [uncounted, lineStart] using hcount
  obtain ⟨done, -, hsplit⟩ := exists_groups_findAll_append hq hqcount a b
  rw [hsplit, disjoint_eq_nil (ways_lineStart_eq_nil hd hb p _ _), List.map_nil, List.append_nil]

end SourceWeb.Pattern
