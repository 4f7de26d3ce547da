/-
  What the ways of a pattern take from a text, and in which order.

  For patterns that pass nothing on their way it is enough to know which texts they take: what a
  pattern is made of is combined into what the whole takes.  Repetitions of one character prefer to
  take more, and that order is kept when a character follows.
-/
import SourceWeb.Proofs.Pattern.Ways

namespace SourceWeb.Pattern

/-! ### What ways take -/

/-- Do the ways take from a text the beginnings that fit, and pass nothing on their way? -/
structure Takes (fits : List Char → Prop) (text : List Char) (ways : List End) : Prop where
  quiet : ∀ e ∈ ways, e.events = []
  rests : ∀ rest, (∃ e ∈ ways, e.head.rest = rest) ↔ ∃ m, text = m ++ rest ∧ fits m

section

variable {fits fits' : List Char → Prop} {text : List Char} {l l' : List End}

theorem Takes.exists_of_mem (h : Takes fits text l) {e : End} (he : e ∈ l) :
    ∃ m, text = m ++ e.head.rest ∧ fits m :=
  (h.rests _).mp ⟨e, he, rfl⟩

/-- Only the beginnings of the text matter. -/
theorem Takes.congr (h : Takes fits text l) (hfits : ∀ m, m <+: text → (fits m ↔ fits' m)) :
    Takes fits' text l where
  quiet := h.quiet
  rests rest := by
    rw [h.rests]
    refine exists_congr fun m => and_congr_right fun heq => hfits m ?_
    rw [heq]
    exact List.prefix_append m rest

theorem takes_here (h : Head) : Takes (· = []) h.rest [⟨h, []⟩] where
  quiet := by simp
  rests rest := by simp

theorem Takes.append (h : Takes fits text l) (h' : Takes fits' text l') :
    Takes (fun m => fits m ∨ fits' m) text (l ++ l') where
  quiet e he := (List.mem_append.mp he).elim (h.quiet e) (h'.quiet e)
  rests rest := by
    simp only [List.mem_append, or_and_right, exists_or, h.rests, h'.rests, and_or_left]

theorem Takes.andThen {ways : Head → List End} (h : Takes fits text l)
    (h' : ∀ e ∈ l, Takes fits' e.head.rest (ways e.head)) :
    Takes (fun m => ∃ a b, m = a ++ b ∧ fits a ∧ fits' b) text
      (l.flatMap fun e => (ways e.head).map (End.after e.events)) where
  quiet e he := by
    obtain ⟨e₁, he₁, hmap⟩ := List.mem_flatMap.mp he
    obtain ⟨e₂, he₂, rfl⟩ := List.mem_map.mp hmap
    simp [End.after, h.quiet e₁ he₁, (h' e₁ he₁).quiet e₂ he₂]
  rests rest := by
    constructor
    · rintro ⟨e, he, rfl⟩
      obtain ⟨e₁, he₁, hmap⟩ := List.mem_flatMap.mp he
      obtain ⟨e₂, he₂, rfl⟩ := List.mem_map.mp hmap
      obtain ⟨a, hcut, ha⟩ := h.exists_of_mem he₁
      obtain ⟨b, hcut', hb⟩ := (h' e₁ he₁).exists_of_mem he₂
      exact ⟨a ++ b, by rw [hcut, hcut', List.append_assoc]; rfl, a, b, rfl, ha, hb⟩
    · rintro ⟨-, hcut, a, b, rfl, ha, hb⟩
      rw [List.append_assoc] at hcut
      obtain ⟨e₁, he₁, hrest⟩ := (h.rests _).mpr ⟨a, hcut, ha⟩
      obtain ⟨e₂, he₂, rfl⟩ := ((h' e₁ he₁).rests rest).mpr ⟨b, hrest, hb⟩
      exact ⟨_, List.mem_flatMap.mpr ⟨e₁, he₁, List.mem_map_of_mem he₂⟩, rfl⟩

theorem takes_set (n : Nat) (s : CharSet) (h : Head) :
    Takes (fun m => ∃ c, s.has c = true ∧ m = [c]) h.rest (ways n (set s) h) := by
  obtain ⟨last, rest, pos⟩ := h
  cases rest with
  | nil =>
    rw [ways_set_nil]
    exact ⟨by simp, by simp⟩
  | cons c rest =>
    rw [ways_set]
    cases hc : s.has c with
    | false =>
      refine ⟨by simp, fun rest' => ?_⟩
      constructor
      · simp
      · rintro ⟨-, hcut, d, hd, rfl⟩
        obtain ⟨rfl, -⟩ := List.cons.inj hcut
        simp [hc] at hd
    | true =>
      refine ⟨by simp, fun rest' => ?_⟩
      constructor
      · rintro ⟨e, he, rfl⟩
        cases List.mem_singleton.mp he
        exact ⟨[c], rfl, c, hc, rfl⟩
      · rintro ⟨-, hcut, d, -, rfl⟩
        obtain ⟨-, rfl⟩ := List.cons.inj hcut
        exact ⟨_, List.mem_singleton_self _, rfl⟩

theorem takes_many (n : Nat) (s : CharSet) (h : Head) :
    Takes (fun m => ∀ c ∈ m, s.has c = true) h.rest (ways n (many (set s)) h) := by
  obtain ⟨last, rest, pos⟩ := h
  induction rest generalizing last pos with
  | nil =>
    rw [ways_many_nil]
    refine (takes_here _).congr fun m hm => ?_
    simp [List.prefix_nil.mp hm]
  | cons c rest ih =>
    rw [ways_many_cons]
    constructor
    · intro e he
      rcases List.mem_append.mp he with he | he
      · split at he
        · exact (ih _ _).quiet e he
        · simp at he
      · simp [List.mem_singleton.mp he]
    · intro rest'
      constructor
      · rintro ⟨e, he, rfl⟩
        rcases List.mem_append.mp he with he | he
        · split at he
          · rename_i hc
            obtain ⟨m, hcut, hm⟩ := (ih _ _).exists_of_mem he
            exact ⟨c :: m, congrArg (c :: ·) hcut, List.forall_mem_cons.mpr ⟨hc, hm⟩⟩
          · simp at he
        · rw [List.mem_singleton.mp he]
          exact ⟨[], rfl, by simp⟩
      · rintro ⟨m, hcut, hm⟩
        cases m with
        | nil =>
          rw [List.nil_append] at hcut
          exact ⟨_, List.mem_append_right _ (List.mem_singleton_self _), hcut⟩
        | cons d m =>
          obtain ⟨rfl, hrest⟩ := List.cons.inj hcut
          obtain ⟨hc, hm⟩ := List.forall_mem_cons.mp hm
          obtain ⟨e, he, rfl⟩ := ((ih (some c) (pos + 1)).rests rest').mpr ⟨m, hrest, hm⟩
          rw [if_pos hc]
          exact ⟨e, List.mem_append_left _ he, rfl⟩

end

/-! ### The order of ways -/

/-- Do ways that take more stand in front of those that take less? -/
def Greedy (ways : List End) : Prop :=
  ways.Pairwise fun e e' => e.head.rest <:+ e'.head.rest

theorem greedy_set (n : Nat) (s : CharSet) (h : Head) : Greedy (ways n (set s) h) := by
  obtain ⟨last, rest, pos⟩ := h
  cases rest with
  | nil => exact .nil
  | cons c rest =>
    rw [ways_set]
    split
    · exact List.pairwise_singleton _ _
    · exact .nil

theorem greedy_concat {l : List End} {h : Head} (hl : Greedy l)
    (hin : ∀ e ∈ l, e.head.rest <:+ h.rest) : Greedy (l ++ [⟨h, []⟩]) := by
  refine List.pairwise_append.mpr ⟨hl, List.pairwise_singleton _ _, fun e he e' he' => ?_⟩
  rw [List.mem_singleton.mp he']
  exact hin e he

theorem greedy_many (n : Nat) (s : CharSet) (h : Head) : Greedy (ways n (many (set s)) h) := by
  obtain ⟨last, rest, pos⟩ := h
  induction rest generalizing last pos with
  | nil =>
    rw [ways_many_nil]
    exact List.pairwise_singleton _ _
  | cons c rest ih =>
    rw [ways_many_cons]
    split
    · refine greedy_concat (ih _ _) fun e he => ?_
      obtain ⟨m, hcut, -⟩ := (takes_many n s ⟨some c, rest, pos + 1⟩).exists_of_mem he
      exact ⟨c :: m, (congrArg (c :: ·) hcut).symm⟩
    · exact List.pairwise_singleton _ _

/-- Where nothing outside of a set comes up to the end of the text, all of it is taken first. -/
theorem exists_head_many (n : Nat) {s : CharSet} {h : Head} (hs : ∀ c ∈ h.rest, s.has c = true) :
    ∃ e l, ways n (many (set s)) h = e :: l ∧ e.head.rest = [] ∧ e.events = [] := by
  obtain ⟨last, rest, pos⟩ := h
  induction rest generalizing last pos with
  | nil => exact ⟨_, [], ways_many_nil n s last pos, rfl, rfl⟩
  | cons c rest ih =>
    obtain ⟨hc, hrest⟩ := List.forall_mem_cons.mp hs
    obtain ⟨e, l, hl, hhead, hevents⟩ := ih (some c) (pos + 1) hrest
    refine ⟨e, l ++ [⟨⟨last, c :: rest, pos⟩, []⟩], ?_, hhead, hevents⟩
    rw [ways_many_cons, if_pos hc, hl, List.cons_append]

/-- A character behind a part does not change the order of its ways. -/
theorem greedy_seq_set {n : Nat} {p : Pattern} {h : Head} (hp : Greedy (ways n p h))
    (s : CharSet) : Greedy (ways n (seq p (set s)) h) := by
  have hrest : ∀ {g : Head} {e : End}, e ∈ ways n (set s) g → ∃ c, g.rest = c :: e.head.rest := by
    intro g e he
    obtain ⟨-, hcut, c, -, rfl⟩ := (takes_set n s g).exists_of_mem he
    exact ⟨c, hcut⟩
  rw [ways_seq]
  refine List.pairwise_flatMap.mpr ⟨fun e _ => ?_, hp.imp fun {e e'} hsuffix f hf f' hf' => ?_⟩
  · exact List.pairwise_map.mpr (greedy_set n s e.head)
  · obtain ⟨f, hmem, rfl⟩ := List.mem_map.mp hf
    obtain ⟨f', hmem', rfl⟩ := List.mem_map.mp hf'
    obtain ⟨c, hc⟩ := hrest hmem
    obtain ⟨c', hc'⟩ := hrest hmem'
    rw [hc, hc'] at hsuffix
    show f.head.rest <:+ f'.head.rest
    rcases List.suffix_cons_iff.mp hsuffix with heq | hsuffix
    · exact (List.cons.inj heq).2 ▸ List.suffix_refl _
    · exact (List.suffix_cons c _).trans hsuffix

end SourceWeb.Pattern
