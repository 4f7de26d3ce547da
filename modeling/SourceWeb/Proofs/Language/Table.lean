/-
  What is known of languages once they are registered.

  A language that claims an ending takes it from whoever had it, so the last one to claim an ending
  has it.  The ending itself keeps the place at which it was first claimed.
-/
import Mathlib.Data.List.Basic
import Mathlib.Data.List.Induction
import SourceWeb.Language.Registry

namespace SourceWeb

/-! ### First occurrences -/

/-- Does `kept` hold what `all` holds, in the order of the first occurrences there? -/
structure InFirstOrder (all kept : List String) : Prop where
  mem_iff : ∀ s, s ∈ kept ↔ s ∈ all
  order : kept.Pairwise fun s t => all.idxOf s < all.idxOf t

namespace InFirstOrder

variable {all kept : List String}

theorem nil : InFirstOrder [] [] :=
  ⟨fun _ => Iff.rfl, List.Pairwise.nil⟩

theorem nodup (h : InFirstOrder all kept) : kept.Nodup := by
  refine h.order.imp ?_
  rintro s t hlt rfl
  exact Nat.lt_irrefl _ hlt

theorem idxOf_concat (h : InFirstOrder all kept) {s : String} (hs : s ∈ kept) (t : String) :
    (all ++ [t]).idxOf s = all.idxOf s :=
  List.idxOf_append_of_mem ((h.mem_iff s).mp hs)

theorem order_concat (h : InFirstOrder all kept) (t : String) :
    kept.Pairwise fun s s' => (all ++ [t]).idxOf s < (all ++ [t]).idxOf s' := by
  refine h.order.imp_of_mem fun hs hs' hlt => ?_
  rw [h.idxOf_concat hs, h.idxOf_concat hs']
  exact hlt

theorem concat_of_mem (h : InFirstOrder all kept) {t : String} (ht : t ∈ all) :
    InFirstOrder (all ++ [t]) kept := by
  refine ⟨fun s => ?_, h.order_concat t⟩
  rw [h.mem_iff, List.mem_append, List.mem_singleton]
  constructor
  · exact Or.inl
  · rintro (hs | rfl)
    · exact hs
    · exact ht

theorem concat_of_not_mem (h : InFirstOrder all kept) {t : String} (ht : t ∉ all) :
    InFirstOrder (all ++ [t]) (kept ++ [t]) := by
  refine ⟨fun s => by rw [List.mem_append, List.mem_append, h.mem_iff], ?_⟩
  refine List.pairwise_append.mpr ⟨h.order_concat t, List.pairwise_singleton _ _, ?_⟩
  intro s hs s' hs'
  have hall := (h.mem_iff s).mp hs
  rw [List.mem_singleton.mp hs', h.idxOf_concat hs, List.idxOf_append_of_notMem ht]
  exact Nat.lt_of_lt_of_le (List.idxOf_lt_length_of_mem hall) (Nat.le_add_right _ _)

end InFirstOrder

/-- Nothing that satisfies a test occurs before the first that does. -/
theorem idxOf_le_of_find? {test : String → Bool} {all : List String} {s t : String}
    (hs : all.find? test = some s) (ht : t ∈ all) (htest : test t = true) :
    all.idxOf s ≤ all.idxOf t := by
  induction all with
  | nil => simp at ht
  | cons first all ih =>
    cases hfirst : test first with
    | true =>
      rw [List.find?_cons_of_pos hfirst, Option.some.injEq] at hs
      subst hs
      simp
    | false =>
      have hne : ∀ {u : String}, test u = true → first ≠ u := by
        rintro u hu rfl
        simp [hfirst] at hu
      rw [List.find?_cons_of_neg (by simp [hfirst])] at hs
      rw [List.idxOf_cons_ne _ (hne (List.find?_some hs)), List.idxOf_cons_ne _ (hne htest)]
      exact Nat.succ_le_succ (ih hs ((List.mem_cons.mp ht).resolve_left (hne htest).symm))

/-- Repetition does not change what is found first. -/
theorem InFirstOrder.find?_eq {all kept : List String} (h : InFirstOrder all kept)
    (test : String → Bool) : kept.find? test = all.find? test := by
  cases hkept : kept.find? test with
  | none =>
    refine (List.find?_eq_none.mpr fun s hs => ?_).symm
    exact List.find?_eq_none.mp hkept s ((h.mem_iff s).mpr hs)
  | some s =>
    obtain ⟨hs, before, after, rfl, hbefore⟩ := List.find?_eq_some_iff_append.mp hkept
    have hmem : s ∈ all := (h.mem_iff s).mp (by simp)
    obtain ⟨t, ht⟩ := Option.isSome_iff_exists.mp (List.find?_isSome.mpr ⟨s, hmem, hs⟩)
    have htest := List.find?_some ht
    have hle := idxOf_le_of_find? ht hmem hs
    -- what is found in `all` is kept, but neither before nor after what is found there
    rcases List.mem_append.mp ((h.mem_iff t).mpr (List.mem_of_find?_eq_some ht)) with hin | hin
    · exact absurd htest (by simpa using hbefore t hin)
    · rcases List.mem_cons.mp hin with rfl | hin
      · exact ht.symm
      · have hlt := List.rel_of_pairwise_cons (List.pairwise_append.mp h.order).2.1 hin
        exact absurd hle (Nat.not_le.mpr hlt)

/-! ### Claims -/

/-- Is this the last of the languages that claim the ending? -/
def LastToClaim (ending : String) (languages : List Language) (l : Language) : Prop :=
  ∃ before after, languages = before ++ l :: after ∧ ending ∈ l.endings ∧
    ∀ l' ∈ after, ending ∉ l'.endings

variable {ending : String} {languages : List Language} {l l' : Language}

theorem not_lastToClaim_nil : ¬ LastToClaim ending [] l := by
  rintro ⟨before, after, hnil, -⟩
  simp at hnil

theorem lastToClaim_concat_of_mem (h : ending ∈ l.endings) :
    LastToClaim ending (languages ++ [l]) l' ↔ l' = l := by
  constructor
  · rintro ⟨before, after, hlist, -, hafter⟩
    rcases List.eq_nil_or_concat after with rfl | ⟨after, last, rfl⟩
    · exact (List.append_inj' hlist rfl).2 |> List.cons.inj |>.1.symm
    · rw [List.concat_eq_append, ← List.cons_append, ← List.append_assoc] at hlist
      have hlast := (List.cons.inj (List.append_inj' hlist rfl).2).1
      exact absurd (hlast ▸ h) (hafter last (by simp))
  · rintro rfl
    exact ⟨languages, [], rfl, h, by simp⟩

theorem lastToClaim_concat_of_not_mem (h : ending ∉ l.endings) :
    LastToClaim ending (languages ++ [l]) l' ↔ LastToClaim ending languages l' := by
  constructor
  · rintro ⟨before, after, hlist, hmem, hafter⟩
    rcases List.eq_nil_or_concat after with rfl | ⟨after, last, rfl⟩
    · have hlast := (List.cons.inj (List.append_inj' hlist rfl).2).1
      exact absurd (hlast ▸ hmem) h
    · rw [List.concat_eq_append, ← List.cons_append, ← List.append_assoc] at hlist
      exact ⟨before, after, (List.append_inj' hlist rfl).1, hmem,
        fun l'' hl'' => hafter l'' (by simp [hl''])⟩
  · rintro ⟨before, after, rfl, hmem, hafter⟩
    refine ⟨before, after ++ [l], by simp, hmem, fun l'' hl'' => ?_⟩
    rcases List.mem_append.mp hl'' with hl'' | hl''
    · exact hafter l'' hl''
    · rw [List.mem_singleton.mp hl'']
      exact h

namespace Registry

namespace Table

variable {t : Table} {all : List String}

theorem owner?_claim (l : Language) (t : Table) (e ending : String) :
    (claim l t e).owner? ending = if ending = e then some l else t.owner? ending := by
  rw [owner?, claim, List.lookup_cons]
  by_cases h : ending = e
  · simp [h]
  · rw [if_neg h, beq_eq_false_iff_ne.mpr h, owner?]

theorem owner?_foldl_claim (l : Language) (es : List String) (t : Table) (ending : String) :
    (es.foldl (claim l) t).owner? ending =
      if ending ∈ es then some l else t.owner? ending := by
  induction es generalizing t with
  | nil => simp
  | cons e es ih =>
    rw [List.foldl_cons, ih, owner?_claim]
    by_cases hmem : ending ∈ es <;> by_cases he : ending = e <;> simp [hmem, he]

theorem resolvers_foldl_claim (l : Language) (es : List String) (t : Table) :
    (es.foldl (claim l) t).resolvers = t.resolvers := by
  induction es generalizing t with
  | nil => rfl
  | cons e es ih => rw [List.foldl_cons, ih, claim]

/-- Does the table list the endings claimed so far, each with its language? -/
structure Lists (t : Table) (all : List String) : Prop where
  endings : InFirstOrder all t.endings
  owned : ∀ e, (t.owner? e).isSome = true ↔ e ∈ all

theorem lists_empty : Lists .empty [] :=
  ⟨.nil, fun e => by simp [owner?, empty]⟩

theorem Lists.claim (h : t.Lists all) (l : Language) (e : String) :
    (Table.claim l t e).Lists (all ++ [e]) := by
  refine ⟨?_, fun ending => ?_⟩
  · rw [Table.claim]
    cases howned : (t.owner? e).isSome with
    | true => exact h.endings.concat_of_mem ((h.owned e).mp howned)
    | false =>
      have hnew : e ∉ all := fun he => by simp [(h.owned e).mpr he] at howned
      exact h.endings.concat_of_not_mem hnew
  · rw [owner?_claim, List.mem_append, List.mem_singleton, ← h.owned]
    by_cases he : ending = e <;> simp [he]

theorem Lists.foldl_claim (h : t.Lists all) (l : Language) (es : List String) :
    (es.foldl (Table.claim l) t).Lists (all ++ es) := by
  induction es generalizing t all with
  | nil => simpa using h
  | cons e es ih =>
    rw [List.foldl_cons, List.append_cons]
    exact ih (h.claim l e)

/-! ### Registration -/

theorem owner?_register (t : Table) (l : Language) (ending : String) :
    (t.register l).owner? ending =
      if ending ∈ l.endings then some l else t.owner? ending := by
  rw [← owner?_foldl_claim, register]
  split <;> rfl

theorem Lists.register (h : t.Lists all) (l : Language) :
    (t.register l).Lists (all ++ l.endings) := by
  have hclaimed := h.foldl_claim l l.endings
  rw [Table.register]
  split
  · exact ⟨hclaimed.endings, hclaimed.owned⟩
  · exact hclaimed

theorem resolvers_register (t : Table) (l : Language) :
    (t.register l).resolvers = t.resolvers ++ [l].filter fun l => l.resolver.isSome := by
  rw [register]
  cases h : l.resolver.isSome <;> simp [h, resolvers_foldl_claim]

/-- What a table says of the languages registered so far: each ending is that of the last language
    to claim it, the endings are those claimed, in the order of the first claims, and the languages
    that can look up references are kept in their order. -/
structure Knows (t : Table) (languages : List Language) : Prop where
  owner : ∀ ending l, t.owner? ending = some l ↔ LastToClaim ending languages l
  lists : t.Lists (languages.flatMap Language.endings)
  resolvers : t.resolvers = languages.filter fun l => l.resolver.isSome

theorem knows_empty : Knows .empty [] where
  owner ending l := by
    simp only [owner?, empty, List.lookup_nil, reduceCtorEq, false_iff]
    exact not_lastToClaim_nil
  lists := lists_empty
  resolvers := rfl

theorem Knows.register (h : t.Knows languages) (l : Language) :
    (t.register l).Knows (languages ++ [l]) where
  owner ending l' := by
    rw [owner?_register]
    by_cases hmem : ending ∈ l.endings
    · rw [if_pos hmem, lastToClaim_concat_of_mem hmem, Option.some.injEq, eq_comm]
    · rw [if_neg hmem, lastToClaim_concat_of_not_mem hmem]
      exact h.owner ending l'
  lists := by
    rw [List.flatMap_append, List.flatMap_singleton]
    exact h.lists.register l
  resolvers := by
    rw [resolvers_register, h.resolvers, List.filter_append]

end Table

theorem knows_table (r : Registry) : r.table.Knows r.languages := by
  rw [table]
  induction r.languages using List.reverseRecOn with
  | nil => exact Table.knows_empty
  | append_singleton languages l ih =>
    rw [List.foldl_append]
    exact ih.register l

def claims (r : Registry) : List String :=
  r.languages.flatMap Language.endings

theorem inFirstOrder_endings (r : Registry) : InFirstOrder r.claims r.endings :=
  r.knows_table.lists.endings

theorem owner?_eq_some_iff {r : Registry} :
    r.owner? ending = some l ↔ LastToClaim ending r.languages l :=
  r.knows_table.owner ending l

theorem isSome_owner? {r : Registry} : (r.owner? ending).isSome = true ↔ ending ∈ r.endings :=
  (r.knows_table.lists.owned ending).trans (r.inFirstOrder_endings.mem_iff ending).symm

theorem resolvers_eq (r : Registry) :
    r.resolvers = r.languages.filter fun l => l.resolver.isSome :=
  r.knows_table.resolvers

theorem mem_languages_of_mem_resolvers {r : Registry} {l : Language} (h : l ∈ r.resolvers) :
    l ∈ r.languages := by
  rw [resolvers_eq] at h
  exact (List.mem_filter.mp h).1

end Registry

end SourceWeb
