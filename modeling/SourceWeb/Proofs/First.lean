/-
  What is found first in a list.
-/
namespace SourceWeb

variable {α β γ : Type}

theorem findSome?_congr {f g : α → Option β} {l : List α} (h : ∀ a ∈ l, f a = g a) :
    l.findSome? f = l.findSome? g := by
  induction l with
  | nil => rfl
  | cons a l ih =>
    rw [List.findSome?_cons, List.findSome?_cons, h a List.mem_cons_self,
      ih fun b hb => h b (List.mem_cons_of_mem a hb)]

theorem findSome?_flatMap (f : β → Option γ) (g : α → List β) (l : List α) :
    (l.flatMap g).findSome? f = l.findSome? fun a => (g a).findSome? f := by
  induction l with
  | nil => rfl
  | cons a l ih =>
    rw [List.flatMap_cons, List.findSome?_append, ih, List.findSome?_cons]
    cases (g a).findSome? f <;> rfl

/-- The first of a list that leads anywhere, if all that stand in front of one that leads to `b`
    lead there too or nowhere. -/
theorem findSome?_of_pairwise {r : α → α → Prop} {f : α → Option β} {l : List α} {a : α} {b : β}
    (hl : l.Pairwise r) (ha : a ∈ l) (hb : f a = some b)
    (hbefore : ∀ x ∈ l, r x a → (f x).isSome = true → f x = some b) : l.findSome? f = some b := by
  induction l with
  | nil => simp at ha
  | cons x l ih =>
    obtain ⟨hx, hl⟩ := List.pairwise_cons.mp hl
    rw [List.findSome?_cons]
    rcases List.mem_cons.mp ha with rfl | ha
    · rw [hb]
    · cases hfx : f x with
      | none => exact ih hl ha fun y hy => hbefore y (List.mem_cons_of_mem x hy)
      | some c =>
        rw [← hfx, hbefore x List.mem_cons_self (hx a ha) (by rw [hfx]; rfl)]

end SourceWeb
