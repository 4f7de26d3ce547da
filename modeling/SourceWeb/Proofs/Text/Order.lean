/-
  The order of texts is a linear one.
-/
import SourceWeb.Text.Order

namespace SourceWeb.Text

/-! ### Lists -/

section

variable {α : Type} [DecidableEq α] (before : α → α → Bool)

theorem listPrecedes_asymm (hbefore : ∀ a b, before a b = true → before b a = false)
    {as bs : List α} (h : listPrecedes before as bs = true) :
    listPrecedes before bs as = false := by
  induction as generalizing bs with
  | nil =>
    cases bs with
    | nil => rfl
    | cons b bs => rfl
  | cons a as ih =>
    cases bs with
    | nil => simp [listPrecedes] at h
    | cons b bs =>
      by_cases hab : a = b
      · subst hab
        simp only [listPrecedes, if_true] at h ⊢
        exact ih h
      · simp only [listPrecedes, hab, Ne.symm hab, if_false] at h ⊢
        exact hbefore a b h

theorem listPrecedes_trans (hasymm : ∀ a b, before a b = true → before b a = false)
    (htrans : ∀ a b c, before a b = true → before b c = true → before a c = true)
    {as bs cs : List α} (h : listPrecedes before as bs = true)
    (h' : listPrecedes before bs cs = true) : listPrecedes before as cs = true := by
  induction as generalizing bs cs with
  | nil =>
    cases cs with
    | nil => cases bs <;> simp [listPrecedes] at h'
    | cons c cs => rfl
  | cons a as ih =>
    cases bs with
    | nil => simp [listPrecedes] at h
    | cons b bs =>
      cases cs with
      | nil => simp [listPrecedes] at h'
      | cons c cs =>
        -- the first place where the outer lists differ is the earlier one of the two given
        by_cases hab : a = b
        · subst hab
          by_cases hac : a = c
          · subst hac
            simp only [listPrecedes, if_true] at h h' ⊢
            exact ih h h'
          · simp only [listPrecedes, hac, if_false] at h' ⊢
            exact h'
        · by_cases hbc : b = c
          · subst hbc
            simp only [listPrecedes, hab, if_false] at h ⊢
            exact h
          · simp only [listPrecedes, hab, hbc, if_false] at h h' ⊢
            have hac : a ≠ c := by
              rintro rfl
              simp [hasymm a b h] at h'
            simp only [hac, if_false]
            exact htrans a b c h h'

theorem listPrecedes_or (hbefore : ∀ a b, a ≠ b → before a b = true ∨ before b a = true)
    {as bs : List α} (h : as ≠ bs) :
    listPrecedes before as bs = true ∨ listPrecedes before bs as = true := by
  induction as generalizing bs with
  | nil =>
    cases bs with
    | nil => exact absurd rfl h
    | cons b bs => exact .inl rfl
  | cons a as ih =>
    cases bs with
    | nil => exact .inr rfl
    | cons b bs =>
      by_cases hab : a = b
      · subst hab
        simp only [listPrecedes, if_true]
        exact ih fun heq => h (by rw [heq])
      · simp only [listPrecedes, hab, Ne.symm hab, if_false]
        exact hbefore a b hab

end

/-! ### Texts -/

theorem precedes_asymm {s t : String} (h : precedes s t = true) : precedes t s = false := by
  refine listPrecedes_asymm _ (fun c d hcd => ?_) h
  simp only [decide_eq_true_eq, decide_eq_false_iff_not] at hcd ⊢
  omega

theorem precedes_trans {s t u : String} (h : precedes s t = true) (h' : precedes t u = true) :
    precedes s u = true := by
  refine listPrecedes_trans _ (fun c d hcd => ?_) (fun c d e hcd hde => ?_) h h'
  · simp only [decide_eq_true_eq, decide_eq_false_iff_not] at hcd ⊢
    omega
  · simp only [decide_eq_true_eq] at hcd hde ⊢
    omega

theorem precedes_or {s t : String} (h : s ≠ t) : precedes s t = true ∨ precedes t s = true := by
  refine listPrecedes_or _ (fun c d hcd => ?_) fun heq => h (String.toList_inj.mp heq)
  have hne : c.toNat ≠ d.toNat := fun heq => hcd (Char.toNat_inj.mp heq)
  simp only [decide_eq_true_eq]
  omega

end SourceWeb.Text
