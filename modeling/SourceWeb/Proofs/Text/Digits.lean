/-
  Reading a number of so many digits, and the character with a number as its code.
-/
import SourceWeb.Text.Digits

namespace SourceWeb.Text

theorem fixedNumber_eq_some {base width n : Nat} {cs rest : List Char}
    (h : fixedNumber base width cs = some (n, rest)) :
    ∃ ds, cs = ds ++ rest ∧ (∀ d ∈ ds, isDigitOf base d = true) ∧
      ∀ more, fixedNumber base width (ds ++ more) = some (n, more) := by
  rw [fixedNumber] at h
  split at h
  · rename_i hdigits
    cases h
    simp only [Bool.and_eq_true, decide_eq_true_eq, List.all_eq_true] at hdigits
    obtain ⟨hwidth, hall⟩ := hdigits
    refine ⟨cs.take width, (List.take_append_drop width cs).symm, hall, fun more => ?_⟩
    rw [fixedNumber, List.take_left' hwidth, List.drop_left' hwidth,
      if_pos (by simpa [hwidth] using hall)]
  · simp at h

/-- What stands behind the digits does not change the number. -/
theorem fixedNumber_append {base width n : Nat} {ds : List Char}
    (h : fixedNumber base width ds = some (n, [])) (more : List Char) :
    fixedNumber base width (ds ++ more) = some (n, more) := by
  obtain ⟨ds', hds, -, hread⟩ := fixedNumber_eq_some h
  rw [List.append_nil] at hds
  exact hds ▸ hread more

theorem eq_ofNat_of_toNat {c : Char} {n : Nat} (h : c.toNat = n) : c = Char.ofNat n := by
  rw [← h, Char.ofNat_toNat]

end SourceWeb.Text
