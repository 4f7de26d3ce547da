/-
  The bytes of a text.

  A character with a larger number is encoded by bytes that come later: longer codes begin with
  larger bytes, and of codes of one length the first bytes that differ are ordered as the numbers
  are.  So the order of texts is that of their bytes.
-/
import SourceWeb.Proofs.Text.Order
import SourceWeb.Text.Utf8

namespace SourceWeb.Text

def bytesOf (s : String) : List UInt8 :=
  s.toUTF8.data.toList

theorem bytesOf_eq (s : String) : bytesOf s = s.toList.flatMap String.utf8EncodeChar := by
  rw [bytesOf, String.toUTF8_eq_toByteArray, ← String.utf8Encode_toList, List.utf8Encode,
    List.toList_data_toByteArray]

theorem decode?_eq_some {bytes : ByteArray} {s : String} :
    decode? bytes = some s ↔ bytes = s.toUTF8 := by
  rw [decode?, String.fromUTF8?]
  split
  · rw [Option.some.injEq]
    constructor
    · rintro rfl
      rfl
    · rintro rfl
      rfl
  · rename_i hbroken
    refine iff_of_false (by simp) ?_
    rintro rfl
    exact hbroken s.isValidUTF8

/-! ### Characters -/

theorem ofNat_lt_ofNat {a b : Nat} (ha : a < 256) (hb : b < 256) :
    UInt8.ofNat a < UInt8.ofNat b ↔ a < b := by
  rw [UInt8.lt_iff_toNat_lt, UInt8.toNat_ofNat', UInt8.toNat_ofNat', Nat.mod_eq_of_lt ha,
    Nat.mod_eq_of_lt hb]

theorem ofNat_eq_ofNat {a b : Nat} (ha : a < 256) (hb : b < 256) :
    UInt8.ofNat a = UInt8.ofNat b ↔ a = b := by
  rw [← UInt8.toNat_inj, UInt8.toNat_ofNat', UInt8.toNat_ofNat', Nat.mod_eq_of_lt ha,
    Nat.mod_eq_of_lt hb]

/-- A character with a smaller number has bytes that come first, whatever follows them. -/
theorem utf8EncodeChar_lt {c d : Char} (h : c.toNat < d.toNat) (xs ys : List UInt8) :
    String.utf8EncodeChar c ++ xs < String.utf8EncodeChar d ++ ys := by
  have hvalid : d.val.toNat < 0x110000 := by
    rcases d.valid with hd | hd <;> omega
  have hlt : c.val.toNat < d.val.toNat := h
  have hsixths : ∀ n : Nat, n / 4096 = n / 64 / 64 ∧ n / 262144 = n / 64 / 64 / 64 := fun n => by
    omega
  unfold String.utf8EncodeChar
  generalize c.val.toNat = v, d.val.toNat = w at hvalid hlt
  simp only [(hsixths _).1, (hsixths _).2]
  -- a case for each pair of lengths; what is left compares the digits of the two numbers
  repeat' split
  all_goals
    simp (disch := omega) only [List.cons_append, List.cons_lt_cons_iff, ofNat_lt_ofNat,
      ofNat_eq_ofNat]
    omega

/-! ### Texts -/

theorem flatMap_lt_of_listPrecedes {cs ds : List Char}
    (h : listPrecedes (fun c d => c.toNat < d.toNat) cs ds = true) :
    cs.flatMap String.utf8EncodeChar < ds.flatMap String.utf8EncodeChar := by
  induction cs generalizing ds with
  | nil =>
    cases ds with
    | nil => simp [listPrecedes] at h
    | cons d ds =>
      obtain ⟨b, bs, hbytes⟩ := List.exists_cons_of_ne_nil (String.utf8EncodeChar_ne_nil (c := d))
      simp [hbytes]
  | cons c cs ih =>
    cases ds with
    | nil => simp [listPrecedes] at h
    | cons d ds =>
      rw [List.flatMap_cons, List.flatMap_cons]
      by_cases hcd : c = d
      · subst hcd
        simp only [listPrecedes, if_true] at h
        exact List.append_left_lt (ih h)
      · simp only [listPrecedes, hcd, if_false, decide_eq_true_eq] at h
        exact utf8EncodeChar_lt h _ _

/-- **The order of texts is that of their bytes.** -/
theorem precedes_iff {s t : String} : precedes s t = true ↔ bytesOf s < bytesOf t := by
  have hlt : ∀ {s t : String}, precedes s t = true → bytesOf s < bytesOf t := fun h => by
    rw [bytesOf_eq, bytesOf_eq]
    exact flatMap_lt_of_listPrecedes h
  refine ⟨hlt, fun h => ?_⟩
  have hne : s ≠ t := fun heq => List.lt_irrefl _ (heq ▸ h)
  exact (precedes_or hne).resolve_right fun hts => List.lt_asymm h (hlt hts)

theorem precedes_eq_false_iff {s t : String} : precedes s t = false ↔ bytesOf t ≤ bytesOf s := by
  rw [← Bool.not_eq_true, precedes_iff, List.not_lt]

end SourceWeb.Text
