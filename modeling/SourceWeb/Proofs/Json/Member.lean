/-
  Where the value of a key is written.

  A value that an object has under a key was read from the tokens behind that key, which is spelled
  in some way there.
-/
import SourceWeb.Proofs.Json.Arranged

namespace SourceWeb.Json

/-! ### Room to nest -/

theorem Reads.succ {depth : Nat} {form : Form} {ts : List Token} (h : Reads depth form ts) :
    Reads (depth + 1) form ts := by
  induction h with
  | quoted hbody => exact .quoted hbody
  | yes => exact .yes
  | no => exact .no
  | null => exact .null
  | number hnumber => exact .number hnumber
  | emptyArray => exact .emptyArray
  | array _ ih => exact .array ih
  | emptyObject => exact .emptyObject
  | object _ ih => exact .object ih
  | lastItem _ ih => exact .lastItem ih
  | item _ _ ih ih' => exact .item ih ih'
  | lastMember hkey _ ih => exact .lastMember hkey ih
  | member hkey _ _ ih ih' => exact .member hkey ih ih'

@[simp] theorem Token.proper_mark (c : Char) : (mark c).Proper ↔ isMark c = true :=
  Iff.rfl

@[simp] theorem Token.proper_quoted (raw : List Char) : (quoted raw).Proper ↔ Closed raw :=
  Iff.rfl

/-- Texts can hold the tokens that are read. -/
theorem Reads.proper {depth : Nat} {form : Form} {ts : List Token} (h : Reads depth form ts) :
    ∀ t ∈ ts, t.Proper := by
  have hword {text : List Char} (hne : text ≠ []) (hall : text.all isWordChar = true) :
      ∀ t ∈ [Token.word text], t.Proper := by
    simpa [Token.Proper, hne] using hall
  induction h with
  | quoted hbody => simpa using hbody.closed
  | yes | no | null => exact hword (by simp) (by decide)
  | number hnumber =>
    obtain ⟨w, hw, hall⟩ := worded_number.takes hnumber
    rw [List.append_nil] at hw
    subst hw
    refine hword ?_ (List.all_eq_true.mpr hall)
    rintro rfl
    simp [number_nil] at hnumber
  | emptyArray | emptyObject => simp [isMark]
  | array _ ih | object _ ih => simpa [isMark, or_imp, forall_and] using ih
  | lastItem _ ih => exact ih
  | item _ _ ih ih' => simpa [isMark, or_imp, forall_and] using ⟨ih, ih'⟩
  | lastMember hkey _ ih => simpa [isMark, or_imp, forall_and] using ⟨hkey.closed, ih⟩
  | member hkey _ _ ih ih' => simpa [isMark, or_imp, forall_and] using ⟨hkey.closed, ih, ih'⟩

/-! ### Members -/

theorem Reads.of_lookup {depth : Nat} {read ms : List (String × Json)} {ts : List Token}
    (h : Reads depth (.members read ms) ts) {key : String} {v : Json}
    (hv : ms.lookup key = some v) : read.lookup key = some v ∨
      ∃ raw us, Body raw key.toList ∧ Reads depth (.value v) us ∧
        .quoted raw :: .mark ':' :: us <:+: ts := by
  generalize hform : Form.members read ms = form at h
  induction h generalizing read ms with
  | @lastMember depth read raw name u us hkey hu _ =>
    cases hform
    rw [lookup_putMember] at hv
    split_ifs at hv with hsame
    · right
      cases hv
      refine ⟨raw, us, ?_, hu, List.infix_rfl⟩
      rwa [hsame, String.toList_ofList]
    · exact .inl hv
  | @member depth read ms raw name u us ts hkey hu _ _ ih =>
    cases hform
    rcases ih hv rfl with hread | ⟨raw', us', hkey', hv', hin⟩
    · rw [lookup_putMember] at hread
      split_ifs at hread with hsame
      · right
        cases hread
        refine ⟨raw, us, ?_, hu, [], .mark ',' :: ts, by simp⟩
        rwa [hsame, String.toList_ofList]
      · exact .inl hread
    · right
      refine ⟨raw', us', hkey', hv', ?_⟩
      have hrest : ts <:+: .quoted raw :: .mark ':' :: (us ++ .mark ',' :: ts) :=
        ⟨.quoted raw :: .mark ':' :: (us ++ [.mark ',']), [], by simp⟩
      exact hin.trans hrest
  | _ => cases hform

/-- The value of a key stands behind the key. -/
theorem Reads.of_get? {depth : Nat} {v w : Json} {ts : List Token}
    (h : Reads depth (.value v) ts) {key : String} (hw : v.get? key = some w) :
    ∃ raw us, Body raw key.toList ∧ Reads depth (.value w) us ∧
      .quoted raw :: .mark ':' :: us <:+: ts := by
  cases h with
  | @object depth ms ts hms =>
    rcases hms.of_lookup hw with hnone | ⟨raw, us, hkey, hw, hin⟩
    · cases hnone
    · refine ⟨raw, us, hkey, hw.succ, hin.trans ⟨[.mark '\x7b'], [.mark '\x7d'], ?_⟩⟩
      simp
  | quoted _ | yes | no | null | number _ | emptyArray | array _ | emptyObject => cases hw

theorem infix_of_member {t u : Token} {us ts : List Token} (h : t :: u :: us <:+: ts) :
    us <:+: ts :=
  ((List.suffix_cons u us).trans (List.suffix_cons t (u :: us))).isInfix.trans h

/-! ### Places in a text -/

variable {Gap : List Char → Prop} {ts us : List Token} {cs rest : List Char}

/-- The part of a text that spells the tokens does so in front of any other rest. -/
theorem Spells.cut (h : Spells Gap ts cs rest) :
    ∃ w, cs = w ++ rest ∧ ∀ rest', Spells Gap ts (w ++ rest') rest' := by
  induction h with
  | nil rest => exact ⟨[], rfl, .nil⟩
  | @cons g t ts cs rest hg ht _ ih =>
    obtain ⟨w, rfl, hw⟩ := ih
    refine ⟨g ++ (t.text ++ w), by simp, ?_⟩
    intro rest'
    rw [List.append_assoc, List.append_assoc]
    exact .cons hg ht (hw rest')

theorem Made.of_infix (h : Made Gap ts cs) (hin : us <:+: ts) :
    ∃ before mid rest, cs = before ++ mid ∧ Spells Gap us mid rest := by
  obtain ⟨ts₁, ts₂, rfl⟩ := hin
  obtain ⟨g, -, h⟩ := h
  obtain ⟨end_, h, -⟩ := h.of_append
  obtain ⟨mid, h₁, hus⟩ := h.of_append
  obtain ⟨before, hcut, -⟩ := h₁.cut
  exact ⟨before, mid, end_, hcut, hus⟩

/-- Where a key stands, and what is written behind it. -/
theorem Made.of_member {raw : List Char} (h : Made Gap ts cs)
    (hin : .quoted raw :: .mark ':' :: us <:+: ts) :
    ∃ before g mid rest, cs = before ++ ((Token.quoted raw).text ++ (g ++ ':' :: mid)) ∧ Gap g ∧
      Spells Gap us mid rest := by
  obtain ⟨before, mid, rest, rfl, hmember⟩ := h.of_infix hin
  cases hmember with
  | @cons g₁ _ _ _ _ _ _ hcolon =>
    cases hcolon with
    | @cons g _ _ mid _ hg _ hus =>
      exact ⟨before ++ g₁, g, mid, rest, by simp [Token.text], hg, hus⟩

end SourceWeb.Json
