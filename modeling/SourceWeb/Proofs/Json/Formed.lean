/-
  The form of JSON texts, whatever their strings and words spell and however deep they nest.

  What the reader accepts has this form, and so have texts that it refuses because a number is out
  of range, half of a pair of codes is missing, or too much nests in them.  Wherever a brace opens
  in a text of this form, an object begins there.
-/
import SourceWeb.Proofs.Json.Member

namespace SourceWeb.Json

/-! ### Forms -/

/-- What token lists are formed as. -/
inductive Part
  | value
  | items
  | members
  deriving DecidableEq, Repr

/-- Do the tokens have the form of such a part? -/
inductive Formed : Part → List Token → Prop
  | quoted (raw : List Char) : Formed .value [.quoted raw]
  | word (w : List Char) : Formed .value [.word w]
  | emptyArray : Formed .value [.mark '[', .mark ']']
  | array {ts : List Token} : Formed .items ts → Formed .value (.mark '[' :: (ts ++ [.mark ']']))
  | emptyObject : Formed .value [.mark '\x7b', .mark '\x7d']
  | object {ts : List Token} : Formed .members ts →
      Formed .value (.mark '\x7b' :: (ts ++ [.mark '\x7d']))
  | lastItem {ts : List Token} : Formed .value ts → Formed .items ts
  | item {ts us : List Token} : Formed .value ts → Formed .items us →
      Formed .items (ts ++ .mark ',' :: us)
  | lastMember (raw : List Char) {ts : List Token} : Formed .value ts →
      Formed .members (.quoted raw :: .mark ':' :: ts)
  | member (raw : List Char) {ts us : List Token} : Formed .value ts → Formed .members us →
      Formed .members (.quoted raw :: .mark ':' :: (ts ++ .mark ',' :: us))

def Form.part : Form → Part
  | value _ => .value
  | items _ => .items
  | members _ _ => .members

/-- What the grammar derives has the form of it. -/
theorem Reads.formed {depth : Nat} {form : Form} {ts : List Token} (h : Reads depth form ts) :
    Formed form.part ts := by
  induction h with
  | quoted _ => exact .quoted _
  | yes | no | null | number _ => exact .word _
  | emptyArray => exact .emptyArray
  | array _ ih => exact .array ih
  | emptyObject => exact .emptyObject
  | object _ ih => exact .object ih
  | lastItem _ ih => exact .lastItem ih
  | item _ _ ih ih' => exact .item ih ih'
  | lastMember _ _ ih => exact .lastMember _ ih
  | member _ _ _ ih ih' => exact .member _ ih ih'

/-! ### Objects -/

theorem Formed.of_object {ts : List Token} (h : Formed .value (.mark '\x7b' :: ts)) :
    ∃ us, ts = us ++ [.mark '\x7d'] ∧ (us = [] ∨ Formed .members us) := by
  generalize hts : Token.mark '\x7b' :: ts = all at h
  cases h with
  | emptyObject => exact ⟨[], (List.cons.inj hts).2, .inl rfl⟩
  | object h => exact ⟨_, (List.cons.inj hts).2, .inr h⟩
  | quoted | word | emptyArray | array => simp at hts

/-- Does an object begin wherever a brace opens in the tokens? -/
def Opens (ts : List Token) : Prop :=
  ∀ post, .mark '\x7b' :: post <:+ ts →
    ∃ us, Formed .value (.mark '\x7b' :: us) ∧ us <+: post

theorem opens_nil : Opens [] := by
  intro post h
  simp at h

theorem Opens.cons {t : Token} {ts : List Token} (h : Opens ts) (hne : t ≠ .mark '\x7b') :
    Opens (t :: ts) := by
  intro post hpost
  rcases List.suffix_cons_iff.mp hpost with heq | hpost
  · exact absurd (List.cons.inj heq).1.symm hne
  · exact h post hpost

theorem Opens.append {ts us : List Token} (h : Opens ts) (h' : Opens us) : Opens (ts ++ us) := by
  induction ts with
  | nil => exact h'
  | cons t ts ih =>
    intro post hpost
    rcases List.suffix_cons_iff.mp hpost with heq | hpost
    · obtain ⟨rfl, rfl⟩ := List.cons.inj heq
      obtain ⟨object, hobject, hin⟩ := h ts List.suffix_rfl
      exact ⟨object, hobject, hin.trans (List.prefix_append ts us)⟩
    · exact ih (fun post hin => h post (hin.trans (List.suffix_cons t ts))) post hpost

theorem Opens.object {ts : List Token} (h : Opens ts)
    (hobject : Formed .value (.mark '\x7b' :: ts)) : Opens (.mark '\x7b' :: ts) := by
  intro post hpost
  rcases List.suffix_cons_iff.mp hpost with heq | hpost
  · exact ⟨ts, hobject, (List.cons.inj heq).2 ▸ List.prefix_rfl⟩
  · exact h post hpost

/-- An object begins wherever a brace opens, at any depth. -/
theorem Formed.opens {part : Part} {ts : List Token} (h : Formed part ts) : Opens ts := by
  have hone {t : Token} (hne : t ≠ .mark '\x7b') : Opens [t] := opens_nil.cons hne
  induction h with
  | quoted | word => exact hone (by simp)
  | emptyArray => exact (hone (by simp)).cons (by simp)
  | array _ ih => exact (ih.append (hone (by simp))).cons (by simp)
  | emptyObject => exact (hone (by simp)).object .emptyObject
  | object h ih => exact (ih.append (hone (by simp))).object (.object h)
  | lastItem _ ih => exact ih
  | item _ _ ih ih' => exact ih.append (ih'.cons (by simp))
  | lastMember _ _ ih => exact (ih.cons (by simp)).cons (by simp)
  | member _ _ _ ih ih' => exact ((ih.append (ih'.cons (by simp))).cons (by simp)).cons (by simp)

/-- Is the text that of an object, from the brace that opens it to the one that closes it? -/
structure IsObject (cs : List Char) : Prop where
  head : cs.head? = some '\x7b'
  spelled : ∃ ts, Formed .value (.mark '\x7b' :: ts) ∧ Spells Blank (.mark '\x7b' :: ts) cs []

/-- What a text has in front of a mark, and what it has behind it. -/
theorem Made.at_mark {Gap : List Char → Prop} {pre post : List Token} {c : Char} {cs : List Char}
    (h : Made Gap (pre ++ .mark c :: post) cs) :
    ∃ before behind, cs = before ++ c :: behind ∧ Made Gap pre before ∧ Made Gap post behind := by
  obtain ⟨end_, hend, h⟩ := h
  obtain ⟨mid, hpre, hpost⟩ := h.of_append
  obtain ⟨w, rfl, hcut⟩ := hpre.cut
  cases hpost with
  | @cons g _ _ behind _ hg _ hbehind =>
    exact ⟨w ++ g, behind, by simp [Token.text], ⟨g, hg, hcut g⟩, end_, hend, hbehind⟩

/-- The object that begins where a brace opens in a text. -/
theorem Formed.exists_isObject {part : Part} {pre post : List Token} {behind : List Char}
    (h : Formed part (pre ++ .mark '\x7b' :: post)) (hbehind : Made Blank post behind) :
    ∃ object after, IsObject object ∧ '\x7b' :: behind = object ++ after := by
  obtain ⟨us, hus, later, rfl⟩ := h.opens post (List.suffix_append _ _)
  obtain ⟨g, -, hspells⟩ := hbehind
  have hopen : Spells Blank (.mark '\x7b' :: us ++ later) ('\x7b' :: behind) g :=
    .cons (g := []) blank_nil rfl hspells
  obtain ⟨after, hobject, -⟩ := hopen.of_append
  obtain ⟨object, hsplit, hcut⟩ := hobject.cut
  have hspelled : Spells Blank (.mark '\x7b' :: us) object [] := by
    have hnothing := hcut []
    rwa [List.append_nil] at hnothing
  refine ⟨object, after, ⟨?_, us, hus, hspelled⟩, hsplit⟩
  -- nothing stands in front of the brace
  cases object with
  | nil => exact absurd hspelled.length_le (by simp)
  | cons c object =>
    rw [(List.cons.inj hsplit).1]
    rfl

end SourceWeb.Json
