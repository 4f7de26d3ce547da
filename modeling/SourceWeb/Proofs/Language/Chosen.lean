/-
  Which language the name of a file chooses.

  Of the dotted endings that a name has, the longest one decides.  Only for want of one does a whole
  name that it begins with, and then the one that was claimed first.  Either belongs to the last
  language that claims it.
-/
import SourceWeb.Proofs.Language.Registry
import SourceWeb.Proofs.Text.Split

namespace SourceWeb

open SourceWeb.Text

/-! ### What a name ends in or begins with -/

def Dotted (ending : String) : Prop :=
  ∃ rest, ending = "." ++ rest

/-- Does the name end in this dotted ending, with something before it? -/
def EndsIn (name ending : String) : Prop :=
  Dotted ending ∧ ∃ start, start ≠ "" ∧ name = start ++ ending

/-- Has the name no dot, and does it begin with this whole name? -/
def BeginsWith (name ending : String) : Prop :=
  ¬ Dotted ending ∧ ¬ Holds '.' name ∧ ∃ rest, name = ending ++ rest

variable {name ending : String}

theorem isWholeName_eq_false_iff : isWholeName ending = false ↔ Dotted ending := by
  rw [isWholeName, Bool.not_eq_false', startsWith_iff_append, Dotted]

theorem isWholeName_iff : isWholeName ending = true ↔ ¬ Dotted ending := by
  rw [← isWholeName_eq_false_iff, Bool.not_eq_false]

theorem endsIn_iff :
    EndsIn name ending ↔ isWholeName ending = false ∧ hasEnding name ending = true := by
  rw [EndsIn, ← isWholeName_eq_false_iff]
  refine and_congr_right fun hdotted => ?_
  rw [hasEnding, hdotted, if_neg Bool.false_ne_true, Bool.and_eq_true, decide_eq_true_eq,
    endsWith_iff]
  constructor
  · rintro ⟨start, hstart, rfl⟩
    refine ⟨?_, start, rfl⟩
    have hpos : start.utf8ByteSize ≠ 0 := by simpa using hstart
    rw [String.utf8ByteSize_append]
    omega
  · rintro ⟨hsize, start, rfl⟩
    refine ⟨start, ?_, rfl⟩
    rintro rfl
    simp at hsize

theorem beginsWith_iff :
    BeginsWith name ending ↔ isWholeName ending = true ∧ hasEnding name ending = true := by
  rw [BeginsWith, ← isWholeName_iff]
  refine and_congr_right fun hwhole => ?_
  rw [hasEnding, hwhole, if_pos rfl, Bool.and_eq_true, startsWith_iff_append, Holds]
  simp

instance (name ending : String) : Decidable (EndsIn name ending) :=
  decidable_of_iff _ endsIn_iff.symm

instance (name ending : String) : Decidable (BeginsWith name ending) :=
  decidable_of_iff _ beginsWith_iff.symm

namespace Registry

variable {r : Registry}

/-! ### The ending that decides -/

/-- Is this the longest of the claimed endings that the name has? -/
structure Longest (r : Registry) (name ending : String) : Prop where
  claimed : ending ∈ r.claims
  ends : EndsIn name ending
  longest : ∀ e ∈ r.claims, EndsIn name e → e.utf8ByteSize ≤ ending.utf8ByteSize

/-- Is this the first of the claims to a whole name that the name begins with? -/
def FirstWhole (r : Registry) (name ending : String) : Prop :=
  ∃ before after, r.claims = before ++ ending :: after ∧ BeginsWith name ending ∧
    ∀ e ∈ before, ¬ BeginsWith name e

/-- The dotted endings in the order in which they are tried. -/
def bySize (r : Registry) : List String :=
  r.probeEndings.mergeSort fun a b => a.utf8ByteSize ≥ b.utf8ByteSize

theorem mem_bySize : ending ∈ r.bySize ↔ ending ∈ r.claims ∧ isWholeName ending = false := by
  rw [bySize, List.mem_mergeSort, probeEndings, List.mem_filter, r.inFirstOrder_endings.mem_iff,
    Bool.not_eq_true']

theorem pairwise_bySize (r : Registry) :
    r.bySize.Pairwise fun a b => b.utf8ByteSize ≤ a.utf8ByteSize := by
  refine (List.pairwise_mergeSort ?_ ?_ r.probeEndings).imp ?_
  · intro a b c hab hbc
    simp only [ge_iff_le, decide_eq_true_eq] at hab hbc ⊢
    exact Nat.le_trans hbc hab
  · intro a b
    simp only [ge_iff_le, Bool.or_eq_true, decide_eq_true_eq]
    exact Nat.le_total _ _
  · intro a b h
    simpa using h

/-- What is found among the dotted endings is the longest that the name has. -/
theorem longest_of_find? (h : r.bySize.find? (hasEnding name) = some ending) :
    r.Longest name ending := by
  obtain ⟨hclaimed, hdotted⟩ := mem_bySize.mp (List.mem_of_find?_eq_some h)
  obtain ⟨hhas, before, after, hlist, hbefore⟩ := List.find?_eq_some_iff_append.mp h
  refine ⟨hclaimed, endsIn_iff.mpr ⟨hdotted, hhas⟩, fun e he hends => ?_⟩
  obtain ⟨hedotted, hehas⟩ := endsIn_iff.mp hends
  -- an ending that the name has is none of those tried before
  have hin := hlist ▸ mem_bySize.mpr ⟨he, hedotted⟩
  rcases List.mem_append.mp hin with hin | hin
  · exact absurd hehas (by simpa using hbefore e hin)
  · rcases List.mem_cons.mp hin with rfl | hin
    · exact Nat.le_refl _
    · have hsorted := r.pairwise_bySize
      rw [hlist] at hsorted
      exact List.rel_of_pairwise_cons (List.pairwise_append.mp hsorted).2.1 hin

/-- What is found among the whole names is the first that was claimed. -/
theorem firstWhole_of_find?
    (h : (r.endings.filter isWholeName).find? (hasEnding name) = some ending) :
    r.FirstWhole name ending := by
  have htest : ∀ e, decide (isWholeName e = true ∧ hasEnding name e = true) = true ↔
      BeginsWith name e := fun e => by
    rw [decide_eq_true_eq, beginsWith_iff]
  rw [List.find?_filter, r.inFirstOrder_endings.find?_eq] at h
  obtain ⟨hhas, before, after, hlist, hbefore⟩ := List.find?_eq_some_iff_append.mp h
  refine ⟨before, after, hlist, (htest ending).mp hhas, fun e he hbegins => ?_⟩
  have hnot := hbefore e he
  rw [(htest e).mpr hbegins] at hnot
  simp at hnot

theorem find?_matchOrder (r : Registry) (name : String) :
    r.matchOrder.find? (hasEnding name) = (r.bySize.find? (hasEnding name)).or
      ((r.endings.filter isWholeName).find? (hasEnding name)) :=
  List.find?_append

theorem exists_find?_longest (h : ∃ e ∈ r.claims, EndsIn name e) :
    ∃ ending, r.matchOrder.find? (hasEnding name) = some ending ∧ r.Longest name ending := by
  obtain ⟨e, he, hends⟩ := h
  obtain ⟨hdotted, hhas⟩ := endsIn_iff.mp hends
  obtain ⟨ending, hfind⟩ := Option.isSome_iff_exists.mp <| List.find?_isSome.mpr
    ⟨e, mem_bySize.mpr ⟨he, hdotted⟩, hhas⟩
  refine ⟨ending, ?_, longest_of_find? hfind⟩
  rw [find?_matchOrder, hfind, Option.some_or]

theorem find?_bySize_eq_none (h : ∀ e ∈ r.claims, ¬ EndsIn name e) :
    r.bySize.find? (hasEnding name) = none := by
  refine List.find?_eq_none.mpr fun e he hhas => ?_
  obtain ⟨hclaimed, hdotted⟩ := mem_bySize.mp he
  exact h e hclaimed (endsIn_iff.mpr ⟨hdotted, hhas⟩)

theorem exists_find?_firstWhole (hnone : ∀ e ∈ r.claims, ¬ EndsIn name e)
    (h : ∃ e ∈ r.claims, BeginsWith name e) :
    ∃ ending, r.matchOrder.find? (hasEnding name) = some ending ∧ r.FirstWhole name ending := by
  obtain ⟨e, he, hbegins⟩ := h
  obtain ⟨hwhole, hhas⟩ := beginsWith_iff.mp hbegins
  have hlisted := (r.inFirstOrder_endings.mem_iff e).mpr he
  obtain ⟨ending, hfind⟩ := Option.isSome_iff_exists.mp <| List.find?_isSome.mpr
    ⟨e, List.mem_filter.mpr ⟨hlisted, hwhole⟩, hhas⟩
  refine ⟨ending, ?_, firstWhole_of_find? hfind⟩
  rw [find?_matchOrder, find?_bySize_eq_none hnone, Option.none_or, hfind]

theorem find?_matchOrder_eq_none (hends : ∀ e ∈ r.claims, ¬ EndsIn name e)
    (hbegins : ∀ e ∈ r.claims, ¬ BeginsWith name e) :
    r.matchOrder.find? (hasEnding name) = none := by
  rw [find?_matchOrder, find?_bySize_eq_none hends, Option.none_or]
  refine List.find?_eq_none.mpr fun e he hhas => ?_
  obtain ⟨hlisted, hwhole⟩ := List.mem_filter.mp he
  exact hbegins e ((r.inFirstOrder_endings.mem_iff e).mp hlisted)
    (beginsWith_iff.mpr ⟨hwhole, hhas⟩)

/-! ### The language that has it -/

theorem exists_languageOf? {p : Path} (hname : p.fileName? = some name)
    (hfind : r.matchOrder.find? (hasEnding name) = some ending) :
    ∃ l, LastToClaim ending r.languages l ∧ r.languageOf? p = some l := by
  have hending : r.endingOf? p = some ending := by
    rw [endingOf?, hname, Option.bind_some, hfind]
  obtain ⟨l, hl⟩ := Option.isSome_iff_exists.mp
    (isSome_owner?.mpr (mem_endings_of_endingOf? hending))
  refine ⟨l, owner?_eq_some_iff.mp hl, ?_⟩
  rw [languageOf?, hending, Option.bind_some, hl]

/-- **The most specific ending decides.**  A file belongs to the last language that claims the
    longest dotted ending of its name; if the name has none, to the last that claims the whole name
    claimed first of those that it begins with; else to none.  Whatever the claims, the endings are
    listed once each, in the order of the first claims. -/
theorem languageOf?_mostSpecific (r : Registry) (p : Path) :
    (∀ name, p.fileName? = some name →
      ((∃ e ∈ r.claims, EndsIn name e) →
        ∃ ending l, r.Longest name ending ∧ LastToClaim ending r.languages l ∧
          r.languageOf? p = some l) ∧
      ((∀ e ∈ r.claims, ¬ EndsIn name e) → (∃ e ∈ r.claims, BeginsWith name e) →
        ∃ ending l, r.FirstWhole name ending ∧ LastToClaim ending r.languages l ∧
          r.languageOf? p = some l) ∧
      ((∀ e ∈ r.claims, ¬ EndsIn name e) → (∀ e ∈ r.claims, ¬ BeginsWith name e) →
        r.languageOf? p = none)) ∧
    (r.isRecognized p = true ↔ (r.languageOf? p).isSome = true) ∧
    r.endings.Nodup ∧ (∀ e, e ∈ r.endings ↔ e ∈ r.claims) ∧
    r.endings.Pairwise fun e e' => r.claims.idxOf e < r.claims.idxOf e' := by
  have hendings := r.inFirstOrder_endings
  refine ⟨fun name hname => ⟨fun h => ?_, fun hnone h => ?_, fun hends hbegins => ?_⟩, ?_,
    hendings.nodup, hendings.mem_iff, hendings.order⟩
  · obtain ⟨ending, hfind, hlongest⟩ := exists_find?_longest h
    obtain ⟨l, hlast, hlanguage⟩ := exists_languageOf? hname hfind
    exact ⟨ending, l, hlongest, hlast, hlanguage⟩
  · obtain ⟨ending, hfind, hfirst⟩ := exists_find?_firstWhole hnone h
    obtain ⟨l, hlast, hlanguage⟩ := exists_languageOf? hname hfind
    exact ⟨ending, l, hfirst, hlast, hlanguage⟩
  · rw [languageOf?, endingOf?, hname, Option.bind_some, find?_matchOrder_eq_none hends hbegins,
      Option.bind_none]
  · rw [isSome_languageOf?]

/-- Languages that claim some endings twice, and some of each other's. -/
def crowded : Registry where
  languages := [⟨"first", [".x", "Make", ".x"], fun _ _ => [], none⟩,
    ⟨"second", [".d.x", "Makefile", ".x"], fun _ _ => [], none⟩,
    ⟨"third", [".d.x", "Make"], fun _ _ => [], none⟩]

/-- A name with two endings, one that begins with two whole names, and one that is an ending. -/
theorem crowded_mostSpecific :
    (∃ ending l, crowded.Longest "a.d.x" ending ∧ LastToClaim ending crowded.languages l ∧
        crowded.languageOf? ⟨"/p/a.d.x"⟩ = some l) ∧
      (∃ ending l, crowded.FirstWhole "Makefile" ending ∧
        LastToClaim ending crowded.languages l ∧ crowded.languageOf? ⟨"Makefile"⟩ = some l) ∧
      crowded.languageOf? ⟨"/p/.x"⟩ = none ∧
      crowded.endings = [".x", "Make", ".d.x", "Makefile"] := by
  refine ⟨?_, ?_, ?_, by decide +kernel⟩
  · exact ((languageOf?_mostSpecific crowded ⟨"/p/a.d.x"⟩).1 "a.d.x" (by decide +kernel)).1
      (by decide +kernel)
  · exact ((languageOf?_mostSpecific crowded ⟨"Makefile"⟩).1 "Makefile" (by decide +kernel)).2.1
      (by decide +kernel) (by decide +kernel)
  · exact ((languageOf?_mostSpecific crowded ⟨"/p/.x"⟩).1 ".x" (by decide +kernel)).2.2
      (by decide +kernel) (by decide +kernel)

end Registry

end SourceWeb
