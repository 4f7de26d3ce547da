/-
  Which files belong to a language.

  Every ending that a file name is compared with was claimed by some language, so a recognised file
  always has a language.
-/
import SourceWeb.Proofs.Language.Table
import SourceWeb.Proofs.Path.Components

namespace SourceWeb.Registry

open SourceWeb.Path

variable {r : Registry}

theorem mem_endings_of_matchOrder {ending : String} (h : ending ∈ r.matchOrder) :
    ending ∈ r.endings := by
  rcases List.mem_append.mp h with h | h
  · exact (List.mem_filter.mp (List.mem_mergeSort.mp h)).1
  · exact (List.mem_filter.mp h).1

theorem mem_endings_of_endingOf? {p : Path} {ending : String} (h : r.endingOf? p = some ending) :
    ending ∈ r.endings := by
  obtain ⟨name, -, hfind⟩ := Option.bind_eq_some_iff.mp h
  exact mem_endings_of_matchOrder (List.mem_of_find?_eq_some hfind)

theorem mem_matchOrder {ending : String} : ending ∈ r.matchOrder ↔ ending ∈ r.endings := by
  constructor
  · exact mem_endings_of_matchOrder
  · intro h
    rw [matchOrder, List.mem_append, List.mem_mergeSort, probeEndings, List.mem_filter,
      List.mem_filter]
    cases hwhole : isWholeName ending with
    | true => exact .inr ⟨h, rfl⟩
    | false => exact .inl ⟨h, rfl⟩

/-- A file whose name has one ending only belongs to the language that has it. -/
theorem languageOf?_of_forall {p : Path} {name ending : String} (hname : p.fileName? = some name)
    (hmem : ending ∈ r.endings) (hending : hasEnding name ending = true)
    (honly : ∀ e ∈ r.endings, hasEnding name e = true → e = ending) :
    r.languageOf? p = r.owner? ending := by
  have hfind : r.matchOrder.find? (hasEnding name) = some ending := by
    obtain ⟨e, he⟩ := Option.isSome_iff_exists.mp
      (List.find?_isSome.mpr ⟨ending, mem_matchOrder.mpr hmem, hending⟩)
    have hin := mem_endings_of_matchOrder (List.mem_of_find?_eq_some he)
    rw [he, honly e hin (List.find?_some he)]
  rw [languageOf?, endingOf?, hname, Option.bind_some, hfind, Option.bind_some]

theorem isSome_languageOf? (r : Registry) (p : Path) :
    (r.languageOf? p).isSome = r.isRecognized p := by
  rw [languageOf?, isRecognized]
  cases h : r.endingOf? p with
  | none => rfl
  | some ending =>
    rw [Option.bind_some, isSome_owner?.mpr (mem_endings_of_endingOf? h)]
    rfl

/-- The spelling of a path does not decide whether it is recognised. -/
theorem isRecognized_eq_of_same (r : Registry) {p q : Path} (h : p.same q = true) :
    r.isRecognized p = r.isRecognized q := by
  rw [isRecognized, isRecognized, endingOf?, endingOf?, fileName?, fileName?, same_iff.mp h]

end SourceWeb.Registry
