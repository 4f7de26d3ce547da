/-
  Which language looks up the references of a file.

  Every language known from the start looks up references in files of its own endings only, and no
  file name has endings of two of them: of two endings that one name has, one is the end of the
  other, or, for names without a dot, its beginning, and languages that differ have no two such
  endings.  So the language that a file belongs to is the only one that answers for it, although
  some of them use the same kinds of references.
-/
import SourceWeb.Proofs.Language.Registry
import SourceWeb.Proofs.Text.Split

namespace SourceWeb

open SourceWeb.Text

/-! ### Two endings of one name -/

def endingsMeet (e e' : String) : Bool :=
  if isWholeName e then isWholeName e' && (startsWith e e' || startsWith e' e)
  else !isWholeName e' && (endsWith e e' || endsWith e' e)

theorem contains_dot_of_endsWith {name e : String} (he : isWholeName e = false)
    (h : endsWith e name = true) : name.toList.contains '.' = true := by
  obtain ⟨start, rfl⟩ := endsWith_iff.mp h
  have hdot : ['.'] <+: e.toList := by
    simpa [isWholeName, startsWith] using he
  obtain ⟨rest, hrest⟩ := hdot
  simp [← hrest]

/-- Two endings of one name meet: both are its end, or both its beginning. -/
theorem endingsMeet_of_hasEnding {name e e' : String} (h : hasEnding name e = true)
    (h' : hasEnding name e' = true) : endingsMeet e e' = true := by
  unfold hasEnding at h h'
  unfold endingsMeet
  cases he : isWholeName e with
  | true =>
    rw [he, if_pos rfl, Bool.and_eq_true, Bool.not_eq_true'] at h
    cases he' : isWholeName e' with
    | true =>
      rw [he', if_pos rfl, Bool.and_eq_true] at h'
      rw [if_pos rfl, Bool.true_and, Bool.or_eq_true]
      simp only [startsWith, List.isPrefixOf_iff_prefix] at h h' ⊢
      exact List.prefix_or_prefix_of_prefix h.2 h'.2
    | false =>
      -- a whole name is asked for of names without a dot
      rw [he', if_neg Bool.false_ne_true, Bool.and_eq_true] at h'
      rw [contains_dot_of_endsWith he' h'.2] at h
      simp at h
  | false =>
    rw [he, if_neg Bool.false_ne_true, Bool.and_eq_true] at h
    cases he' : isWholeName e' with
    | true =>
      rw [he', if_pos rfl, Bool.and_eq_true, Bool.not_eq_true',
        contains_dot_of_endsWith he h.2] at h'
      simp at h'
    | false =>
      rw [he', if_neg Bool.false_ne_true, Bool.and_eq_true] at h'
      rw [if_neg Bool.false_ne_true, Bool.not_false, Bool.true_and, Bool.or_eq_true]
      simp only [endsWith, List.isSuffixOf_iff_suffix] at h h' ⊢
      exact List.suffix_or_suffix_of_suffix h.2 h'.2

/-! ### Languages that keep to their files -/

namespace Language

/-- Does the language look up references in files of its own endings only? -/
def KeepsToFiles (l : Language) : Prop :=
  ∀ look, l.resolver = some look → ∀ (disk : Disk) (site : Site) (r : Reference),
    site.hasAnyEnding l.endings = false → look disk site r = none

theorem keepsToFiles_of_resolverFor {l : Language} {look : Resolver}
    (h : l.resolver = some (resolverFor l.endings look)) : l.KeepsToFiles := by
  intro look' hlook disk site r hsite
  rw [h] at hlook
  cases hlook
  rw [resolverFor, if_neg (by simp [hsite])]

end Language

namespace Registry

theorem keepsToFiles_of_mem_builtinLanguages {l : Language} (h : l ∈ builtinLanguages) :
    l.KeepsToFiles := by
  simp only [builtinLanguages, List.mem_cons, List.not_mem_nil, or_false] at h
  rcases h with rfl | rfl | rfl | rfl | rfl | rfl | rfl | rfl | rfl | rfl | rfl | rfl | rfl <;>
    exact Language.keepsToFiles_of_resolverFor rfl

/-- Languages with endings that meet are one language. -/
theorem name_eq_of_endingsMeet : ∀ l ∈ builtinLanguages, ∀ l' ∈ builtinLanguages,
    ∀ e ∈ l.endings, ∀ e' ∈ l'.endings, endingsMeet e e' = true → l.name = l'.name := by
  decide +kernel

theorem mem_builtinLanguages_of_without {disabled : List String} {l : Language}
    (h : l ∈ (builtinWithout disabled).languages) : l ∈ builtinLanguages :=
  (List.mem_filter.mp h).1

/-! ### The language of a file -/

variable {r : Registry}

theorem owner?_eq_some {ending : String} {l : Language} (h : r.owner? ending = some l) :
    l ∈ r.languages ∧ ending ∈ l.endings := by
  obtain ⟨before, after, hlist, hmem, -⟩ := owner?_eq_some_iff.mp h
  exact ⟨hlist ▸ List.mem_append_right _ List.mem_cons_self, hmem⟩

/-- A file belongs to a language by an ending that its name has. -/
theorem languageOf?_eq_some {p : Path} {l : Language} (h : r.languageOf? p = some l) :
    l ∈ r.languages ∧ ∃ name ending, p.fileName? = some name ∧ ending ∈ l.endings ∧
      hasEnding name ending = true := by
  obtain ⟨ending, hending, howner⟩ := Option.bind_eq_some_iff.mp h
  obtain ⟨name, hname, hfind⟩ := Option.bind_eq_some_iff.mp hending
  obtain ⟨hl, hmem⟩ := owner?_eq_some howner
  exact ⟨hl, name, ending, hname, hmem, List.find?_some hfind⟩

/-- **Only the language of a file answers for it.**  Of the languages known from the start, no other
    one looks up any reference in a file that belongs to one of them, whichever are left out. -/
theorem look_eq_none {disabled : List String} {site : Site} {l l' : Language}
    (hl : (builtinWithout disabled).languageOf? site.file = some l) (hl' : l' ∈ builtinLanguages)
    (hne : l'.name ≠ l.name) {look : Resolver} (hlook : l'.resolver = some look) (disk : Disk)
    (reference : Reference) : look disk site reference = none := by
  obtain ⟨hmem, name, ending, hname, hending, hhas⟩ := languageOf?_eq_some hl
  refine keepsToFiles_of_mem_builtinLanguages hl' look hlook disk site reference ?_
  rw [Site.hasAnyEnding, hname, ← Bool.not_eq_true, List.any_eq_true]
  rintro ⟨ending', hending', hhas'⟩
  exact hne (name_eq_of_endingsMeet l' hl' l (mem_builtinLanguages_of_without hmem) ending'
    hending' ending hending (endingsMeet_of_hasEnding hhas' hhas))

end Registry

end SourceWeb
