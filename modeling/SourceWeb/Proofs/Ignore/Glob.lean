/-
  What globs stand for, and how their patterns find it.

  A glob stands for the texts that can be cut into pieces, one for each part.  Reading it from left
  to right in one pass gives the parts that are found by replacing the longest signs first.  On one
  line the pattern of a glob passes over exactly the texts that the glob stands for.  It prefers to
  pass over more, and so over all, if it can: main statement `first_way_of_fits`.  For a glob that
  stands for a whole text stands for every end of it that it can begin to pass over.
-/
import Mathlib.Data.List.Infix
import SourceWeb.Ignore.Glob
import SourceWeb.Proofs.Pattern.Takes

namespace SourceWeb.Ignore

open SourceWeb.Pattern

/-! ### The texts of a glob -/

/-- Does the part stand for the text? -/
def GlobPart.Fits : GlobPart → List Char → Prop
  | anyDirs, m => m = [] ∨ m.getLast? = some '/'
  | anything, _ => True
  | anyName, m => '/' ∉ m
  | anyChar, m => ∃ c, c ≠ '/' ∧ m = [c]
  | char c, m => m = [c]

namespace Glob

/-- Does the glob stand for the text?  The text is cut into pieces, one for each part. -/
def Fits : Glob → List Char → Prop
  | [], m => m = []
  | p :: g, m => ∃ a b, m = a ++ b ∧ p.Fits a ∧ Fits g b

theorem fits_append {g g' : Glob} {m : List Char} :
    Fits (g ++ g') m ↔ ∃ a b, m = a ++ b ∧ Fits g a ∧ Fits g' b := by
  induction g generalizing m with
  | nil => simp [Fits]
  | cons p g ih =>
    simp only [List.cons_append, Fits, ih]
    constructor
    · rintro ⟨a, -, rfl, ha, b, c, rfl, hb, hc⟩
      exact ⟨a ++ b, c, (List.append_assoc ..).symm, ⟨a, b, rfl, ha, hb⟩, hc⟩
    · rintro ⟨-, c, rfl, ⟨a, b, rfl, ha, hb⟩, hc⟩
      exact ⟨a, b ++ c, List.append_assoc .., ha, b, c, rfl, hb, hc⟩

theorem fits_chars {cs m : List Char} : Fits (cs.map .char) m ↔ m = cs := by
  induction cs generalizing m with
  | nil => exact Iff.rfl
  | cons c cs ih =>
    simp only [List.map_cons, Fits, GlobPart.Fits, ih]
    constructor
    · rintro ⟨-, -, rfl, rfl, rfl⟩
      rfl
    · rintro rfl
      exact ⟨[c], cs, rfl, rfl, rfl⟩

end Glob

theorem eq_nil_of_append_suffix {a b z : List Char} (hlength : b.length ≤ a.length)
    (h : a ++ z <:+ b) : z = [] := by
  have hle := h.length_le
  rw [List.length_append] at hle
  exact List.length_eq_zero_iff.mp (by omega)

/-- A part that stands for a text stands for the end of it that begins with what it stands for. -/
theorem GlobPart.Fits.of_suffix {p : GlobPart} {a b z : List Char} (ha : p.Fits a) (hb : p.Fits b)
    (h : a ++ z <:+ b) : p.Fits (a ++ z) := by
  cases p with
  | anyDirs =>
    rcases List.eq_nil_or_concat (a ++ z) with hnil | ⟨m, c, hm⟩
    · exact .inl hnil
    · rw [hm] at h ⊢
      obtain ⟨y, rfl⟩ := h
      rcases hb with hb | hb
      · simp at hb
      · exact .inr (by simpa using hb)
  | anything => exact trivial
  | anyName => exact fun hmem => hb (h.subset hmem)
  | anyChar =>
    obtain ⟨c, hc, rfl⟩ := ha
    obtain ⟨d, -, rfl⟩ := hb
    rw [eq_nil_of_append_suffix (by simp) h]
    exact ⟨c, hc, rfl⟩
  | char c =>
    cases ha
    cases hb
    rw [eq_nil_of_append_suffix (by simp) h]
    rfl

/-- A glob that stands for a text stands for every end of it that it can begin to pass over. -/
theorem Glob.Fits.of_suffix {g : Glob} {m rest text : List Char} (hm : Fits g m)
    (htext : Fits g text) (h : m ++ rest <:+ text) : Fits g (m ++ rest) := by
  induction g generalizing m text with
  | nil =>
    cases hm
    cases htext
    exact List.suffix_nil.mp h
  | cons p g ih =>
    obtain ⟨a, m, rfl, ha, hm⟩ := hm
    obtain ⟨b, text, rfl, hb, htext⟩ := htext
    rw [List.append_assoc] at h ⊢
    have hrest : m ++ rest <:+ b ++ text := (List.suffix_append a _).trans h
    rcases List.suffix_or_suffix_of_suffix hrest (List.suffix_append b text) with hin | hin
    · exact ⟨a, m ++ rest, rfl, ha, ih hm htext hin⟩
    · -- the first part takes up to where it ends in the whole text
      obtain ⟨z, hz⟩ := hin
      rw [← hz, ← List.append_assoc] at h ⊢
      obtain ⟨y, hy⟩ := h
      rw [← List.append_assoc] at hy
      exact ⟨a ++ z, text, rfl, ha.of_suffix hb ⟨y, List.append_cancel_right hy⟩, htext⟩

/-! ### Reading in stages -/

namespace Glob

/-- The list with every occurrence of `old`, taken from the left, replaced by `new`. -/
def replaced (old : Glob) (new : GlobPart) : Glob → Glob
  | [] => []
  | p :: g =>
    if old <+: p :: g then new :: replaced old new (g.drop (old.length - 1))
    else p :: replaced old new g
termination_by g => g.length

/-- The parts of a text: first the double stars in front of a slash, then the other double stars,
    then the stars, then the question marks.  Whatever is left stands for itself. -/
def staged (cs : List Char) : Glob :=
  replaced [.char '?'] .anyChar <|
  replaced [.char '*'] .anyName <|
  replaced [.char '*', .char '*'] .anything <|
  replaced [.char '*', .char '*', .char '/'] .anyDirs (cs.map .char)

theorem replaced_append (o : GlobPart) (old : Glob) (new : GlobPart) (g : Glob) :
    replaced (o :: old) new (o :: (old ++ g)) = new :: replaced (o :: old) new g := by
  have hprefix : o :: old <+: o :: (old ++ g) := List.prefix_append (o :: old) g
  rw [replaced, if_pos hprefix, List.length_cons, Nat.add_sub_cancel, List.drop_left]

theorem replaced_of_not_prefix {old : Glob} {new p : GlobPart} {g : Glob} (h : ¬ old <+: p :: g) :
    replaced old new (p :: g) = p :: replaced old new g := by
  rw [replaced, if_neg h]

/-- What stands in the way of an occurrence is kept. -/
theorem replaced_of_ne {old : Glob} {new o p : GlobPart} {g : Glob} (h : o ≠ p) :
    replaced (o :: old) new (p :: g) = p :: replaced (o :: old) new g :=
  replaced_of_not_prefix fun hprefix => h (List.cons_prefix_cons.mp hprefix).1

/-- The last three stages. -/
def stagesBehind (g : Glob) : Glob :=
  replaced [.char '?'] .anyChar <|
  replaced [.char '*'] .anyName <|
  replaced [.char '*', .char '*'] .anything g

/-- The first stage. -/
def firstStage (cs : List Char) : Glob :=
  replaced [.char '*', .char '*', .char '/'] .anyDirs (cs.map .char)

theorem staged_eq (cs : List Char) : staged cs = stagesBehind (firstStage cs) := rfl

theorem firstStage_dirs (cs : List Char) :
    firstStage ('*' :: '*' :: '/' :: cs) = .anyDirs :: firstStage cs :=
  replaced_append (.char '*') [.char '*', .char '/'] .anyDirs (cs.map .char)

theorem firstStage_cons {c : Char} {cs : List Char}
    (h : ∀ rest, c :: cs ≠ '*' :: '*' :: '/' :: rest) :
    firstStage (c :: cs) = .char c :: firstStage cs := by
  refine replaced_of_not_prefix fun hprefix => ?_
  have hsigns : ['*', '*', '/'].map GlobPart.char <+: (c :: cs).map .char := hprefix
  rw [List.prefix_map_iff_of_injective fun _ _ heq => GlobPart.char.inj heq] at hsigns
  obtain ⟨rest, hrest⟩ := hsigns
  exact h rest hrest.symm

theorem firstStage_nil : firstStage [] = [] := by
  rw [firstStage, List.map_nil, replaced]

theorem stagesBehind_dirs (g : Glob) :
    stagesBehind (.anyDirs :: g) = .anyDirs :: stagesBehind g := by
  rw [stagesBehind, replaced_of_ne (by simp), replaced_of_ne (by simp), replaced_of_ne (by simp),
    stagesBehind]

theorem stagesBehind_stars (g : Glob) :
    stagesBehind (.char '*' :: .char '*' :: g) = .anything :: stagesBehind g := by
  have hstars : replaced [.char '*', .char '*'] .anything (.char '*' :: .char '*' :: g) =
      .anything :: replaced [.char '*', .char '*'] .anything g :=
    replaced_append (.char '*') [.char '*'] .anything g
  rw [stagesBehind, hstars, replaced_of_ne (by simp), replaced_of_ne (by simp), stagesBehind]

theorem stagesBehind_star {g : Glob} (h : ¬ [.char '*'] <+: g) :
    stagesBehind (.char '*' :: g) = .anyName :: stagesBehind g := by
  have hpair : ¬ [GlobPart.char '*', .char '*'] <+: .char '*' :: g :=
    fun hprefix => h (List.cons_prefix_cons.mp hprefix).2
  have hstar (g : Glob) : replaced [.char '*'] .anyName (.char '*' :: g) =
      .anyName :: replaced [.char '*'] .anyName g :=
    replaced_append (.char '*') [] .anyName g
  rw [stagesBehind, replaced_of_not_prefix hpair, hstar, replaced_of_ne (by simp), stagesBehind]

theorem stagesBehind_mark (g : Glob) :
    stagesBehind (.char '?' :: g) = .anyChar :: stagesBehind g := by
  have hmark (g : Glob) : replaced [.char '?'] .anyChar (.char '?' :: g) =
      .anyChar :: replaced [.char '?'] .anyChar g :=
    replaced_append (.char '?') [] .anyChar g
  rw [stagesBehind, replaced_of_ne (by simp), replaced_of_ne (by simp), hmark, stagesBehind]

theorem stagesBehind_char {c : Char} (hstar : c ≠ '*') (hmark : c ≠ '?') (g : Glob) :
    stagesBehind (.char c :: g) = .char c :: stagesBehind g := by
  rw [stagesBehind, replaced_of_ne (by simpa using hstar.symm),
    replaced_of_ne (by simpa using hstar.symm), replaced_of_ne (by simpa using hmark.symm),
    stagesBehind]

/-- Reading in one pass gives the parts that replacing in stages gives. -/
theorem ofChars_eq_staged (cs : List Char) : ofChars cs = staged cs := by
  rw [staged_eq]
  induction cs using ofChars.induct with
  | case1 cs ih => rw [ofChars, firstStage_dirs, stagesBehind_dirs, ih]
  | case2 cs ih =>
    rw [ofChars, firstStage_cons (by simp), firstStage_dirs, stagesBehind_star (by simp),
      stagesBehind_dirs, ih]
  | case3 cs hslash hstar ih =>
    rw [ofChars, firstStage_cons (by simpa using hslash), firstStage_cons (by simpa using hstar),
      stagesBehind_stars, ih]
    · exact hslash
    · exact hstar
  | case4 cs hpair htriple hstar ih =>
    have hfirst : ¬ [.char '*'] <+: firstStage cs := by
      cases cs with
      | nil => simp [firstStage_nil]
      | cons c cs =>
        have hc : c ≠ '*' := fun heq => hstar cs (by rw [heq])
        rw [firstStage_cons (by simp [hc]), List.cons_prefix_cons]
        exact fun heq => hc (GlobPart.char.inj heq.1).symm
    rw [ofChars, firstStage_cons (by simpa using hpair), stagesBehind_star hfirst, ih]
    · exact hpair
    · exact htriple
    · exact hstar
  | case5 cs ih => rw [ofChars, firstStage_cons (by simp), stagesBehind_mark, ih]
  | case6 c cs hpair htriple hstars hstar hmark ih =>
    rw [ofChars, firstStage_cons (by simp [show c ≠ '*' from hstar]),
      stagesBehind_char hstar hmark, ih]
    · exact hpair
    · exact htriple
    · exact hstars
    · exact hstar
    · exact hmark
  | case7 => simp [ofChars, firstStage_nil, stagesBehind, replaced]

/-! ### The pattern of a glob -/

theorem anyText_eq : anyText = many (set (.noneOf ['\n'])) := rfl

theorem ways_text_slash (n : Nat) (h : Head) :
    ways n (text "/") h = ways n (set (.oneOf ['/'])) h :=
  ways_seq_empty n _ h

theorem ways_anyDirs (n : Nat) (h : Head) :
    ways n (partPattern .anyDirs) h =
      ways n (seq anyText (set (.oneOf ['/']))) h ++ [⟨h, []⟩] := by
  rw [partPattern, ways_optional, ways_seq, ways_seq]
  simp only [ways_text_slash]

/-- On one line the pattern of a part takes the texts that the part stands for. -/
theorem takes_partPattern (n : Nat) (p : GlobPart) {h : Head} (hline : '\n' ∉ h.rest) :
    Takes p.Fits h.rest (ways n (partPattern p) h) := by
  have hfree : ∀ {m : List Char}, m <+: h.rest → ∀ c ∈ m, (CharSet.noneOf ['\n']).has c = true := by
    intro m hm c hc
    have hne : c ≠ '\n' := fun heq => hline (hm.subset (heq ▸ hc))
    simpa using hne
  cases p with
  | anyDirs =>
    have hdirs := ((takes_many n (.noneOf ['\n']) h).andThen fun e _ =>
      takes_set n (.oneOf ['/']) e.head).append (takes_here h)
    rw [ways_anyDirs]
    refine hdirs.congr fun m hm => ?_
    constructor
    · rintro (⟨a, -, rfl, -, c, hc, rfl⟩ | hnil)
      · exact .inr (by simpa using hc)
      · exact .inl hnil
    · rintro (hnil | hlast)
      · exact .inr hnil
      · obtain ⟨a, rfl⟩ := List.getLast?_eq_some_iff.mp hlast
        exact .inl ⟨a, ['/'], rfl, hfree ((List.prefix_append a _).trans hm), '/', by simp, rfl⟩
  | anything =>
    exact (takes_many n _ h).congr fun m hm => iff_of_true (hfree hm) trivial
  | anyName =>
    refine (takes_many n _ h).congr fun m _ => ?_
    simp only [CharSet.has_noneOf, GlobPart.Fits]
    constructor
    · intro hm hslash
      simpa using hm '/' hslash
    · intro hm c hc
      have hne : c ≠ '/' := fun heq => hm (heq ▸ hc)
      simpa using hne
  | anyChar =>
    refine (takes_set n _ h).congr fun m _ => ?_
    simp [GlobPart.Fits]
  | char c =>
    refine (takes_set n _ h).congr fun m _ => ?_
    simp [GlobPart.Fits]

/-- The pattern of a part prefers to take more. -/
theorem greedy_partPattern (n : Nat) (p : GlobPart) {h : Head} (hline : '\n' ∉ h.rest) :
    Greedy (ways n (partPattern p) h) := by
  cases p with
  | anyDirs =>
    rw [ways_anyDirs]
    refine greedy_concat (greedy_seq_set (greedy_many n _ h) _) fun e he => ?_
    have hmem : e ∈ ways n (partPattern .anyDirs) h := by
      rw [ways_anyDirs]
      exact List.mem_append_left _ he
    obtain ⟨m, hcut, -⟩ := (takes_partPattern n .anyDirs hline).exists_of_mem hmem
    exact ⟨m, hcut.symm⟩
  | anything | anyName => exact greedy_many n _ h
  | anyChar | char c => exact greedy_set n _ h

/-- On one line the pattern of a glob takes the texts that the glob stands for. -/
theorem takes_pattern (n : Nat) (g : Glob) {h : Head} (hline : '\n' ∉ h.rest) :
    Takes (Fits g) h.rest (ways n (pattern g) h) := by
  induction g generalizing h with
  | nil => exact takes_here h
  | cons p g ih =>
    refine (takes_partPattern n p hline).andThen fun e he => ih fun hmem => hline ?_
    obtain ⟨m, hcut, -⟩ := (takes_partPattern n p hline).exists_of_mem he
    rw [hcut]
    exact List.mem_append_right m hmem

/-! ### What is preferred -/

/-- If a glob stands for a whole text, then its pattern takes the whole text on the first way whose
    end is as wanted, whatever is wanted besides the end of the text. -/
theorem first_way_of_fits {β : Type} {n : Nat} {g : Glob} {h : Head}
    {want : List Char → Option β} {b : β}
    (hwant : want [] = some b) (hline : '\n' ∉ h.rest) (hfits : Fits g h.rest) :
    (ways n (pattern g) h).findSome? (fun e => want e.head.rest) = some b := by
  induction g generalizing h with
  | nil =>
    have hrest : h.rest = [] := hfits
    rw [show ways n (pattern []) h = [⟨h, []⟩] from rfl, List.findSome?_singleton, hrest, hwant]
  | cons p g ih =>
    obtain ⟨a, b', hcut, ha, hb'⟩ := hfits
    have hpart := takes_partPattern n p hline
    have hline' : ∀ e ∈ ways n (partPattern p) h, '\n' ∉ e.head.rest := by
      intro e he hmem
      obtain ⟨m, hcut, -⟩ := hpart.exists_of_mem he
      exact hline (hcut ▸ List.mem_append_right m hmem)
    have hways : (ways n (pattern (p :: g)) h).findSome? (fun e => want e.head.rest) =
        (ways n (partPattern p) h).findSome? fun e =>
          (ways n (pattern g) e.head).findSome? fun e => want e.head.rest := by
      rw [show pattern (p :: g) = seq (partPattern p) (pattern g) from rfl, ways_seq,
        findSome?_flatMap]
      simp only [List.findSome?_map]
      rfl
    obtain ⟨e, he, hrest⟩ := (hpart.rests b').mpr ⟨a, hcut, ha⟩
    rw [hways]
    refine findSome?_of_pairwise (greedy_partPattern n p hline) he
      (ih (hline' e he) (hrest ▸ hb')) fun x hx hsuffix hsome => ?_
    -- what the first part takes here leaves an end of the text that the other parts stand for
    obtain ⟨y, hy, -⟩ := List.findSome?_isSome_iff.mp hsome
    obtain ⟨m, hcut', hm⟩ := (takes_pattern n g (hline' x hx)).exists_of_mem hy
    refine ih (hline' x hx) ?_
    rw [hcut']
    refine hm.of_suffix hb' ?_
    rw [← hcut', ← hrest]
    exact hsuffix

end Glob

end SourceWeb.Ignore
