/-
  The paths under which constants are looked up.

  A constant whose names are in camel case can be told from its path: a part of the path is a name,
  and a piece between underscores is a word of the name, which starts with a capital.  So two such
  constants have different paths, and different files are tried for them below any directory.
-/
import Mathlib.Data.List.Induction
import SourceWeb.Proofs.Language.Tried
import SourceWeb.Proofs.Path.Named
import SourceWeb.Proofs.Text.Split

namespace SourceWeb.Language.Ruby

open SourceWeb.Path SourceWeb.Text

/-! ### Names -/

/-- Is the name made of letters and digits, with a capital at its start and no two capitals in a
    row? -/
structure Camel (name : List Char) : Prop where
  alphanum : ∀ c ∈ name, c.isAlphanum = true
  capital : name.head?.any Char.isUpper = true
  apart : name.IsChain fun c d => ¬ (c.isUpper = true ∧ d.isUpper = true)

instance (name : List Char) : Decidable (Camel name) :=
  decidable_of_iff (name.all Char.isAlphanum = true ∧ name.head?.any Char.isUpper = true ∧
    name.IsChain fun c d => ¬ (c.isUpper = true ∧ d.isUpper = true))
    ⟨fun ⟨hall, hfirst, hchain⟩ => ⟨List.all_eq_true.mp hall, hfirst, hchain⟩,
      fun h => ⟨List.all_eq_true.mpr h.alphanum, h.capital, h.apart⟩⟩

/-- A piece with its first letter as a capital. -/
def capitalize : List Char → List Char
  | [] => []
  | c :: cs => c.toUpper :: cs

/-- The name that a part of a path is read as: its pieces between underscores, capitalised. -/
def nameOf (part : List Char) : List Char :=
  (splitWhere (· == '_') part).flatMap capitalize

/-- The constant that a path is read as. -/
def constantOf (path : String) : String :=
  "::".intercalate ((splitChar '/' path).map fun part => String.ofList (nameOf part.toList))

/-! ### One name -/

theorem isUpper_iff {c : Char} : c.isUpper = true ↔ c.val ≥ 'A'.val ∧ c.val ≤ 'Z'.val :=
  decide_eq_true_iff

theorem toLower_eq_of_not_isUpper {c : Char} (h : ¬ c.isUpper = true) : c.toLower = c := by
  rw [isUpper_iff] at h
  exact dif_neg h

/-- A property of all capitals, checked character by character. -/
theorem of_isUpper {P : Char → Prop}
    (h : ∀ n < 128, (Char.ofNat n).isUpper = true → P (Char.ofNat n)) {c : Char}
    (hc : c.isUpper = true) : P c := by
  have hlt : c.toNat < 128 :=
    Nat.lt_of_le_of_lt (UInt32.le_iff_toNat_le.mp (isUpper_iff.mp hc).2) (by decide)
  have hchar := h c.toNat hlt
  rw [Char.ofNat_toNat] at hchar
  exact hchar hc

theorem toUpper_toLower_of_isUpper {c : Char} (h : c.isUpper = true) : c.toLower.toUpper = c :=
  of_isUpper (P := fun c => c.toLower.toUpper = c) (by decide) h

theorem isAlphanum_toLower {c : Char} (h : c.isAlphanum = true) : c.toLower.isAlphanum = true := by
  by_cases hupper : c.isUpper = true
  · exact of_isUpper (P := fun c => c.toLower.isAlphanum = true) (by decide) hupper
  · rwa [toLower_eq_of_not_isUpper hupper]

theorem toLower_beq_underscore {c : Char} (h : c.isAlphanum = true) :
    (c.toLower == '_') = false := by
  have hlower := isAlphanum_toLower h
  rw [beq_eq_false_iff_ne]
  intro heq
  rw [heq] at hlower
  exact absurd hlower (by decide)

/-- Behind a letter or digit that is no capital a new word begins. -/
theorem breaksWord_of_not_isUpper {c : Char} (h : c.isAlphanum = true)
    (hupper : ¬ c.isUpper = true) (next : Option Char) : breaksWord c next = true := by
  have hlower : c.isLower = true ∨ c.isDigit = true := by
    have hkinds : (c.isUpper || c.isLower || c.isDigit) = true := h
    simpa [hupper] using hkinds
  simp [breaksWord, hlower]

/-- What stands behind the first character of a name is read as it was, its first word without a
    capital. -/
theorem exists_pieces {last : Char} {cs : List Char}
    (halnum : ∀ c ∈ last :: cs, c.isAlphanum = true)
    (hapart : (last :: cs).IsChain fun c d => ¬ (c.isUpper = true ∧ d.isUpper = true)) :
    ∃ piece pieces, splitWhere (· == '_') (underscoreName (some last) cs) = piece :: pieces ∧
      piece ++ pieces.flatMap capitalize = cs := by
  induction cs generalizing last with
  | nil => exact ⟨[], [], rfl, rfl⟩
  | cons c cs ih =>
    obtain ⟨hlast, hcs⟩ := List.forall_mem_cons.mp halnum
    obtain ⟨hpair, hrest⟩ := List.isChain_cons_cons.mp hapart
    obtain ⟨piece, pieces, hsplit, hread⟩ := ih hcs hrest
    have hplain := toLower_beq_underscore (hcs c List.mem_cons_self)
    by_cases hupper : c.isUpper = true
    · -- a word begins, and its first letter is made a capital again
      have hbreak := breaksWord_of_not_isUpper hlast (fun h => hpair ⟨h, hupper⟩) cs.head?
      refine ⟨[], (c.toLower :: piece) :: pieces, ?_, ?_⟩
      · simp [underscoreName, hupper, hbreak, splitWhere, hplain, hsplit]
      · simp [capitalize, toUpper_toLower_of_isUpper hupper, hread]
    · rw [toLower_eq_of_not_isUpper hupper] at hplain
      refine ⟨c :: piece, pieces, ?_, by simp [hread]⟩
      simp [underscoreName, hupper, toLower_eq_of_not_isUpper hupper, splitWhere, hplain,
        hsplit]

/-- A name can be read off the part of the path that it becomes. -/
theorem nameOf_underscoreName {name : List Char} (h : Camel name) :
    nameOf (underscoreName none name) = name := by
  cases name with
  | nil => exact absurd h.capital (by simp)
  | cons c cs =>
    have hupper : c.isUpper = true := by simpa using h.capital
    have hplain := toLower_beq_underscore (h.alphanum c List.mem_cons_self)
    obtain ⟨piece, pieces, hsplit, hread⟩ := exists_pieces h.alphanum h.apart
    have hstart : underscoreName none (c :: cs) = c.toLower :: underscoreName (some c) cs := by
      simp [underscoreName]
    rw [nameOf, hstart]
    simp [splitWhere, hplain, hsplit, capitalize, toUpper_toLower_of_isUpper hupper, hread]

/-! ### Parts of paths -/

def partOf (name : String) : String :=
  String.ofList (underscoreName none name.toList)

theorem mem_underscoreName {last : Option Char} {cs : List Char}
    (h : ∀ c ∈ cs, c.isAlphanum = true) :
    ∀ c ∈ underscoreName last cs, c = '_' ∨ c.isAlphanum = true := by
  induction cs generalizing last with
  | nil => simp [underscoreName]
  | cons d cs ih =>
    obtain ⟨hd, hcs⟩ := List.forall_mem_cons.mp h
    intro c hc
    rw [underscoreName, List.mem_append, List.mem_cons] at hc
    rcases hc with hc | rfl | hc
    · left
      split at hc
      · simpa using hc
      · simp at hc
    · exact .inr (isAlphanum_toLower hd)
    · exact ih hcs c hc

theorem not_holds_partOf {name : String} (h : Camel name.toList) {c : Char} (hc : c ≠ '_')
    (hother : c.isAlphanum = false) : ¬ Holds c (partOf name) := by
  intro hmem
  rw [Holds, partOf, String.toList_ofList] at hmem
  rcases mem_underscoreName h.alphanum c hmem with rfl | halnum
  · exact hc rfl
  · simp [hother] at halnum

theorem nameOf_partOf {name : String} (h : Camel name.toList) :
    nameOf (partOf name).toList = name.toList := by
  rw [partOf, String.toList_ofList, nameOf_underscoreName h]

/-- A part may stand for an entry of a folder, without an ending and with one. -/
theorem isName_partOf {name : String} (h : Camel name.toList) :
    IsName (partOf name) ∧ IsName (partOf name ++ ".rb") := by
  have hdot : ¬ Holds '.' (partOf name) := not_holds_partOf h (by decide) (by decide)
  have hslash : ¬ Holds '/' (partOf name) := not_holds_partOf h (by decide) (by decide)
  have hne : partOf name ≠ "" := by
    intro hempty
    have hread := nameOf_partOf h
    rw [hempty] at hread
    exact absurd h.capital (by simp [← hread, nameOf, splitWhere, capitalize])
  have hletter : Holds 'r' (partOf name ++ ".rb") := by simp [Holds]
  refine ⟨⟨hne, ?_, ?_, hslash⟩, ?_, ?_, ?_, not_holds_append.mpr ⟨hslash, by decide⟩⟩
  · exact fun heq => hdot (heq ▸ by decide)
  · exact fun heq => hdot (heq ▸ by decide)
  all_goals
    intro heq
    rw [heq] at hletter
    exact absurd hletter (by decide)

/-! ### Constants -/

/-- Is the constant made of names in camel case, with two colons between them? -/
def IsScoped (constant : String) : Prop :=
  ∃ names : List String, names ≠ [] ∧ (∀ s ∈ names, Camel s.toList) ∧
    constant = "::".intercalate names

theorem isName_of_mem_parts {names : List String} (h : ∀ s ∈ names, Camel s.toList) {part : String}
    (hpart : part ∈ names.map partOf) : IsName part ∧ IsName (part ++ ".rb") := by
  obtain ⟨s, hs, rfl⟩ := List.mem_map.mp hpart
  exact isName_partOf (h s hs)

section

variable {names : List String} (hne : names ≠ []) (h : ∀ s ∈ names, Camel s.toList)

include hne h

theorem underscore_intercalate :
    underscore ("::".intercalate names) = "/".intercalate (names.map partOf) := by
  have hcolon : ∀ w ∈ names.map String.toList, ':' ∉ w := by
    simp only [List.mem_map, forall_exists_index, and_imp, forall_apply_eq_imp_iff₂]
    intro s hs hmem
    exact absurd ((h s hs).alphanum ':' hmem) (by decide)
  have hsep : "::".toList = [':', ':'] := rfl
  have hsplit := splitAtText_intercalate [':'] (by simpa using hne) hcolon
  apply String.toList_inj.mp
  rw [underscore, String.toList_ofList, String.toList_intercalate, hsep, hsplit,
    String.toList_intercalate, List.map_map, List.map_map]
  refine congrArg _ (List.map_congr_left fun s _ => ?_)
  rw [Function.comp_apply, Function.comp_apply, partOf, String.toList_ofList]

/-- The parts are the segments of the path. -/
theorem segments_underscore :
    segments ⟨underscore ("::".intercalate names)⟩ = names.map partOf := by
  rw [underscore_intercalate hne h]
  exact segments_mk_intercalate (by simpa using hne) fun part hpart =>
    (isName_of_mem_parts h hpart).1.2.2.2

theorem constantOf_intercalate :
    constantOf (underscore ("::".intercalate names)) = "::".intercalate names := by
  have hread : (names.map partOf).map (fun part => String.ofList (nameOf part.toList)) = names := by
    rw [List.map_map, List.map_congr_left (g := id) fun s hs => ?_, List.map_id]
    simp [nameOf_partOf (h s hs)]
  have hsplit : splitChar '/' (underscore ("::".intercalate names)) = names.map partOf :=
    segments_underscore hne h
  rw [constantOf, hsplit, hread]

theorem named_underscore : Named (underscore ("::".intercalate names)) := by
  rw [Named, segments_underscore hne h]
  exact fun part hpart => (isName_of_mem_parts h hpart).1

theorem named_underscore_append : Named (underscore ("::".intercalate names) ++ ".rb") := by
  rw [underscore_intercalate hne h]
  exact named_intercalate_append (by simpa using hne) fun part => isName_of_mem_parts h

/-- The file that is tried below a directory has the ending written behind the path. -/
theorem fileTried_child (base : Path) :
    fileTried (base.child (underscore ("::".intercalate names))) =
      base.child (underscore ("::".intercalate names) ++ ".rb") := by
  have hnamed := named_underscore hne h
  have hextension : (base.child (underscore ("::".intercalate names))).extension? = none := by
    refine hnamed.extension?_child ?_ base
    rw [segments_underscore hne h]
    intro part hpart
    obtain ⟨s, hs, rfl⟩ := List.mem_map.mp hpart
    exact not_holds_partOf (h s hs) (by decide) (by decide)
  rw [fileTried, hextension, if_neg (by simp)]
  exact withSuffix_child base hnamed.isAbsolute (named_underscore_append hne h).isAbsolute

end

/-- **Constants can be told from their paths.**  A constant in camel case is what its path is read
    as.  So another one has another path, and below any directory another file is tried for it. -/
theorem constantOf_underscore {constant : String} (h : IsScoped constant) :
    constantOf (underscore constant) = constant ∧
      ∀ other, IsScoped other → other ≠ constant →
        underscore other ≠ underscore constant ∧
          ∀ base : Path, (fileTried (base.child (underscore other))).same
            (fileTried (base.child (underscore constant))) = false := by
  have hread : ∀ constant, IsScoped constant → constantOf (underscore constant) = constant := by
    rintro _ ⟨names, hne, hnames, rfl⟩
    exact constantOf_intercalate hne hnames
  refine ⟨hread constant h, fun other hother hdifferent => ?_⟩
  have hpaths : underscore other ≠ underscore constant := by
    intro heq
    have hsame := congrArg constantOf heq
    rw [hread other hother, hread constant h] at hsame
    exact hdifferent hsame
  refine ⟨hpaths, fun base => ?_⟩
  obtain ⟨names, hne, hnames, rfl⟩ := h
  obtain ⟨names', hne', hnames', rfl⟩ := hother
  rw [fileTried_child hne hnames, fileTried_child hne' hnames', ← Bool.not_eq_true]
  intro hsame
  have htexts := (named_underscore_append hne' hnames').eq_of_same_child
    (named_underscore_append hne hnames) hsame
  exact hpaths (String.append_left_inj ".rb" |>.mp htexts)

/-- The scopes of two constants that are made of the same words. -/
theorem constantOf_underscore_words :
    (IsScoped "Admin2::UsersController" ∧ IsScoped "Admin2Users::Controller" ∧
      "Admin2Users::Controller" ≠ "Admin2::UsersController") ∧
    constantOf (underscore "Admin2::UsersController") = "Admin2::UsersController" ∧
    underscore "Admin2Users::Controller" ≠ underscore "Admin2::UsersController" ∧
    ∀ base : Path, (fileTried (base.child (underscore "Admin2Users::Controller"))).same
      (fileTried (base.child (underscore "Admin2::UsersController"))) = false := by
  have hfirst : IsScoped "Admin2::UsersController" :=
    ⟨["Admin2", "UsersController"], by simp, by decide +kernel, by decide +kernel⟩
  have hsecond : IsScoped "Admin2Users::Controller" :=
    ⟨["Admin2Users", "Controller"], by simp, by decide +kernel, by decide +kernel⟩
  obtain ⟨hread, hapart⟩ := constantOf_underscore hfirst
  exact ⟨⟨hfirst, hsecond, by decide⟩, hread, hapart _ hsecond (by decide)⟩

end SourceWeb.Language.Ruby
