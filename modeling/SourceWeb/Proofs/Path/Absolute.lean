/-
  Absolute paths: what is read from one, stands above it or is spelled on from it is absolute too.

  A path is read from a directory by going its steps down from there, or from the root; a double
  slash at the start and one at the end stay.  What was read so is left alone when it is read again.
-/
import SourceWeb.Proofs.Path.Below
import SourceWeb.Proofs.Path.Normal

namespace SourceWeb.Path

open SourceWeb.Text

theorem isAbsolute_join {p q : Path} (hp : p.isAbsolute = true) : (p.join q).isAbsolute = true := by
  by_cases hq : q.isAbsolute = true
  · rw [join, if_pos hq]
    exact hq
  · have hne : p.text ≠ "" := by
      intro h
      simp [isAbsolute, h] at hp
    rw [isAbsolute, text_join_head hne (by simpa using hq)]
    exact hp

theorem isAbsolute_child {p : Path} (hp : p.isAbsolute = true) (t : String) :
    (p.child t).isAbsolute = true :=
  isAbsolute_join hp

theorem isAbsolute_foldl_child {p : Path} (hp : p.isAbsolute = true) (ts : List String) :
    (ts.foldl child p).isAbsolute = true := by
  induction ts generalizing p with
  | nil => exact hp
  | cons t ts ih => exact ih (isAbsolute_child hp t)

theorem isAbsolute_withSuffix {p : Path} (hp : p.isAbsolute = true) (t : String) :
    (p.withSuffix t).isAbsolute = true := by
  rw [isAbsolute, decide_eq_true_eq] at hp ⊢
  rw [withSuffix, String.toList_append, List.head?_append, hp]
  rfl

/-- What is left of an absolute path without something at its end that has no slash is absolute. -/
theorem isAbsolute_of_beforeEnd {p : Path} (hp : p.isAbsolute = true) {e stem : String}
    (he : ¬ Holds '/' e) (h : beforeEnd e p.text = some stem) : isAbsolute ⟨stem⟩ = true := by
  obtain ⟨cs, hcs, rfl⟩ := Option.map_eq_some_iff.mp h
  obtain ⟨back, hback, rfl⟩ := Option.map_eq_some_iff.mp hcs
  have happ := List.append_eq_of_isPrefixOf?_eq_some hback
  have htext : p.text.toList = back.reverse ++ e.toList := by
    rw [← List.reverse_reverse p.text.toList, ← happ]
    simp
  rw [isAbsolute, htext, decide_eq_true_eq] at hp
  rw [isAbsolute, String.toList_ofList, decide_eq_true_eq]
  cases hrest : back.reverse with
  | cons c cs =>
    rw [hrest] at hp
    exact hp
  | nil =>
    rw [hrest, List.nil_append] at hp
    exact absurd (holds_of_head hp) he

theorem isAbsolute_of_mem_ancestors {p q : Path} (hp : p.isAbsolute = true)
    (hq : q ∈ p.ancestors) : q.isAbsolute = true :=
  of_mem_ancestors (fun _ _ => isAbsolute_of_parent?) hp hq

/-! ### Paths read from a directory -/

/-- The steps of a path are its components, but for what it starts with. -/
theorem steps_eq_filter (p : Path) :
    steps p.segments = p.components.filter fun c => c ≠ .root ∧ c ≠ .here := by
  have hlead : p.lead.filter (fun c => decide (c ≠ .root ∧ c ≠ .here)) = [] := by
    unfold lead
    split
    · rfl
    · split <;> rfl
  rw [components_eq, List.filter_append, hlead, List.nil_append, eq_comm, List.filter_eq_self]
  intro c hc
  have hstep := isStep_of_mem_steps hc
  cases c with
  | root | here => exact hstep.elim
  | up | name s => rfl

/-- Where the steps of a path are taken from, when it is read from the directory `here`. -/
def startFrom (here p : Path) : Path :=
  if p.isAbsolute then
    if Text.startsWith "//" p.text && !Text.startsWith "///" p.text then ⟨"//"⟩ else ⟨"/"⟩
  else here

/-- A path that is read from a directory goes its steps down from there, or from the root; a slash
    at its end stays. -/
theorem absoluteFrom_eq {here p : Path} (hp : p.text ≠ "") :
    absoluteFrom here p = some (if endsWith "/" p.text
      then ((startFrom here p).down (steps p.segments)).child ""
      else (startFrom here p).down (steps p.segments)) := by
  have hnamed : p.components.filter (fun c => c != .here) =
      (if p.isAbsolute then [.root] else []) ++ steps p.segments := by
    have hsteps : (steps p.segments).filter (fun c => c != .here) = steps p.segments := by
      rw [List.filter_eq_self]
      intro c hc
      have hstep := isStep_of_mem_steps hc
      cases c with
      | root | here => exact hstep.elim
      | up | name s => rfl
    rw [components_eq, List.filter_append, hsteps, lead]
    split
    · rfl
    · split <;> rfl
  unfold absoluteFrom startFrom
  rw [if_neg hp, hnamed]
  cases p.isAbsolute with
  | false => rfl
  | true =>
    cases Text.startsWith "//" p.text && !Text.startsWith "///" p.text <;> rfl

/-- What a path is read as is its steps from there, or these with a slash behind them. -/
theorem eq_of_absoluteFrom {here p q : Path} (h : absoluteFrom here p = some q) :
    q = (startFrom here p).down (steps p.segments) ∨
      q = ((startFrom here p).down (steps p.segments)).child "" := by
  have hp : p.text ≠ "" := by
    intro hempty
    simp [absoluteFrom, hempty] at h
  rw [absoluteFrom_eq hp, Option.some.injEq] at h
  split at h
  · exact .inr h.symm
  · exact .inl h.symm

theorem steps_down {p : Path} {cs : List Component} (h : ∀ c ∈ cs, c.IsStep) :
    steps (p.down cs).segments = steps p.segments ++ cs := by
  by_cases hne : cs = []
  · simp [hne, down]
  · rw [down, segments_foldl_child p hne h, steps_append, steps_base, steps_map_text h]

theorem steps_child_empty (p : Path) : steps (p.child "").segments = steps p.segments := by
  rw [child, segments_join (by decide), steps_append, steps_base]
  exact List.append_nil _

theorem isAbsolute_startFrom {here p : Path} (hhere : here.isAbsolute = true) :
    (startFrom here p).isAbsolute = true := by
  unfold startFrom
  split
  · split <;> decide
  · exact hhere

/-- A path that is read from an absolute one is absolute. -/
theorem isAbsolute_absoluteFrom {here p q : Path} (hhere : here.isAbsolute = true)
    (h : absoluteFrom here p = some q) : q.isAbsolute = true := by
  have hdown : ((startFrom here p).down (steps p.segments)).isAbsolute = true := by
    rw [down, ← List.foldl_map]
    exact isAbsolute_foldl_child (isAbsolute_startFrom hhere) _
  rcases eq_of_absoluteFrom h with rfl | rfl
  · exact hdown
  · exact isAbsolute_join hdown

/-! ### Paths read twice -/

/-- Going down writes behind the path. -/
theorem exists_text_down (p : Path) {cs : List Component} (h : ∀ c ∈ cs, c.IsStep) :
    ∃ more, (p.down cs).text = p.text ++ more := by
  induction cs generalizing p with
  | nil => exact ⟨"", String.append_empty.symm⟩
  | cons c cs ih =>
    have hrel : isAbsolute ⟨c.text⟩ = false :=
      isAbsolute_eq_false_of_segment (h c List.mem_cons_self).text.2.2
    obtain ⟨more, hmore⟩ := ih (p.child c.text) fun d hd => h d (List.mem_cons_of_mem c hd)
    have hdown : (p.down (c :: cs)).text = (p.child c.text).text ++ more := hmore
    rw [hdown, child, join, hrel, if_neg Bool.false_ne_true]
    split
    · exact ⟨c.text ++ more, String.append_assoc ..⟩
    · exact ⟨"/" ++ c.text ++ more, by simp only [String.append_assoc]⟩

theorem text_child_empty (p : Path) :
    (p.child "").text = if p.text = "" ∨ endsWith "/" p.text then p.text else p.text ++ "/" := by
  have hrel : isAbsolute ⟨""⟩ = false := by decide
  rw [child, join, hrel, if_neg Bool.false_ne_true]
  split <;> simp only [String.append_empty]

/-- One slash or two: where the spelling of an absolute path starts. -/
def IsRoot (r : Path) : Prop :=
  r = ⟨"/"⟩ ∨ r = ⟨"//"⟩

/-- What is written behind a root starts there, if it does not start with one more slash. -/
theorem startFrom_of_text {here r p : Path} (hr : r.IsRoot) {rest : String}
    (htext : p.text = r.text ++ rest) (hrest : rest.toList.head? ≠ some '/') :
    startFrom here p = r := by
  have htail : (['/'] : List Char).isPrefixOf rest.toList = false := by
    cases hcs : rest.toList with
    | nil => rfl
    | cons c cs =>
      have hc : '/' ≠ c := by
        rintro rfl
        exact hrest (by rw [hcs]; rfl)
      simp [List.isPrefixOf, hc]
  rcases hr with rfl | rfl
  · have htoList : p.text.toList = '/' :: rest.toList := by rw [htext]; simp
    have habs : p.isAbsolute = true := by simp [isAbsolute, htoList]
    have hone : Text.startsWith "//" p.text = false := by
      simpa [Text.startsWith, htoList] using htail
    rw [startFrom, if_pos habs, hone]
    rfl
  · have htoList : p.text.toList = '/' :: '/' :: rest.toList := by rw [htext]; simp
    have habs : p.isAbsolute = true := by simp [isAbsolute, htoList]
    have htwo : Text.startsWith "//" p.text = true := by
      simp [Text.startsWith, htoList]
    have hthree : Text.startsWith "///" p.text = false := by
      simpa [Text.startsWith, htoList] using htail
    rw [startFrom, if_pos habs, htwo, hthree]
    rfl

/-- Is the path spelled from a root step by step, perhaps with one more slash at its end? -/
def Rooted (p : Path) : Prop :=
  ∃ r : Path, r.IsRoot ∧ ∃ cs : List Component, (∀ c ∈ cs, c.IsStep) ∧
    (p = r.down cs ∨ p = (r.down cs).child "")

theorem IsRoot.text {r : Path} (h : r.IsRoot) :
    r.text ≠ "" ∧ endsWith "/" r.text = true ∧ steps r.segments = [] := by
  rcases h with rfl | rfl <;> decide

theorem endsWith_child_empty {p : Path} (hp : p.text ≠ "") :
    endsWith "/" (p.child "").text = true := by
  rw [text_child_empty]
  split
  · rename_i h
    exact h.resolve_left hp
  · exact endsWith_iff.mpr ⟨p.text, rfl⟩

theorem child_empty_eq_self {p : Path} (h : endsWith "/" p.text = true) : p.child "" = p := by
  apply ext_text
  rw [text_child_empty, if_pos (.inr h)]

/-- Steps from a root are written behind it, and do not start with a slash. -/
theorem IsRoot.exists_text_down {r : Path} (hr : r.IsRoot) {cs : List Component}
    (hcs : ∀ c ∈ cs, c.IsStep) :
    ∃ rest, (r.down cs).text = r.text ++ rest ∧ rest.toList.head? ≠ some '/' := by
  cases cs with
  | nil => exact ⟨"", String.append_empty.symm, by simp⟩
  | cons c cs =>
    obtain ⟨hne, -, hslash⟩ := (hcs c List.mem_cons_self).text
    obtain ⟨more, hmore⟩ := Path.exists_text_down (r.child c.text)
      fun d hd => hcs d (List.mem_cons_of_mem c hd)
    have hchild : (r.child c.text).text = r.text ++ c.text := by
      rw [child, join, isAbsolute_eq_false_of_segment hslash, if_neg Bool.false_ne_true,
        if_pos (.inr hr.text.2.1)]
    have hdown : (r.down (c :: cs)).text = (r.child c.text).text ++ more := hmore
    refine ⟨c.text ++ more, by rw [hdown, hchild, String.append_assoc], ?_⟩
    rw [String.toList_append, List.head?_append_of_ne_nil _ (by simpa using hne)]
    exact fun h => hslash (holds_of_head h)

/-- What is spelled from a root is read as it is. -/
theorem Rooted.absoluteFrom {p : Path} (h : p.Rooted) (here : Path) :
    absoluteFrom here p = some p := by
  obtain ⟨r, hr, cs, hcs, hp⟩ := h
  obtain ⟨rest, htext, hrest⟩ := hr.exists_text_down hcs
  obtain ⟨hne, hslash, hnone⟩ := hr.text
  have hdown : (r.down cs).text ≠ "" := by
    rw [htext]
    exact fun h => hne (String.append_eq_empty_iff.mp h).1
  rcases hp with rfl | rfl
  · have hstart : startFrom here (r.down cs) = r := startFrom_of_text hr htext hrest
    rw [absoluteFrom_eq hdown, hstart, steps_down hcs, hnone, List.nil_append]
    split
    · rename_i hend
      rw [child_empty_eq_self hend]
    · rfl
  · have hstart : startFrom here ((r.down cs).child "") = r := by
      by_cases hend : endsWith "/" (r.down cs).text = true
      · rw [child_empty_eq_self hend]
        exact startFrom_of_text hr htext hrest
      · have htext' : ((r.down cs).child "").text = r.text ++ (rest ++ "/") := by
          rw [text_child_empty, if_neg (by simp [hdown, hend]), htext, String.append_assoc]
        have hrest' : rest.toList ≠ [] := by
          intro hnil
          rw [String.toList_eq_nil_iff.mp hnil, String.append_empty] at htext
          exact hend (htext ▸ hslash)
        refine startFrom_of_text hr htext' ?_
        rw [String.toList_append, List.head?_append_of_ne_nil _ hrest']
        exact hrest
    have hend := endsWith_child_empty hdown
    have hchild : ((r.down cs).child "").text ≠ "" := by
      intro hempty
      rw [hempty] at hend
      exact absurd hend (by decide)
    rw [absoluteFrom_eq hchild, if_pos hend, hstart, steps_child_empty, steps_down hcs, hnone,
      List.nil_append]

/-- What stands above a path that is spelled from a root is spelled from one. -/
theorem Rooted.parent {p q : Path} (h : p.Rooted) (hq : p.parent? = some q) : q.Rooted := by
  obtain ⟨r, hr, cs, hcs, hp⟩ := h
  have hup : (r.down cs).parent? = some q := by
    rcases hp with rfl | rfl
    · exact hq
    · obtain ⟨rest, htext, -⟩ := hr.exists_text_down hcs
      have hne : (r.down cs).text ≠ "" := by
        rw [htext]
        exact fun h => hr.text.1 (String.append_eq_empty_iff.mp h).1
      rwa [parent?_child_empty hne] at hq
  rcases List.eq_nil_or_concat cs with rfl | ⟨front, c, rfl⟩
  · have htop : r.parent? = none := by rcases hr with rfl | rfl <;> decide
    rw [down, List.foldl_nil, htop] at hup
    simp at hup
  · rw [List.concat_eq_append] at hup hcs
    have hstep : c.IsStep := hcs c (by simp)
    have hfront : ∀ c ∈ front, c.IsStep := fun d hd => hcs d (List.mem_append_left _ hd)
    have hlast : r.down (front ++ [c]) = (r.down front).child c.text := by
      rw [down_append]
      rfl
    rw [hlast, parent?_child _ hstep, Option.some.injEq] at hup
    rw [← hup]
    rcases List.eq_nil_or_concat front with rfl | ⟨front, d, rfl⟩
    · refine ⟨⟨"/"⟩, .inl rfl, [], by simp, .inl ?_⟩
      rcases hr with rfl | rfl <;> decide
    · rw [List.concat_eq_append] at hfront ⊢
      have hd : d.IsStep := hfront d (by simp)
      have htrim : (r.down (front ++ [d])).trimmed = r.down (front ++ [d]) := by
        rw [down_append]
        exact trimmed_child _ hd
      exact ⟨r, hr, _, hfront, .inl htrim⟩

theorem Rooted.of_mem_ancestors {p q : Path} (h : p.Rooted) (hq : q ∈ p.ancestors) : q.Rooted :=
  Path.of_mem_ancestors (fun _ _ hparent hp => hp.parent hparent) h hq

theorem Tidy.rooted {p : Path} (h : p.Tidy) (habs : p.isAbsolute = true) : p.Rooted := by
  have hdown : p = Path.down ⟨"/"⟩ (steps p.segments) := by
    conv_lhs => rw [← h, components_of_isAbsolute habs]
    rfl
  exact ⟨⟨"/"⟩, .inl rfl, _, fun _ => isStep_of_mem_steps, .inl hdown⟩

/-- What is read from the root, or from a tidy path, is spelled from a root. -/
theorem rooted_absoluteFrom {here p q : Path} (htidy : here.Tidy) (habs : here.isAbsolute = true)
    (h : here.absoluteFrom p = some q) : q.Rooted := by
  have hsteps : ∀ c ∈ steps p.segments, c.IsStep := fun c => isStep_of_mem_steps
  obtain ⟨r, hr, cs, hcs, hdown⟩ : ∃ r : Path, r.IsRoot ∧ ∃ cs : List Component,
      (∀ c ∈ cs, c.IsStep) ∧ (startFrom here p).down (steps p.segments) = r.down cs := by
    cases hpabs : p.isAbsolute with
    | true =>
      refine ⟨startFrom here p, ?_, _, hsteps, rfl⟩
      rw [startFrom, if_pos hpabs]
      split
      · exact .inr rfl
      · exact .inl rfl
    | false =>
      have hhere : here = down ⟨"/"⟩ (steps here.segments) := by
        conv_lhs => rw [← htidy, components_of_isAbsolute habs]
        rfl
      refine ⟨⟨"/"⟩, .inl rfl, steps here.segments ++ steps p.segments, ?_, ?_⟩
      · intro c hc
        exact (List.mem_append.mp hc).elim isStep_of_mem_steps isStep_of_mem_steps
      · rw [startFrom, hpabs, if_neg Bool.false_ne_true, down_append, ← hhere]
  have hq := eq_of_absoluteFrom h
  rw [hdown] at hq
  exact ⟨r, hr, cs, hcs, hq⟩

end SourceWeb.Path
