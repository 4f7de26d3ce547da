/-
  Look-ups as derivations, with the number of links that they follow.

  A look-up with a limit ends at a place exactly if there is a way there that passes no more links
  than that.  Ways can be put together and taken apart where a list of segments is, which fuel
  cannot: the segments behind the first ones are followed with the links that these have left over.
-/
import SourceWeb.Proofs.Disk.Lookup
import SourceWeb.Proofs.Path.Place

namespace SourceWeb

open SourceWeb.Path SourceWeb.Text

namespace Disk

/-- Segments lead from a place to another one, through so many links. -/
inductive Way (root : Folder) : Location → List String → Nat → Location → Prop
  | done (at_ : Location) : Way root at_ [] 0 at_
  | step {at_ mid loc : Location} {s : String} {todo : List String} {n : Nat}
      (stride_eq : stride root at_ s = some (.to mid)) (rest : Way root mid todo n loc) :
      Way root at_ (s :: todo) n loc
  | jump {at_ start loc : Location} {s target : String} {todo : List String} {n : Nat}
      (stride_eq : stride root at_ s = some (.link start target))
      (rest : Way root start (splitChar '/' target ++ todo) n loc) :
      Way root at_ (s :: todo) (n + 1) loc

variable {root : Folder} {at_ mid loc : Location} {s : String} {todo rest : List String} {m n : Nat}

/-! ### Ways and look-ups -/

/-- If the jumps are ways through fewer links, the walk is one through so many. -/
theorem walk_eq_ok_iff {jump : Location → List String → Except OsError Location} {bound : Nat}
    (hjump : ∀ start todo, jump start todo = .ok loc ↔ ∃ n < bound, Way root start todo n loc) :
    walk root .find jump at_ todo = .ok loc ↔ ∃ n ≤ bound, Way root at_ todo n loc := by
  induction todo generalizing at_ with
  | nil =>
    rw [walk, Except.ok.injEq]
    constructor
    · intro h
      exact ⟨0, Nat.zero_le _, h ▸ .done at_⟩
    · rintro ⟨n, -, hway⟩
      cases hway
      rfl
  | cons s todo ih =>
    rw [walk_cons]
    constructor
    · rintro (⟨mid, hstride, h⟩ | ⟨start, target, hstride, h⟩)
      · obtain ⟨n, hn, hway⟩ := ih.mp h
        exact ⟨n, hn, .step hstride hway⟩
      · obtain ⟨n, hn, hway⟩ := (hjump _ _).mp h
        exact ⟨n + 1, hn, .jump hstride hway⟩
    · rintro ⟨n, hn, hway⟩
      cases hway with
      | step hstride hrest => exact .inl ⟨_, hstride, ih.mpr ⟨n, hn, hrest⟩⟩
      | jump hstride hrest => exact .inr ⟨_, _, hstride, (hjump _ _).mpr ⟨_, hn, hrest⟩⟩

/-- A look-up finds a place if a way leads there that passes no more links than it may follow. -/
theorem resolve_eq_ok_iff {limit : Nat} : resolve root .find limit at_ todo = .ok loc ↔
    ∃ n ≤ limit, Way root at_ todo n loc := by
  induction limit generalizing at_ todo with
  | zero =>
    apply walk_eq_ok_iff
    intro start todo
    simp
  | succ limit ih =>
    apply walk_eq_ok_iff
    intro start todo
    rw [ih]
    simp only [Nat.lt_succ_iff]

namespace Way

/-! ### Putting together and taking apart -/

theorem exists_folder (h : Way root at_ (s :: todo) n loc) :
    ∃ f, root.at? at_ = some (.folder f) := by
  cases h with
  | step hstride _ => exact exists_folder_of_stride hstride
  | jump hstride _ => exact exists_folder_of_stride hstride

theorem append (h : Way root at_ todo m mid) (hrest : Way root mid rest n loc) :
    Way root at_ (todo ++ rest) (m + n) loc := by
  induction h with
  | done at_ =>
    rw [Nat.zero_add]
    exact hrest
  | step hstride _ ih => exact .step hstride (ih hrest)
  | jump hstride _ ih =>
    rw [Nat.add_right_comm]
    have hjump := ih hrest
    rw [List.append_assoc] at hjump
    exact .jump hstride hjump

theorem split (h : Way root at_ (todo ++ rest) n loc) :
    ∃ k m mid, Way root at_ todo k mid ∧ Way root mid rest m loc ∧ n = k + m := by
  generalize hwhole : todo ++ rest = whole at h
  induction h generalizing todo with
  | done at_ =>
    obtain ⟨rfl, rfl⟩ := List.append_eq_nil_iff.mp hwhole
    exact ⟨0, 0, at_, .done at_, .done at_, rfl⟩
  | @step at_ next loc s more n hstride hmore ih =>
    cases todo with
    | nil =>
      rw [List.nil_append] at hwhole
      rw [hwhole]
      exact ⟨0, n, at_, .done at_, .step hstride hmore, (Nat.zero_add n).symm⟩
    | cons t todo =>
      obtain ⟨rfl, hsplit⟩ := List.cons.inj hwhole
      obtain ⟨k, m, mid, hfirst, hrest, hn⟩ := ih hsplit
      exact ⟨k, m, mid, .step hstride hfirst, hrest, hn⟩
  | @jump at_ start loc s target more n hstride hmore ih =>
    cases todo with
    | nil =>
      rw [List.nil_append] at hwhole
      rw [hwhole]
      exact ⟨0, n + 1, at_, .done at_, .jump hstride hmore, (Nat.zero_add _).symm⟩
    | cons t todo =>
      obtain ⟨rfl, rfl⟩ := List.cons.inj hwhole
      obtain ⟨k, m, mid, hfirst, hrest, hn⟩ := ih (List.append_assoc _ _ _)
      exact ⟨k + 1, m, mid, .jump hstride hfirst, hrest, by omega⟩

theorem split_cons (h : Way root at_ (s :: todo) n loc) :
    ∃ k m mid, Way root at_ [s] k mid ∧ Way root mid todo m loc ∧ n = k + m := by
  have happ : Way root at_ ([s] ++ todo) n loc := h
  exact happ.split

/-- From one place the same segments lead to one place only. -/
theorem unique {loc' : Location} (h : Way root at_ todo m loc) (h' : Way root at_ todo n loc') :
    m = n ∧ loc = loc' := by
  induction h generalizing n with
  | done at_ =>
    cases h'
    exact ⟨rfl, rfl⟩
  | step hstride _ ih =>
    cases h' with
    | step hstride' hrest =>
      cases hstride.symm.trans hstride'
      exact ih hrest
    | jump hstride' hrest => cases hstride.symm.trans hstride'
  | jump hstride _ ih =>
    cases h' with
    | step hstride' hrest => cases hstride.symm.trans hstride'
    | jump hstride' hrest =>
      cases hstride.symm.trans hstride'
      obtain ⟨rfl, hloc⟩ := ih hrest
      exact ⟨rfl, hloc⟩

theorem singleton {at' : Location} (h : stride root at_ s = some (.to at')) :
    Way root at_ [s] 0 at' :=
  .step h (.done at')

theorem of_singleton {at' : Location} (hstride : stride root at_ s = some (.to at'))
    (h : Way root at_ [s] n loc) : n = 0 ∧ loc = at' := by
  obtain ⟨hn, hloc⟩ := h.unique (singleton hstride)
  exact ⟨hn, hloc⟩

/-! ### Idle segments -/

/-- Idle segments may be left out. -/
theorem filter (h : Way root at_ todo n loc) :
    Way root at_ (todo.filter fun s => !isIdle s) n loc := by
  induction todo generalizing at_ n with
  | nil => exact h
  | cons s todo ih =>
    obtain ⟨k, m, mid, hfirst, hrest, rfl⟩ := split_cons h
    cases hs : isIdle s with
    | true =>
      obtain ⟨f, hf⟩ := hfirst.exists_folder
      obtain ⟨rfl, rfl⟩ := of_singleton (stride_idle hf hs) hfirst
      rw [List.filter_cons_of_neg (by simp [hs]), Nat.zero_add]
      exact ih hrest
    | false =>
      rw [List.filter_cons_of_pos (by simp [hs])]
      exact append hfirst (ih hrest)

/-- Idle segments may be put in where a folder stands. -/
theorem of_filter {f : Folder} (hloc : root.at? loc = some (.folder f))
    (h : Way root at_ (todo.filter fun s => !isIdle s) n loc) : Way root at_ todo n loc := by
  induction todo generalizing at_ n with
  | nil => exact h
  | cons s todo ih =>
    cases hs : isIdle s with
    | true =>
      rw [List.filter_cons_of_neg (by simp [hs])] at h
      have hrest := ih h
      obtain ⟨g, hg⟩ : ∃ g, root.at? at_ = some (.folder g) := by
        cases hrest with
        | done => exact ⟨f, hloc⟩
        | step hstride _ => exact exists_folder_of_stride hstride
        | jump hstride _ => exact exists_folder_of_stride hstride
      exact .step (stride_idle hg hs) hrest
    | false =>
      rw [List.filter_cons_of_pos (by simp [hs])] at h
      obtain ⟨k, m, mid, hfirst, hrest, rfl⟩ := split_cons h
      exact append hfirst (ih hrest)

/-! ### Components worked off -/

/-- One segment less at the start of a place leads there, if no link stands in between. -/
theorem of_concat_up (hname : IsName s) (hlink : ∀ m dir, m ≤ n → Way root at_ todo m dir →
    ∀ target, root.at? (dir ++ [s]) ≠ some (.link target))
    (h : Way root at_ (todo ++ [s]) n mid) (hup : Way root mid [".."] m loc) :
    ∃ k ≤ n, Way root at_ todo k loc := by
  obtain ⟨f, hf⟩ := hup.exists_folder
  obtain ⟨rfl, rfl⟩ := of_singleton (stride_up hf) hup
  obtain ⟨k, i, dir, hdir, hlast, rfl⟩ := h.split
  have hdirect := hlink k dir (Nat.le_add_right k i) hdir
  cases hlast with
  | jump hstride _ => exact absurd (stride_link hstride).1 (hdirect _)
  | step hstride hrest =>
    obtain ⟨rfl, -⟩ := stride_name hname hstride
    cases hrest
    rw [List.dropLast_concat]
    exact ⟨k, Nat.le_add_right k 0, hdir⟩

/-- Does no `..` take back the name of a link that is reached through at most `n` links? -/
def Direct (root : Folder) (start : Location) (n : Nat) (cs : List Component) : Prop :=
  ∀ before after, cs = before ++ .up :: after → ∀ s names, (Reduced.of before).names = s :: names →
    ∀ m dir, m ≤ n → Way root ((Reduced.of before).base start) names.reverse m dir →
    ∀ target, root.at? (dir ++ [s]) ≠ some (.link target)

theorem Direct.of_concat {start : Location} {cs : List Component} {c : Component}
    (h : Direct root start n (cs ++ [c])) (hm : m ≤ n) : Direct root start m cs := by
  intro before after hsplit s names hnames k dir hk
  refine h before (after ++ [c]) ?_ s names hnames k dir (hk.trans hm)
  rw [hsplit, List.append_assoc, List.cons_append]

/-- Steps that lead to a place still do so when `.` and `..` are worked off, if every `..` that
    takes a name back follows no link. -/
theorem reduce {start : Location} {cs : List Component} (hcs : ∀ c ∈ cs, c.IsStep)
    (hdirect : Direct root start n cs)
    (h : Way root start (cs.map Component.text) n loc) :
    ∃ m ≤ n, Way root ((Reduced.of cs).base start) (Reduced.of cs).names.reverse m loc := by
  induction cs using List.reverseRecOn generalizing n loc with
  | nil =>
    refine ⟨n, Nat.le_refl n, ?_⟩
    have hbase : (Reduced.of []).base start = start := List.take_length
    rw [hbase]
    exact h
  | append_singleton cs c ih =>
    have hfirst : ∀ d ∈ cs, d.IsStep := fun d hd => hcs d (by simp [hd])
    rw [List.map_append] at h
    obtain ⟨k, i, mid, hbefore, hlast, rfl⟩ := h.split
    obtain ⟨m, hm, hway⟩ := ih hfirst (hdirect.of_concat (Nat.le_add_right k i)) hbefore
    rw [Reduced.of_concat]
    cases c with
    | root => exact (hcs .root (by simp)).elim
    | here => exact (hcs .here (by simp)).elim
    | name s =>
      refine ⟨m + i, by omega, ?_⟩
      have hconcat := hway.append hlast
      rw [Reduced.step, List.reverse_cons]
      exact hconcat
    | up =>
      have hnames := fun t => Reduced.isName_of_mem (s := t) fun u hu => hfirst (.name u) hu
      have hlink := hdirect cs [] rfl
      cases hkept : (Reduced.of cs).names with
      | nil =>
        -- nothing is left to take back: the way starts one level higher
        rw [hkept] at hway
        cases hway
        obtain ⟨f, hf⟩ := hlast.exists_folder
        obtain ⟨rfl, rfl⟩ := of_singleton (stride_up hf) hlast
        refine ⟨0, Nat.zero_le _, ?_⟩
        rw [Reduced.step, hkept, Reduced.base_succ (Reduced.of cs).ups [] (Reduced.of cs).names]
        exact .done _
      | cons s names =>
        rw [hkept, List.reverse_cons] at hway
        obtain ⟨j, hj, hshort⟩ := of_concat_up (hnames s (by simp [hkept]))
          (fun m' dir hm' => hlink s names hkept m' dir (by omega)) hway hlast
        refine ⟨j, by omega, ?_⟩
        rw [Reduced.step, hkept]
        exact hshort

/-- So the segments of a path lead where those lead that it is reduced to. -/
theorem reduce_segments {start : Location} {p : Path}
    (hdirect : Direct root start n (steps p.segments)) (h : Way root start p.segments n loc) :
    ∃ m ≤ n, Way root (p.reduced.base start) p.reduced.names.reverse m loc := by
  have htexts := h.filter
  rw [← map_text_steps] at htexts
  rw [reduced_eq]
  exact htexts.reduce (fun c => isStep_of_mem_steps) hdirect

/-- The segments of a path spelled from steps lead where the steps do. -/
theorem ofComponents_iff {start : Location} {f : Folder} (hf : root.at? start = some (.folder f))
    {cs : List Component} (hcs : ∀ c ∈ cs, c.IsStep) (absolute : Bool) :
    Way root start (ofComponents ((if absolute then [.root] else []) ++ cs)).segments n loc ↔
      Way root start (cs.map Component.text) n loc := by
  have hempty : ∀ todo, Way root start ("" :: todo) n loc ↔ Way root start todo n loc := by
    intro todo
    have hidle := stride_idle hf (s := "") rfl
    constructor
    · intro h
      obtain ⟨k, m, mid, hfirst, hrest, rfl⟩ := split_cons h
      obtain ⟨rfl, rfl⟩ := of_singleton hidle hfirst
      rw [Nat.zero_add]
      exact hrest
    · exact .step hidle
  rw [segments_ofComponents hcs]
  have hsteps : Way root start (if cs = [] then [""] else cs.map Component.text) n loc ↔
      Way root start (cs.map Component.text) n loc := by
    split
    · rename_i hnil
      rw [hnil]
      exact hempty []
    · rfl
  cases absolute with
  | false => exact hsteps
  | true => exact (hempty _).trans hsteps

/-- The segments of a normal path lead where those lead that are kept. -/
theorem normal_iff {start : Location} {f : Folder} (hf : root.at? start = some (.folder f))
    (p : Path) :
    Way root start p.normal.segments n loc ↔ Way root start p.normalSegments n loc := by
  obtain ⟨cs, hcs, hseg, -⟩ := exists_steps_normal p
  have hspelled := p.tidy_normal
  rw [Tidy, components_normal, hseg, steps_map_text hcs] at hspelled
  rw [← hspelled, hseg]
  exact ofComponents_iff hf hcs p.isAbsolute

end Way

/-! ### The look-ups of a disk -/

/-- A path that leads somewhere starts at a folder. -/
theorem exists_start_of_follow {d : Disk} {p : Path} (h : d.follow .find p = .ok loc) :
    ∃ f, d.root.at? (if p.isAbsolute then [] else d.here) = some (.folder f) := by
  obtain ⟨n, -, hway⟩ := resolve_eq_ok_iff.mp h
  obtain ⟨s, todo, hcons⟩ := List.exists_cons_of_ne_nil p.segments_ne_nil
  rw [hcons] at hway
  exact hway.exists_folder

end Disk

end SourceWeb
