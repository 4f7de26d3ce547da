/-
  The order of discovery is breadth first.

  The distance of a file is the least number of references that lead to it from a file of the start.
  A run looks at its files in the order in which it found them, and a file is credited to the first
  of them that leads to it.  So of two found files the one found first is credited to a file that
  stands no later, and by induction on the distance no file stands behind one that is farther away.
-/
import Mathlib.Order.Lattice.Nat
import SourceWeb.Proofs.Discovery.Closure

namespace SourceWeb.Discovery

open SourceWeb.Path
open SourceWeb.Ignore (RuleCache)

namespace Setting

variable {s : Setting} {rules : RuleCache} {seeds : List Path}

/-! ### Distances -/

/-- The files that so many references lead to from the files `seeds`. -/
inductive ReachedIn (s : Setting) (rules : RuleCache) (seeds : List Path) : Nat → Path → Prop
  | seed {p : Path} (h : p ∈ seeds) : ReachedIn s rules seeds 0 p
  | follow {n : Nat} {f t : Path} (hf : ReachedIn s rules seeds n f) (h : s.Leads rules f t) :
      ReachedIn s rules seeds (n + 1) t

/-- The least number of references that lead to a file from the files `seeds`. -/
noncomputable def distance (s : Setting) (rules : RuleCache) (seeds : List Path) (p : Path) : Nat :=
  sInf {n | s.ReachedIn rules seeds n p}

theorem reached_iff_exists {p : Path} :
    s.Reached rules seeds p ↔ ∃ n, s.ReachedIn rules seeds n p := by
  constructor
  · intro h
    induction h with
    | seed h => exact ⟨0, .seed h⟩
    | follow _ h ih =>
      obtain ⟨n, hn⟩ := ih
      exact ⟨n + 1, .follow hn h⟩
  · rintro ⟨n, h⟩
    induction h with
    | seed h => exact .seed h
    | follow _ h ih => exact .follow ih h

theorem reachedIn_distance {p : Path} (h : s.Reached rules seeds p) :
    s.ReachedIn rules seeds (s.distance rules seeds p) p :=
  Nat.sInf_mem (reached_iff_exists.mp h)

theorem ReachedIn.distance_le {n : Nat} {p : Path} (h : s.ReachedIn rules seeds n p) :
    s.distance rules seeds p ≤ n :=
  Nat.sInf_le h

theorem distance_eq_zero {p : Path} (h : p ∈ seeds) : s.distance rules seeds p = 0 :=
  Nat.le_zero.mp (ReachedIn.distance_le (.seed h))

theorem mem_of_distance_eq_zero {p : Path} (h : s.Reached rules seeds p)
    (hp : s.distance rules seeds p = 0) : p ∈ seeds := by
  have hdist := reachedIn_distance h
  rw [hp] at hdist
  cases hdist with
  | seed h => exact h

theorem Leads.distance_le {f t : Path} (h : s.Leads rules f t) (hf : s.Reached rules seeds f) :
    s.distance rules seeds t ≤ s.distance rules seeds f + 1 :=
  ReachedIn.distance_le (.follow (reachedIn_distance hf) h)

/-- A file that the run did not start from is led to by one that is nearer. -/
theorem exists_leads_of_reached {t : Path} (h : s.Reached rules seeds t) (ht : t ∉ seeds) :
    ∃ f, s.Reached rules seeds f ∧ s.Leads rules f t ∧
      s.distance rules seeds f + 1 = s.distance rules seeds t := by
  have hdist := reachedIn_distance h
  generalize hn : s.distance rules seeds t = n at hdist
  cases hdist with
  | seed h => exact absurd h ht
  | @follow n f _ hf hleads =>
    have hreached := reached_iff_exists.mpr ⟨n, hf⟩
    have hle := hleads.distance_le hreached
    have hge := hf.distance_le
    exact ⟨f, hreached, hleads, by omega⟩

/-- Only which files the run starts from counts. -/
theorem distance_congr {seeds' : List Path} (h : ∀ p, p ∈ seeds ↔ p ∈ seeds') :
    s.distance rules seeds = s.distance rules seeds' := by
  have hmono : ∀ {l l' : List Path}, (∀ p ∈ l, p ∈ l') → ∀ {n p},
      s.ReachedIn rules l n p → s.ReachedIn rules l' n p := by
    intro l l' hl n p hp
    induction hp with
    | seed hp => exact .seed (hl _ hp)
    | follow _ hleads ih => exact .follow ih hleads
  funext p
  have hset : {n | s.ReachedIn rules seeds n p} = {n | s.ReachedIn rules seeds' n p} :=
    Set.ext fun n => ⟨hmono fun q => (h q).mp, hmono fun q => (h q).mpr⟩
  rw [distance, distance, hset]

/-! ### The first file that leads to another -/

/-- Does the file `g` stand in the list, with no file before it that leads to `t`? -/
def FirstTo (s : Setting) (rules : RuleCache) (files : List Path) (g t : Path) : Prop :=
  ∃ before after, files = before ++ g :: after ∧ ∀ h ∈ before, ¬ s.Leads rules h t

theorem FirstTo.append {files : List Path} {g t : Path} (h : s.FirstTo rules files g t)
    (more : List Path) : s.FirstTo rules (files ++ more) g t := by
  obtain ⟨before, after, rfl, hbefore⟩ := h
  exact ⟨before, after ++ more, by simp, hbefore⟩

/-- Whatever leads to the target is the first file, or stands behind it. -/
theorem FirstTo.eq_or_sublist {files : List Path} {g h t : Path} (hg : s.FirstTo rules files g t)
    (hh : h ∈ files) (hleads : s.Leads rules h t) : g = h ∨ [g, h].Sublist files := by
  obtain ⟨before, after, rfl, hbefore⟩ := hg
  rcases List.mem_append.mp hh with hh | hh
  · exact absurd hleads (hbefore h hh)
  · rcases List.mem_cons.mp hh with rfl | hh
    · exact .inl rfl
    · refine .inr (List.Sublist.trans ?_ (List.sublist_append_right before _))
      exact List.Sublist.cons_cons g (List.singleton_sublist.mpr hh)

/-- The credits for the found files, in the order in which these were found: the file that led to
    each of them is the first one to lead to it, or to a file that was found later. -/
structure Credited (s : Setting) (rules : RuleCache) (files : List Path)
    (credits : List (Path × Path)) : Prop where
  leads : ∀ c ∈ credits, s.Leads rules c.1 c.2
  first : ∀ c ∈ credits, s.FirstTo rules files c.1 c.2
  order : credits.Pairwise fun c c' => s.FirstTo rules files c.1 c'.2

theorem FirstTo.of_forall_not {files : List Path} {g t u : Path} (h : s.FirstTo rules files g t)
    (hu : ∀ f ∈ files, ¬ s.Leads rules f u) : s.FirstTo rules files g u := by
  obtain ⟨before, after, rfl, -⟩ := h
  exact ⟨before, after, rfl, fun f hf => hu f (List.mem_append_left _ hf)⟩

theorem FirstTo.mem {files : List Path} {g t : Path} (h : s.FirstTo rules files g t) :
    g ∈ files := by
  obtain ⟨before, after, rfl, -⟩ := h
  simp

/-- The first file stays the first if others behind some files are taken away. -/
theorem FirstTo.filter {first more : List Path} {g t : Path} {keep : Path → Bool}
    (h : s.FirstTo rules (first ++ more) g t) (hg : g ∈ more → keep g = true) :
    s.FirstTo rules (first ++ more.filter keep) g t := by
  obtain ⟨before, after, heq, hbefore⟩ := h
  have hmore : ∀ front, more = front ++ g :: after →
      more.filter keep = front.filter keep ++ g :: after.filter keep := by
    intro front hfront
    rw [hfront, List.filter_append, List.filter_cons_of_pos (hg (by simp [hfront]))]
  rcases List.append_eq_append_iff.mp heq with ⟨front, hfront, heq⟩ | ⟨tail, hfront, heq⟩
  · refine ⟨first ++ front.filter keep, _, by rw [hmore front heq, List.append_assoc], ?_⟩
    intro f hf
    refine hbefore f (hfront ▸ ?_)
    rcases List.mem_append.mp hf with hf | hf
    · exact List.mem_append_left _ hf
    · exact List.mem_append_right _ (List.mem_filter.mp hf).1
  · cases tail with
    | nil =>
      rw [List.append_nil] at hfront
      exact ⟨first, _, by rw [hmore [] heq.symm, List.filter_nil, List.nil_append],
        hfront ▸ hbefore⟩
    | cons f tail =>
      rw [List.cons_append, List.cons.injEq] at heq
      obtain ⟨rfl, -⟩ := heq
      exact ⟨before, tail ++ more.filter keep, by rw [hfront]; simp, hbefore⟩

theorem Credited.mono {files files' : List Path} {credits credits' : List (Path × Path)}
    (h : s.Credited rules files credits) (hsub : credits'.Sublist credits)
    (hfirst : ∀ c ∈ credits', ∀ t, s.FirstTo rules files c.1 t → s.FirstTo rules files' c.1 t) :
    s.Credited rules files' credits' where
  leads c hc := h.leads c (hsub.subset hc)
  first c hc := hfirst c hc _ (h.first c (hsub.subset hc))
  order := (h.order.sublist hsub).imp_of_mem fun hc _ => hfirst _ hc _

theorem sublist_of_not_mem {l m : List Path} {p q : Path} (h : [p, q].Sublist (l ++ m))
    (hp : p ∉ l) : [p, q].Sublist m := by
  obtain ⟨l', m', heq, hl, hm⟩ := List.sublist_append_iff.mp h
  cases l' with
  | nil =>
    rw [List.nil_append] at heq
    exact heq ▸ hm
  | cons r l' =>
    rw [List.cons_append, List.cons.injEq] at heq
    exact absurd (hl.subset (by simp [heq.1])) hp

/-- **No file stands behind one that is farther away.** -/
theorem Credited.distance_le {credits : List (Path × Path)}
    (h : s.Credited rules (seeds ++ credits.map Prod.snd) credits)
    (hfiles : ∀ p, p ∈ seeds ++ credits.map Prod.snd ↔ s.Reached rules seeds p)
    (hnew : ∀ c ∈ credits, c.2 ∉ seeds) :
    (seeds ++ credits.map Prod.snd).Pairwise fun p q =>
      s.distance rules seeds p ≤ s.distance rules seeds q := by
  generalize hlist : seeds ++ credits.map Prod.snd = files at h hfiles
  -- the files up to any distance stand together at the start
  suffices hstart : ∀ n p q, [p, q].Sublist files → s.distance rules seeds q ≤ n →
      s.distance rules seeds p ≤ n from
    List.pairwise_iff_forall_sublist.mpr fun hpq => hstart _ _ _ hpq (Nat.le_refl _)
  intro n
  induction n with
  | zero =>
    intro p q hpq hq
    by_cases hp : p ∈ seeds
    · exact (distance_eq_zero hp).le
    · have hrest := sublist_of_not_mem (hlist ▸ hpq) hp
      obtain ⟨c, hc, rfl⟩ := List.mem_map.mp (hrest.subset (by simp : q ∈ [p, q]))
      have hreached := (hfiles c.2).mp (hpq.subset (by simp))
      obtain ⟨f, -, -, hdist⟩ := exists_leads_of_reached hreached (hnew c hc)
      omega
  | succ n ih =>
    intro p q hpq hq
    by_cases hp : p ∈ seeds
    · rw [distance_eq_zero hp]
      exact Nat.zero_le _
    · have hrest := sublist_of_not_mem (hlist ▸ hpq) hp
      obtain ⟨cs, hcs, heq⟩ := List.sublist_map_iff.mp hrest
      obtain ⟨c, c', rfl⟩ : ∃ c c', cs = [c, c'] := by
        match cs, heq with
        | [c, c'], _ => exact ⟨c, c', rfl⟩
      simp only [List.map_cons, List.map_nil, List.cons.injEq, and_true] at heq
      obtain ⟨rfl, rfl⟩ := heq
      have hc : c ∈ credits := hcs.subset (by simp)
      -- `f` is nearer than `q`; the file that `p` is credited to is `f` or stands before it
      obtain ⟨f, hf, hleads, hdist⟩ := exists_leads_of_reached
        ((hfiles c'.2).mp (hpq.subset (by simp))) (hnew c' (hcs.subset (by simp)))
      have hfirst : s.FirstTo rules files c.1 c'.2 :=
        List.pairwise_iff_forall_sublist.mp h.order hcs
      have hsource : s.distance rules seeds c.1 ≤ n := by
        rcases hfirst.eq_or_sublist ((hfiles f).mpr hf) hleads with rfl | hbefore
        · omega
        · exact ih _ _ hbefore (by omega)
      have := (h.leads c hc).distance_le ((hfiles c.1).mp hfirst.mem)
      omega

/-- A found file is one reference farther away than the file that it is credited to. -/
theorem Credited.distance_succ {credits : List (Path × Path)} {files : List Path}
    (h : s.Credited rules files credits) (hfiles : ∀ p, p ∈ files ↔ s.Reached rules seeds p)
    (hle : files.Pairwise fun p q => s.distance rules seeds p ≤ s.distance rules seeds q)
    {c : Path × Path} (hc : c ∈ credits) (hnew : c.2 ∉ seeds) :
    s.distance rules seeds c.1 + 1 = s.distance rules seeds c.2 := by
  have hfirst := h.first c hc
  have hreached := (hfiles c.1).mp hfirst.mem
  obtain ⟨f, hf, hleads, hdist⟩ := exists_leads_of_reached (.follow hreached (h.leads c hc)) hnew
  have hsource : s.distance rules seeds c.1 ≤ s.distance rules seeds f := by
    rcases hfirst.eq_or_sublist ((hfiles f).mpr hf) hleads with heq | hbefore
    · rw [heq]
    · exact List.pairwise_iff_forall_sublist.mp hle hbefore
  have := (h.leads c hc).distance_le hreached
  omega

end Setting

/-! ### Credits -/

/-- The file that a found file is credited to, and the found file. -/
def Event.credit? : Event → Option (Path × Path)
  | .resolved source _ target _ => some (source, target)
  | _ => none

theorem Event.reached?_eq (e : Event) : e.reached? = e.credit?.map Prod.snd := by
  cases e <;> rfl

theorem Answer.filterMap_credit?_events (source : Path) (visited : List Path)
    (answers : List (Reference × Answer)) :
    (events source visited answers).filterMap Event.credit? =
      (freshTargets visited answers).map fun t => (source, t) := by
  induction answers generalizing visited with
  | nil => rfl
  | cons ra answers ih =>
    obtain ⟨r, a⟩ := ra
    have hone : (a.event? source visited r).toList.filterMap Event.credit? =
        (a.fresh? visited).toList.map fun t => (source, t) := by
      cases a with
      | nowhere => rfl
      | leftOut target => rfl
      | noFile target =>
        by_cases h : target.isIn visited = true <;> simp [event?, fresh?, h, Event.credit?]
      | file target via =>
        by_cases h : target.isIn visited = true <;> simp [event?, fresh?, h, Event.credit?]
    rw [events, freshTargets, List.filterMap_append, hone, ih, List.map_append]

theorem Setting.filterMap_credit?_opening (s : Setting) (file : Path) :
    (s.opening file).toList.filterMap Event.credit? = [] := by
  rw [opening]
  cases s.registry.languageOf? file with
  | none => rfl
  | some l => cases s.disk.read file <;> rfl

/-! ### Runs -/

section

variable {s : Setting} {rules : RuleCache} {seeds done found : List Path} {st : State}

/-- Only files of a language lead anywhere. -/
theorem Setting.Leads.isRecognized {f t : Path} (h : s.Leads rules f t) :
    s.registry.isRecognized f = true := by
  obtain ⟨r, hr, -⟩ := h
  rw [← s.registry.isSome_languageOf?]
  cases hlanguage : s.registry.languageOf? f with
  | none => simp [Setting.referencesOf, hlanguage] at hr
  | some l => rfl

/-- **What one step keeps.**  The file that is looked at is the first one to lead to the files that
    it is credited with, since none that was looked at before leads to them. -/
theorem Setting.Credited.step (hexact : Exact s rules seeds [] done found st)
    (hapart : Apart st.visited)
    (h : s.Credited rules done (st.events.filterMap Event.credit?)) {file : Path}
    (hevents : (State.step s st).events = st.events ++ (s.opening file).toList ++
      Answer.events file st.visited (s.answersOf rules file)) :
    s.Credited rules (done ++ [file]) ((State.step s st).events.filterMap Event.credit?) := by
  have hnew := Answer.apart_freshTargets hapart (s.answersOf rules file)
  have hcredits : (State.step s st).events.filterMap Event.credit? =
      st.events.filterMap Event.credit? ++
        (Answer.freshTargets st.visited (s.answersOf rules file)).map fun t => (file, t) := by
    rw [hevents, List.filterMap_append, List.filterMap_append, s.filterMap_credit?_opening,
      Answer.filterMap_credit?_events, List.append_nil]
  have hleads : ∀ t ∈ Answer.freshTargets st.visited (s.answersOf rules file),
      s.Leads rules file t := by
    intro t ht
    obtain ⟨r, via, hanswer⟩ := Answer.mem_of_mem_freshTargets ht
    exact Setting.leads_iff.mpr ⟨r, via, hanswer⟩
  generalize Answer.freshTargets st.visited (s.answersOf rules file) = new at hnew hcredits hleads
  have hfresh : ∀ t ∈ new, ∀ f ∈ done, ¬ s.Leads rules f t := by
    intro t ht f hf hleads
    have hseen := hexact.closed f hf t hleads
    rw [hnew.isIn_front ht] at hseen
    exact absurd hseen Bool.false_ne_true
  have hfile : ∀ t ∈ new, s.FirstTo rules (done ++ [file]) file t :=
    fun t ht => ⟨done, [], rfl, hfresh t ht⟩
  rw [hcredits]
  refine ⟨?_, ?_, List.pairwise_append.mpr ⟨?_, ?_, ?_⟩⟩
  · intro c hc
    rcases List.mem_append.mp hc with hc | hc
    · exact h.leads c hc
    · obtain ⟨t, ht, rfl⟩ := List.mem_map.mp hc
      exact hleads t ht
  · intro c hc
    rcases List.mem_append.mp hc with hc | hc
    · exact (h.first c hc).append [file]
    · obtain ⟨t, ht, rfl⟩ := List.mem_map.mp hc
      exact hfile t ht
  · exact h.order.imp fun hc => hc.append [file]
  · refine List.pairwise_map.mpr (List.pairwise_of_forall_mem_list ?_)
    exact fun _ _ t ht => hfile t ht
  · intro c hc c' hc'
    obtain ⟨t, ht, rfl⟩ := List.mem_map.mp hc'
    exact ((h.first c hc).of_forall_not (hfresh t ht)).append [file]

/-- A run from tidy files credits the files that it found. -/
theorem discover_credited (rules : RuleCache) (hd : s.disk.HereNamed)
    (hseeds : ∀ p ∈ seeds, p.Tidy) : ∃ found st,
      Progress s (distinct seeds) [] (distinct seeds ++ found) found st ∧
      s.Credited rules (distinct seeds ++ found) (st.events.filterMap Event.credit?) ∧
      discover s seeds [] rules = st.report := by
  have hdistinct : ∀ p ∈ distinct seeds, p.Tidy := fun p hp => hseeds p (mem_of_mem_distinct hp)
  have hstart : s.Credited rules []
      ((State.start s (distinct seeds) [] rules).events.filterMap Event.credit?) := by
    have hnone : (State.start s (distinct seeds) [] rules).events.filterMap Event.credit? = [] := by
      rw [State.start_eq (apart_distinct seeds)]
      simp [List.filterMap_map, Function.comp_def, Event.credit?]
    rw [hnone]
    exact ⟨by simp, by simp, .nil⟩
  obtain ⟨found, st, ⟨hprogress, -, hcredited⟩, heq, -⟩ := discover_keeps
    (P := fun done found st => Progress s (distinct seeds) [] done found st ∧
      Exact s rules (distinct seeds) [] done found st ∧
      s.Credited rules done (st.events.filterMap Event.credit?))
    (fun _ _ _ h => h.1)
    ⟨Progress.start (apart_distinct seeds) rules, Exact.start (apart_distinct seeds) [], hstart⟩
    fun _ _ _ _ _ h hqueue => by
      obtain ⟨new, -, hevents, hprogress, hexact⟩ := Exact.step h.1 h.2.1 hd hdistinct hqueue
      exact ⟨new, hprogress, hexact, h.2.2.step h.2.1 h.1.apart hevents⟩
  exact ⟨found, st, hprogress, hcredited, heq⟩

/-- A found file is told of once, by the event that credits it. -/
theorem filter_reached?_eq {events : List Event}
    (hapart : Apart ((events.filterMap Event.credit?).map Prod.snd)) {g f : Path}
    (h : (g, f) ∈ events.filterMap Event.credit?) : ∃ r via,
      events.filter (fun e => e.reached?.any f.same) = [.resolved g r f via] := by
  obtain ⟨e, he, hcredit⟩ := List.mem_filterMap.mp h
  obtain ⟨r, via, rfl⟩ : ∃ r via, e = .resolved g r f via := by
    cases e <;> simp_all [Event.credit?]
  obtain ⟨before, after, rfl⟩ := List.append_of_mem he
  refine ⟨r, via, ?_⟩
  simp only [List.filterMap_append, List.filterMap_cons, Event.credit?, List.map_append,
    List.map_cons] at hapart
  obtain ⟨-, hafter, hbefore⟩ := List.pairwise_append.mp hapart
  have hnone : ∀ es : List Event,
      (∀ c ∈ es.filterMap Event.credit?, f.same c.2 = false) →
      es.filter (fun e => e.reached?.any f.same) = [] := by
    intro es hes
    refine List.filter_eq_nil_iff.mpr fun e he => ?_
    rw [Event.reached?_eq]
    cases hc : e.credit? with
    | none => simp
    | some c => simp [hes c (List.mem_filterMap.mpr ⟨e, he, hc⟩)]
  rw [List.filter_append, List.filter_cons, hnone before, hnone after]
  · simp [Event.reached?]
  · intro c hc
    exact (List.pairwise_cons.mp hafter).1 _ (List.mem_map_of_mem hc)
  · intro c hc
    have := hbefore _ (List.mem_map_of_mem hc) f (by simp)
    rw [← Bool.not_eq_true] at this ⊢
    exact fun hsame => this (same_symm hsame)

/-- The files of a report are those the run started from and those that were credited to others,
    each by one event. -/
theorem exists_credits (rules : RuleCache) (hd : s.disk.HereNamed) (hseeds : ∀ p ∈ seeds, p.Tidy) :
    ∃ credits, (discover s seeds [] rules).files = distinct seeds ++ credits.map Prod.snd ∧
      (∀ c ∈ credits, c.2 ∉ distinct seeds) ∧
      s.Credited rules (discover s seeds [] rules).files credits ∧
      ∀ c ∈ credits, ∃ r via, (discover s seeds [] rules).events.filter
        (fun e => e.reached?.any c.2.same) = [.resolved c.1 r c.2 via] := by
  obtain ⟨found, st, hprogress, hcredited, hreport⟩ := discover_credited rules hd hseeds
  have hfound : (st.events.filterMap Event.credit?).map Prod.snd = found := by
    have hreached := hprogress.reached
    rw [List.filterMap_nil, List.nil_append] at hreached
    rw [← hreached, List.map_filterMap]
    exact congrArg (List.filterMap · st.events) (funext fun e => (e.reached?_eq).symm)
  have hapart : Apart found := by
    have hvisited := hprogress.apart
    rw [hprogress.visited] at hvisited
    exact (List.pairwise_append.mp hvisited).2.1
  rw [hreport]
  refine ⟨(st.events.filterMap Event.credit?).filter fun c => !c.2.isIn (distinct seeds),
    ?_, ?_, hcredited.mono List.filter_sublist ?_, ?_⟩
  · rw [State.report, hprogress.files, ← hfound, List.filter_map]
    rfl
  · intro c hc hmem
    have hnew := (List.mem_filter.mp hc).2
    rw [isIn_of_mem hmem] at hnew
    simp at hnew
  · intro c hc t hfirst
    have hleads := hcredited.leads c (List.mem_filter.mp hc).1
    rw [State.report, hprogress.files]
    refine hfirst.filter fun hmem => ?_
    rw [hprogress.not_isIn_seeds hmem hleads.isRecognized]
    rfl
  · intro c hc
    exact filter_reached?_eq (hfound ▸ hapart) (List.mem_filter.mp hc).1

end

/-- **The order of discovery is breadth first.**  From tidy files, under whatever the matcher knows
    already, the files of a report stand in the order of their distances, those that the run started
    from first.  Every other file is told of once as reached, by the first file of the report that
    leads to it; this stands before it, belongs to a language, and is one reference nearer. -/
theorem files_breadthFirst {s : Setting} (hd : s.disk.HereNamed) {seeds : List Path}
    (hseeds : ∀ p ∈ seeds, p.Tidy) (rules : RuleCache) :
    let report := discover s seeds [] rules
    let dist := s.distance rules seeds
    (∃ rest, report.files = distinct seeds ++ rest ∧ ∀ f ∈ rest, f ∉ seeds) ∧
      (∀ f ∈ report.files, s.ReachedIn rules seeds (dist f) f) ∧
      (∀ p ∈ seeds, dist p = 0) ∧
      report.files.Pairwise (fun p q => dist p ≤ dist q) ∧
      ∀ f ∈ report.files, f ∉ seeds → ∃ g r via before after,
        report.events.filter (fun e => e.reached?.any f.same) = [.resolved g r f via] ∧
          report.files = before ++ g :: after ∧ f ∈ after ∧
          (s.registry.languageOf? g).isSome = true ∧ dist g + 1 = dist f ∧
          s.Leads rules g f ∧ ∀ h ∈ before, ¬ s.Leads rules h f := by
  intro report dist
  have hmem : ∀ p, p ∈ seeds ↔ p ∈ distinct seeds := fun p => (mem_distinct hseeds).symm
  have hdist : dist = s.distance rules (distinct seeds) := Setting.distance_congr hmem
  have hreached : ∀ p, p ∈ report.files ↔ s.Reached rules (distinct seeds) p := by
    intro p
    rw [mem_files_iff hd hseeds []]
    exact ⟨.mono fun q => (hmem q).mp, .mono fun q => (hmem q).mpr⟩
  obtain ⟨credits, hfiles, hnew, hcredited, hevents⟩ := exists_credits rules hd hseeds
  have hle : report.files.Pairwise fun p q => dist p ≤ dist q := by
    rw [hdist, hfiles]
    exact (hfiles ▸ hcredited).distance_le (fun p => hfiles ▸ hreached p) hnew
  refine ⟨⟨_, hfiles, ?_⟩, ?_, fun p hp => Setting.distance_eq_zero hp, hle, ?_⟩
  · intro f hf
    obtain ⟨c, hc, rfl⟩ := List.mem_map.mp hf
    exact fun hseed => hnew c hc ((hmem _).mp hseed)
  · exact fun f hf => Setting.reachedIn_distance ((mem_files_iff hd hseeds []).mp hf)
  · intro f hf hseed
    rw [hmem] at hseed
    obtain ⟨c, hc, rfl⟩ := List.mem_map.mp ((List.mem_append.mp (hfiles ▸ hf)).resolve_left hseed)
    obtain ⟨r, via, hevent⟩ := hevents c hc
    obtain ⟨before, after, heq, hbefore⟩ := hcredited.first c hc
    have hsucc : dist c.1 + 1 = dist c.2 := by
      rw [hdist] at hle ⊢
      exact hcredited.distance_succ hreached hle hc hseed
    have hleads := hcredited.leads c hc
    refine ⟨c.1, r, via, before, after, hevent, heq, ?_, ?_, hsucc, hleads, hbefore⟩
    · -- what stands before the file is no farther away than it
      have hf : c.2 ∈ before ++ c.1 :: after := heq ▸ hf
      have hpairwise : (before ++ c.1 :: after).Pairwise fun p q => dist p ≤ dist q := heq ▸ hle
      rcases List.mem_append.mp hf with hf | hf
      · have := (List.pairwise_append.mp hpairwise).2.2 _ hf c.1 (by simp)
        omega
      · refine (List.mem_cons.mp hf).resolve_left fun hself => ?_
        rw [hself] at hsucc
        omega
    · rw [s.registry.isSome_languageOf?]
      exact hleads.isRecognized

theorem chain_breadthFirst : chainSetting.disk.HereNamed ∧
    (∀ p ∈ [(⟨"/b.txt"⟩ : Path)], p.Tidy) ∧
    chainSetting.distance [] [⟨"/b.txt"⟩] ⟨"/b.txt"⟩ = 0 ∧
    (discover chainSetting [⟨"/b.txt"⟩] [] []).files.Pairwise fun p q =>
      chainSetting.distance [] [⟨"/b.txt"⟩] p ≤ chainSetting.distance [] [⟨"/b.txt"⟩] q := by
  have hd : chainSetting.disk.HereNamed := by simp [Disk.HereNamed, chainSetting]
  have hseeds : ∀ p ∈ [(⟨"/b.txt"⟩ : Path)], p.Tidy := by
    intro p hp
    rw [List.mem_singleton.mp hp]
    rfl
  obtain ⟨-, -, hzero, hle, -⟩ := files_breadthFirst hd hseeds []
  exact ⟨hd, hseeds, hzero _ (by simp), hle⟩

/-- A project of five files: the second refers to the first and the fourth, the fourth to the fifth,
    and the first and the fifth refer to the third. -/
def detourSetting : Setting where
  disk := ⟨.file "a.txt" "c.txt".toUTF8 (.file "b.txt" "a.txt\nd.txt".toUTF8
    (.file "c.txt" "".toUTF8 (.file "d.txt" "e.txt".toUTF8
      (.file "e.txt" "c.txt".toUTF8 .empty)))), [], []⟩
  registry := ⟨[lineLanguage]⟩
  matcher := ⟨⟨"/"⟩, none, true, true⟩
  canonicalize := true

/-- A file that is also given with a slash behind it hides the short way through it: what it leads
    to is credited to a file that is not one reference nearer. -/
theorem detour_behind_slash :
    let seeds : List Path := [⟨"/a.txt/"⟩, ⟨"/b.txt"⟩]
    (discover detourSetting seeds [] []).events.filter
        (fun e => e.reached?.any (Path.same ⟨"/c.txt"⟩)) =
      [.resolved ⟨"/e.txt"⟩ "c.txt" ⟨"/c.txt"⟩ "lines"] ∧
    detourSetting.distance [] seeds ⟨"/e.txt"⟩ + 1 ≠
      detourSetting.distance [] seeds ⟨"/c.txt"⟩ := by
  intro seeds
  have ha : detourSetting.answersOf [] ⟨"/a.txt"⟩ =
      [(.plain "c.txt", .file ⟨"/c.txt"⟩ "lines")] := by
    decide +kernel
  have hb : detourSetting.answersOf [] ⟨"/b.txt"⟩ =
      [(.plain "a.txt", .file ⟨"/a.txt"⟩ "lines"), (.plain "d.txt", .file ⟨"/d.txt"⟩ "lines")] := by
    decide +kernel
  have hd : detourSetting.answersOf [] ⟨"/d.txt"⟩ =
      [(.plain "e.txt", .file ⟨"/e.txt"⟩ "lines")] := by
    decide +kernel
  have hslash : detourSetting.answersOf [] ⟨"/a.txt/"⟩ = [] := by
    decide +kernel
  have hseed : detourSetting.ReachedIn [] seeds 0 ⟨"/b.txt"⟩ := .seed (by simp [seeds])
  have hreacha : detourSetting.ReachedIn [] seeds 1 ⟨"/a.txt"⟩ :=
    .follow hseed (Setting.leads_iff.mpr ⟨.plain "a.txt", "lines", by simp [hb]⟩)
  have hreachd : detourSetting.ReachedIn [] seeds 1 ⟨"/d.txt"⟩ :=
    .follow hseed (Setting.leads_iff.mpr ⟨.plain "d.txt", "lines", by simp [hb]⟩)
  have hreachc : detourSetting.ReachedIn [] seeds 2 ⟨"/c.txt"⟩ :=
    .follow hreacha (Setting.leads_iff.mpr ⟨.plain "c.txt", "lines", by simp [ha]⟩)
  have hreache : detourSetting.ReachedIn [] seeds 2 ⟨"/e.txt"⟩ :=
    .follow hreachd (Setting.leads_iff.mpr ⟨.plain "e.txt", "lines", by simp [hd]⟩)
  refine ⟨by decide +kernel, fun hsucc => ?_⟩
  -- so near, the fifth file would have to be led to by one that the run started from
  have hle := hreachc.distance_le
  obtain ⟨f, hf, hleads, hdist⟩ := Setting.exists_leads_of_reached
    (Setting.reached_iff_exists.mpr ⟨2, hreache⟩) (by simp [seeds])
  have hfseed := Setting.mem_of_distance_eq_zero hf (by omega)
  obtain ⟨r, via, hanswer⟩ := Setting.leads_iff.mp hleads
  rcases List.mem_pair.mp hfseed with rfl | rfl
  · simp [hslash] at hanswer
  · simp [hb] at hanswer

end SourceWeb.Discovery
