/-
  The order in which mappings apply.

  The mappings of a configuration file pass through a JSON object on their way.  They apply in the
  order of their patterns, and only by chance in the one in which they are written: the targets of a
  lesser pattern come before those of a greater one, and of several that are there a module is found
  at the first in this order.
-/
import Mathlib.Data.List.Perm.Basic
import SourceWeb.Alias.Reader
import SourceWeb.Language.JavaScript
import SourceWeb.Proofs.Alias.Lenient
import SourceWeb.Proofs.First
import SourceWeb.Proofs.Json.Arranged

namespace SourceWeb

open SourceWeb.Json SourceWeb.Text

namespace Alias

/-! ### Mappings -/

theorem str?_settled (v : Json) : v.settled.str? = v.str? := by
  cases v <;> rfl

theorem targetsOf_settled (v : Json) : targetsOf v.settled = targetsOf v := by
  cases v with
  | arr items =>
    simp only [settled, targetsOf, settledItems_eq, List.filterMap_map]
    congr 1
    funext v
    exact str?_settled v
  | null | bool _ | num _ | str _ | obj _ => rfl

/-- The mappings that members of an object stand for. -/
def mapped (ms : List (String × Json)) : List (String × List String) :=
  (ms.map fun m => (m.1, targetsOf m.2)).filter fun m => !m.2.isEmpty

theorem mappingsOf_obj (ms : List (String × Json)) : mappingsOf (.obj ms) = mapped ms :=
  rfl

theorem mapped_settledMembers (ms : List (String × Json)) :
    mapped (settledMembers ms) = mapped ms := by
  simp only [mapped, settledMembers_eq, List.map_map, Function.comp_def, targetsOf_settled]

/-- As they are read, the mappings stand in the order of their patterns. -/
theorem ascending_mapped {ms : List (String × Json)} (h : Ascending ms) : Ascending (mapped ms) := by
  apply List.Pairwise.filter
  rw [List.pairwise_map]
  exact h

theorem mappingsOf_settled {ws : List (String × Json)} (hkeys : (ws.map Prod.fst).Nodup) :
    (mappingsOf (settled (.obj ws))).Perm (mapped ws) ∧
      Ascending (mappingsOf (settled (.obj ws))) := by
  have hkeys' : ((settledMembers ws).map Prod.fst).Nodup := by
    simpa [settledMembers_eq, Function.comp_def] using hkeys
  rw [settled, mappingsOf_obj]
  constructor
  · have hperm : (arrange [] (settledMembers ws)).Perm (settledMembers ws) :=
      arrange_perm (by simp) hkeys'
    rw [← mapped_settledMembers ws]
    exact (hperm.map _).filter _
  · exact ascending_mapped (Ascending.arrange List.Pairwise.nil)

/-! ### What a file writes -/

/-- The text that mappings are saved from, where the file as a whole cannot be read. -/
def savedSection? (cs : List Char) : Option (List Char) := do
  let key ← mappingsKey.find? cs
  let start := key.skipped.length + key.text.length - 1
  let close ← closingBrace? cs start
  return dropLastCommas ((cs.drop start).take (close + 1 - start))

theorem salvage_eq (cs : List Char) : salvage cs = (savedSection? cs).bind fun saved =>
    (ofChars? saved).map fun v =>
      ⟨(baseUrlEntry.find? cs).map fun m => String.ofList (m.group 1), some v⟩ := by
  unfold salvage savedSection?
  cases mappingsKey.find? cs with
  | none => rfl
  | some key =>
    simp only [Option.bind_eq_bind, Option.bind_some]
    cases closingBrace? cs _ with
    | none => rfl
    | some close =>
      simp only [Option.bind_some, Option.pure_def]
      cases ofChars? _ <;> rfl

/-- Does the file write its mappings as these members?  They stand in the compiler options of a text
    that is readable, if need be without the commas behind last items, and else in what can be
    saved. -/
inductive WritesMappings (content : String) (ws : List (String × Json)) : Prop
  | strict {w : Json} {ts : List Token} :
      (ofChars? (stripFrom .code content.toList)).isSome = true →
      Denotes w ts → Made Blank ts (stripFrom .code content.toList) →
      (w.last? "compilerOptions").bind (·.last? "paths") = some (.obj ws) →
      WritesMappings content ws
  | withCommas {w : Json} {ts : List Token} :
      ofChars? (stripFrom .code content.toList) = none →
      (ofChars? (dropLastCommas (stripFrom .code content.toList))).isSome = true →
      Denotes w ts → Made Blank ts (dropLastCommas (stripFrom .code content.toList)) →
      (w.last? "compilerOptions").bind (·.last? "paths") = some (.obj ws) →
      WritesMappings content ws
  | saved {saved : List Char} {ts : List Token} :
      ofChars? (stripFrom .code content.toList) = none →
      ofChars? (dropLastCommas (stripFrom .code content.toList)) = none →
      savedSection? (stripFrom .code content.toList) = some saved →
      (ofChars? saved).isSome = true → Denotes (.obj ws) ts → Made Blank ts saved →
      WritesMappings content ws

theorem declaredIn_settled {w : Json} {ws : List (String × Json)}
    (h : (w.last? "compilerOptions").bind (·.last? "paths") = some (.obj ws)) :
    ∃ base, declaredIn w.settled = some ⟨base, some (settled (.obj ws))⟩ := by
  obtain ⟨options, hoptions, hpaths⟩ := Option.bind_eq_some_iff.mp h
  refine ⟨(options.settled.get? "baseUrl").bind Json.str?, ?_⟩
  rw [declaredIn, get?_settled, hoptions, Option.map_some, Option.map_some,
    get?_settled options "paths", hpaths, Option.map_some]

/-- However a file is read, it declares the members that it writes, in order. -/
theorem WritesMappings.declared {content : String} {ws : List (String × Json)}
    (h : WritesMappings content ws) :
    ∃ base, Alias.declared content = some ⟨base, some (settled (.obj ws))⟩ := by
  unfold Alias.declared
  rcases h with ⟨hread, hw, hmade, hws⟩ | ⟨hstrict, hread, hw, hmade, hws⟩ |
    ⟨hstrict, hcommas, hsaved, hread, hw, hmade⟩
  · obtain ⟨v, hv⟩ := Option.isSome_iff_exists.mp hread
    rw [ofChars?_eq_settled hw hmade hv] at hv
    simp only [hv, Option.orElse_some]
    exact declaredIn_settled hws
  · obtain ⟨v, hv⟩ := Option.isSome_iff_exists.mp hread
    rw [ofChars?_eq_settled hw hmade hv] at hv
    simp only [hstrict, hv, Option.orElse_none]
    exact declaredIn_settled hws
  · obtain ⟨v, hv⟩ := Option.isSome_iff_exists.mp hread
    rw [ofChars?_eq_settled hw hmade hv] at hv
    simp only [hstrict, hcommas, Option.orElse_none, salvage_eq, hsaved, hv, Option.bind_some,
      Option.map_some]
    exact ⟨_, rfl⟩

/-! ### What applies first -/

/-- The targets of a reference under one mapping. -/
def filled (reference : String) (m : String × List String) : List String :=
  match AliasMap.cover? m.1 reference with
  | some c => m.2.map c.fill
  | none => []

theorem expand_eq (a : AliasMap) (reference : String) :
    a.expand reference = a.mappings.flatMap (filled reference) :=
  rfl

/-- Is this what is found at the first target that is there, if targets are tried in the order of
    their patterns? -/
def FoundFirst (mappings : List (String × List String)) (reference : String)
    (probe : String → Option Path) (found : Path) : Prop :=
  ∃ m ∈ mappings, ∃ earlier target later, filled reference m = earlier ++ target :: later ∧
    probe target = some found ∧ (∀ t ∈ earlier, probe t = none) ∧
    ∀ n ∈ mappings, precedes n.1 m.1 = true → ∀ t ∈ filled reference n, probe t = none

/-- In ascending order a lesser mapping stands in front of a greater one. -/
theorem mem_left_of_precedes {ms ns : List (String × List String)} {m n : String × List String}
    (h : Ascending (ms ++ m :: ns)) (hn : n ∈ ms ++ m :: ns) (hnm : precedes n.1 m.1 = true) :
    n ∈ ms := by
  obtain ⟨-, hrest, -⟩ := List.pairwise_append.mp h
  obtain ⟨hm, -⟩ := List.pairwise_cons.mp hrest
  rcases List.mem_append.mp hn with hn | hn
  · exact hn
  · exfalso
    rcases List.mem_cons.mp hn with rfl | hn
    · have hself := precedes_asymm hnm
      rw [hnm] at hself
      exact absurd hself (by simp)
    · have hback := precedes_asymm (hm n hn)
      rw [hnm] at hback
      exact absurd hback (by simp)

theorem findSome?_filled {mappings : List (String × List String)} (h : Ascending mappings)
    (reference : String) (probe : String → Option Path) (found : Path) :
    (mappings.flatMap (filled reference)).findSome? probe = some found ↔
      FoundFirst mappings reference probe found := by
  rw [findSome?_flatMap, List.findSome?_eq_some_iff]
  constructor
  · rintro ⟨ms, m, ns, rfl, hm, hbefore⟩
    obtain ⟨earlier, target, later, hfilled, htarget, hearlier⟩ :=
      List.findSome?_eq_some_iff.mp hm
    refine ⟨m, by simp, earlier, target, later, hfilled, htarget, hearlier, ?_⟩
    intro n hn hnm
    exact List.findSome?_eq_none_iff.mp (hbefore n (mem_left_of_precedes h hn hnm))
  · rintro ⟨m, hm, earlier, target, later, hfilled, htarget, hearlier, hlesser⟩
    obtain ⟨ms, ns, rfl⟩ := List.append_of_mem hm
    refine ⟨ms, m, ns, rfl, ?_, ?_⟩
    · exact List.findSome?_eq_some_iff.mpr ⟨earlier, target, later, hfilled, htarget, hearlier⟩
    · intro n hn
      obtain ⟨-, -, hleft⟩ := List.pairwise_append.mp h
      exact List.findSome?_eq_none_iff.mpr
        (hlesser n (List.mem_append_left _ hn) (hleft n hn m (by simp)))

/-- What is found first depends on the mappings, not on the order in which they are given. -/
theorem foundFirst_perm {mappings mappings' : List (String × List String)}
    (h : mappings.Perm mappings') (reference : String) (probe : String → Option Path)
    (found : Path) :
    FoundFirst mappings reference probe found ↔ FoundFirst mappings' reference probe found := by
  simp only [FoundFirst, h.mem_iff]

/-- The languages that look modules up under aliases, with the endings they try. -/
def moduleLanguages : List (Language × List String) :=
  [(Language.javaScript, [".js", ".jsx", ".mjs", ".cjs", ".ts", ".tsx", ".json"]),
    (Language.typeScript,
      [".ts", ".tsx", ".d.ts", ".mts", ".cts", ".js", ".jsx", ".mjs", ".cjs", ".json"])]

theorem resolver_moduleLanguages {l : Language × List String} (h : l ∈ moduleLanguages) :
    l.1.resolver = some (Language.resolverFor l.1.endings
      (Language.JavaScript.resolveModule l.2)) := by
  simp only [moduleLanguages, List.mem_cons, List.not_mem_nil, or_false] at h
  rcases h with rfl | rfl <;> rfl

/-- Do the aliases apply these mappings in the order of their patterns? -/
structure AppliesInOrder (a : AliasMap) (mappings : List (String × List String)) : Prop where
  perm : a.mappings.Perm mappings
  ascending : Ascending a.mappings
  /-- The order is the given one only if that is the order of the patterns already. -/
  eq_iff : a.mappings = mappings ↔ Ascending mappings
  /-- The targets of the lesser pattern come first. -/
  expands : ∀ reference, ∀ m ∈ mappings, ∀ n ∈ mappings, precedes m.1 n.1 = true →
    ∃ before between after, a.expand reference =
      before ++ filled reference m ++ between ++ filled reference n ++ after
  /-- A module is found at the first target that is there, else under the base directory. -/
  resolves : ∀ l ∈ moduleLanguages, ∀ resolve, l.1.resolver = some resolve → ∀ disk site target,
    site.aliases = some a → site.hasAnyEnding l.1.endings = true →
    Path.isRelativeReference target = false → startsWith "/" target = false →
    ∀ found, resolve disk site (.plain target) = some found ↔
      FoundFirst mappings target
        (fun t => Language.JavaScript.probeModule disk l.2
          ((site.aliasBase.getD a.targetBase).child t)) found ∨
      ((∀ t ∈ a.expand target, Language.JavaScript.probeModule disk l.2
          ((site.aliasBase.getD a.targetBase).child t) = none) ∧
        ∃ base, a.baseUrl = some base ∧
          Language.JavaScript.probeModule disk l.2 (base.child target) = some found)

theorem appliesInOrder {a : AliasMap} {mappings : List (String × List String)}
    (hperm : a.mappings.Perm mappings) (hascending : Ascending a.mappings) :
    AppliesInOrder a mappings where
  perm := hperm
  ascending := hascending
  eq_iff := by
    constructor
    · intro heq
      rw [← heq]
      exact hascending
    · intro hmappings
      exact hascending.eq_of_perm hmappings hperm
  expands := by
    intro reference m hm n hn hmn
    rw [expand_eq]
    obtain ⟨ms, ns, hsplit⟩ := List.append_of_mem (hperm.mem_iff.mpr hn)
    have hm' : m ∈ ms := by
      refine mem_left_of_precedes (hsplit ▸ hascending) ?_ hmn
      rw [← hsplit]
      exact hperm.mem_iff.mpr hm
    obtain ⟨ms, ms', rfl⟩ := List.append_of_mem hm'
    refine ⟨ms.flatMap (filled reference), ms'.flatMap (filled reference),
      ns.flatMap (filled reference), ?_⟩
    rw [hsplit]
    simp
  resolves := by
    intro l hl resolve hresolve disk site target hsite hending hrelative hslash found
    rw [resolver_moduleLanguages hl] at hresolve
    cases hresolve
    have hbare : Language.resolverFor l.1.endings (Language.JavaScript.resolveModule l.2) disk site
        (.plain target) = Language.JavaScript.resolveBare disk l.2 site target := by
      simp [Language.resolverFor, Language.JavaScript.resolveModule, hending, hrelative, hslash]
    rw [hbare, ← foundFirst_perm hperm, ← findSome?_filled hascending, ← expand_eq]
    simp only [Language.JavaScript.resolveBare, hsite]
    rw [List.findSome?_append, List.findSome?_map]
    rw [Option.or_eq_some_iff]
    refine or_congr Iff.rfl (and_congr List.findSome?_eq_none_iff ?_)
    cases a.baseUrl with
    | none => simp
    | some base =>
      simp only [List.findSome?_cons, List.findSome?_nil, Option.some.injEq, exists_eq_left']
      cases Language.JavaScript.probeModule disk l.2 (base.child target) <;> rfl

/-- **Mappings apply in the order of their patterns.**  Let a configuration file write its mappings
    with different patterns.  If one of them has a target, there are aliases; and whatever the order
    in which they are written, the aliases list the targets of lesser patterns first and let modules
    be found in this order.  It is the written one only if the patterns are written in order. -/
theorem ofText?_appliesInOrder {content : String} {ws : List (String × Json)}
    (h : WritesMappings content ws) (hkeys : (ws.map Prod.fst).Nodup) (config : Path) :
    (mappingsOf (.obj ws) ≠ [] → (ofText? content config).isSome = true) ∧
      ∀ a, ofText? content config = some a → AppliesInOrder a (mappingsOf (.obj ws)) := by
  obtain ⟨base, hdeclared⟩ := h.declared
  obtain ⟨hperm, hascending⟩ := mappingsOf_settled hkeys
  rw [mappingsOf_obj]
  simp only [ofText?, hdeclared, Option.bind_eq_bind, Option.bind_some, Option.map_some,
    Option.getD_some]
  constructor
  · intro hne
    have hne' : (mappingsOf (settled (.obj ws))).isEmpty = false := by
      rw [List.isEmpty_eq_false_iff]
      intro hnil
      rw [hnil, List.nil_perm] at hperm
      exact hne hperm
    simp [hne']
  · intro a ha
    split at ha
    · simp at ha
    · obtain rfl := Option.some.inj ha
      exact appliesInOrder hperm hascending

/-- A special mapping, and a general one behind it. -/
def overlapping : List (String × Json) :=
  [("@app/*", .arr [.str "first/*"]), ("@*", .arr [.str "second/*"])]

def overlappingText : String :=
  (Json.obj [("compilerOptions", .obj [("paths", .obj overlapping)])]).compact

/-- The general mapping is the lesser one, and its target comes first. -/
theorem overlapping_appliesInOrder :
    WritesMappings overlappingText overlapping ∧ (overlapping.map Prod.fst).Nodup ∧
      (∀ a, ofText? overlappingText ⟨"/r/tsconfig.json"⟩ = some a →
        AppliesInOrder a (mappingsOf (.obj overlapping))) ∧
      (ofText? overlappingText ⟨"/r/tsconfig.json"⟩).map (·.expand "@app/x") =
        some ["second/app/x", "first/x"] := by
  have hspelled : Spelled (.obj [("compilerOptions", .obj [("paths", .obj overlapping)])]) := by
    simp [overlapping]
  obtain ⟨ts, hdenotes, hspells⟩ := hspelled.says_compact
  have hmade : Made Blank ts overlappingText.toList := by
    rw [overlappingText, compact, String.toList_ofList]
    exact ⟨[], blank_nil, hspells⟩
  have hread : (ofChars? (stripFrom .code overlappingText.toList)).isSome = true := by
    decide +kernel
  have hwrites : WritesMappings overlappingText overlapping := by
    refine .strict hread hdenotes ?_ rfl
    rw [stripFrom_eq_self hmade]
    exact hmade
  have hkeys : (overlapping.map Prod.fst).Nodup := by decide
  exact ⟨hwrites, hkeys, (ofText?_appliesInOrder hwrites hkeys ⟨"/r/tsconfig.json"⟩).2,
    by decide +kernel⟩

end Alias

end SourceWeb
