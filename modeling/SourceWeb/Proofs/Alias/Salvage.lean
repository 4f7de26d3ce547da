/-
  What can be saved from a configuration file with something behind it that spoils it.

  The mappings are looked for by their key, and are read from the brace behind it to the one that
  closes it; so they are the ones that the file has, as long as no string in them holds a comma in
  front of a bracket.  The base directory is taken as it is spelled up to the first quote; so it is
  the one that the file names exactly if nothing is escaped in it.
-/
import SourceWeb.Proofs.Alias.Brace
import SourceWeb.Proofs.Alias.Order
import SourceWeb.Proofs.Alias.Reader
import SourceWeb.Proofs.Pattern.Literal

namespace SourceWeb.Alias

open SourceWeb.Json SourceWeb.Text SourceWeb.Pattern

/-! ### Keys -/

def quoted (name : String) : List Char :=
  (Token.quoted name.toList).text

/-- A key with its colon, and what the pattern matches behind it. -/
def keyed (name : String) (q : Pattern) : Pattern :=
  seq (letters (quoted name)) (seq blanks (seq (letters [':']) (seq blanks q)))

def upToQuote : Pattern :=
  seq (group 1 (many (noneOf "\""))) (seq (letters ['"']) empty)

theorem mappingsKey_eq : mappingsKey = keyed "paths" (seq (letters ['\x7b']) empty) :=
  rfl

theorem baseUrlEntry_eq : baseUrlEntry = keyed "baseUrl" (seq (letters ['"']) upToQuote) :=
  rfl

/-- Does the part stand in the text once at most? -/
def Once (part text : List Char) : Prop :=
  ∀ before after before' after', text = before ++ (part ++ after) →
    text = before' ++ (part ++ after') → before = before'

theorem once_iff {part text : List Char} : Once part text ↔
    ∀ i < text.length + 1, part <+: text.drop i →
      ∀ j < text.length + 1, part <+: text.drop j → i = j := by
  constructor
  · rintro h i hi ⟨after, hafter⟩ j hj ⟨after', hafter'⟩
    have hsame := h (text.take i) after (text.take j) after' (by simp [hafter]) (by simp [hafter'])
    have hlength := congrArg List.length hsame
    simp only [List.length_take] at hlength
    omega
  · intro h before after before' after' heq heq'
    have hplace {b c : List Char} (hcut : text = b ++ (part ++ c)) :
        b.length < text.length + 1 ∧ part <+: text.drop b.length := by
      rw [hcut]
      refine ⟨?_, by simp⟩
      simp only [List.length_append]
      omega
    obtain ⟨hlt, hbegin⟩ := hplace heq
    obtain ⟨hlt', hbegin'⟩ := hplace heq'
    have hlength := h _ hlt hbegin _ hlt' hbegin'
    exact List.append_inj_left (heq.symm.trans heq') hlength

instance (part text : List Char) : Decidable (Once part text) :=
  decidable_of_iff _ once_iff.symm

/-- In front of the only place the part does not stand, whatever follows the text. -/
theorem Once.not_prefix {part before after : List Char}
    (h : Once part (before ++ (part ++ after))) {a b : List Char} (hcut : before = a ++ b)
    (hne : b ≠ []) (rest : List Char) : ¬ part <+: b ++ (part ++ (after ++ rest)) := by
  intro hbegin
  have hlonger : part <+: b ++ part := by
    refine List.prefix_of_prefix_length_le hbegin ?_ (by simp)
    rw [← List.append_assoc]
    exact List.prefix_append _ _
  obtain ⟨end_, hend⟩ := hlonger
  have hearlier : before ++ (part ++ after) = a ++ (part ++ (end_ ++ after)) := by
    rw [hcut, List.append_assoc, ← List.append_assoc b, ← hend]
    simp
  have hsame := h before after a (end_ ++ after) rfl hearlier
  rw [hcut, List.append_right_eq_self] at hsame
  exact hne hsame

theorem blank_has {g : List Char} (hg : Blank g) : ∀ c ∈ g, CharSet.blank.has c = true :=
  fun c hc => isBlank_of_isSpace (hg c hc)

/-- Behind a key, a colon and white space the pattern goes on. -/
theorem ways_keyed {n : Nat} {q : Pattern} (hq : Shuns n .blank q) (name : String)
    (before : List Char) {g g' rest : List Char} (hg : Blank g) (hg' : Blank g')
    (hrest : ∀ c ∈ rest.head?, isBlank c = false) :
    ways n (keyed name q) (.behind before (quoted name ++ (g ++ ':' :: (g' ++ rest)))) =
      ways n q (.behind (before ++ (quoted name ++ (g ++ ':' :: g'))) rest) := by
  have hcolon : Shuns n .blank (seq (letters [':']) (seq blanks q)) := shuns_letters (by decide) _ _
  have hhead : ∀ c ∈ (':' :: (g' ++ rest)).head?, CharSet.blank.has c = false := by
    rintro c ⟨⟩
    decide
  calc ways n (keyed name q) (.behind before (quoted name ++ (g ++ ':' :: (g' ++ rest))))
      = ways n (seq blanks (seq (letters [':']) (seq blanks q)))
          (.behind (before ++ quoted name) (g ++ ':' :: (g' ++ rest))) := ways_letters ..
    _ = ways n (seq (letters [':']) (seq blanks q))
          (.behind (before ++ quoted name ++ g) (':' :: (g' ++ rest))) :=
        ways_many_seq hcolon (blank_has hg) hhead _
    _ = ways n (seq blanks q) (.behind (before ++ quoted name ++ g ++ [':']) (g' ++ rest)) :=
        ways_letters ..
    _ = ways n q (.behind (before ++ quoted name ++ g ++ [':'] ++ g') rest) :=
        ways_many_seq hq (blank_has hg') hrest _
    _ = ways n q (.behind (before ++ (quoted name ++ (g ++ ':' :: g'))) rest) := by simp

/-- The only place of a key in a text: what stands in front of the key, what stands in front of its
    value, and the text from the value on. -/
structure KeyAt (name : String) (cs before lead behind : List Char) : Prop where
  once : Once (quoted name) cs
  text : cs = lead ++ behind
  lead : ∃ g g', Blank g ∧ Blank g' ∧ lead = before ++ (quoted name ++ (g ++ ':' :: g'))

variable {name : String} {q : Pattern} {cs before lead behind : List Char}

/-- A key that stands in a text once is found at its place, if the pattern matches behind it. -/
theorem KeyAt.find? (h : KeyAt name cs before lead behind) (hq : ∀ n, Shuns n .blank q)
    (rest : List Char) (hbehind : ∀ c ∈ (behind ++ rest).head?, isBlank c = false) {e : End}
    (hways : ∀ n, (ways n q (.behind lead (behind ++ rest))).head? = some e) :
    (keyed name q).find? (cs ++ rest) =
      some (.between (.behind [] (cs ++ rest))
        (.behind before ((cs ++ rest).drop before.length)) e) := by
  obtain ⟨honce, hcs, g, g', hg, hg', hlead⟩ := h
  have hsplit : cs = before ++ (quoted name ++ (g ++ ':' :: (g' ++ behind))) := by
    simp [hcs, hlead]
  have hdrop : (cs ++ rest).drop before.length =
      quoted name ++ (g ++ ':' :: (g' ++ (behind ++ rest))) := by
    simp [hsplit]
  have hfirst : cs ++ rest = before ++ (cs ++ rest).drop before.length := by
    rw [hdrop, hsplit]
    simp
  rw [hsplit] at honce
  have hfind : (keyed name q).find? (before ++ (cs ++ rest).drop before.length) =
      some (.between (.behind [] (before ++ (cs ++ rest).drop before.length))
        (.behind before ((cs ++ rest).drop before.length)) e) := by
    rw [hdrop]
    apply find?_of_first
    · intro a b hcut hne
      apply ways_letters_eq_nil
      simpa using honce.not_prefix hcut hne rest
    · rw [ways_keyed (hq _) name before hg hg' hbehind, ← hlead]
      exact hways _
  rwa [← hfirst] at hfind

/-- The text that mappings are saved from is the object behind their key. -/
theorem KeyAt.savedSection?_eq {w end_ : List Char}
    (h : KeyAt "paths" cs before lead ('\x7b' :: (w ++ '\x7d' :: end_)))
    (hclose : ∀ rest, closingFrom 0 false false ('\x7b' :: (w ++ '\x7d' :: rest)) =
      some (w.length + 1)) (rest : List Char) :
    savedSection? (cs ++ rest) = some (dropLastCommas ('\x7b' :: (w ++ ['\x7d']))) := by
  have hways : ∀ n, (ways n (seq (letters ['\x7b']) empty)
      (.behind lead ('\x7b' :: (w ++ '\x7d' :: end_) ++ rest))).head? =
        some ⟨.behind (lead ++ ['\x7b']) (w ++ '\x7d' :: end_ ++ rest), []⟩ := by
    intro n
    rw [List.cons_append, ways_letter]
    rfl
  have hfind := h.find? (fun n => shuns_letters (by decide) [] empty) rest
    (by rintro c ⟨⟩; decide) hways
  have hdrop : (cs ++ rest).drop lead.length = '\x7b' :: (w ++ '\x7d' :: (end_ ++ rest)) := by
    simp [h.text]
  have hstart (m : Match) (hm : m = .between (.behind [] (cs ++ rest))
      (.behind before ((cs ++ rest).drop before.length))
        ⟨.behind (lead ++ ['\x7b']) (w ++ '\x7d' :: end_ ++ rest), []⟩) :
      m.skipped.length + m.text.length - 1 = lead.length := by
    have hbefore : before.length ≤ lead.length := by
      obtain ⟨g, g', -, -, hlead⟩ := h.lead
      simp [hlead]
    have hroom := congrArg List.length hdrop
    simp only [hm, Match.between, Head.behind, List.length_take, List.length_drop,
      List.length_append, List.length_cons, List.length_nil] at hroom ⊢
    omega
  have htake : ('\x7b' :: (w ++ '\x7d' :: (end_ ++ rest))).take
      (lead.length + (w.length + 1) + 1 - lead.length) = '\x7b' :: (w ++ ['\x7d']) := by
    have hobject : '\x7b' :: (w ++ '\x7d' :: (end_ ++ rest)) =
        '\x7b' :: (w ++ ['\x7d']) ++ (end_ ++ rest) := by simp
    rw [hobject, List.take_left']
    simp only [List.length_cons, List.length_append, List.length_nil]
    omega
  unfold savedSection?
  rw [mappingsKey_eq, hfind]
  simp only [Option.bind_eq_bind, Option.bind_some, hstart _ rfl, closingBrace?, hdrop, hclose,
    Option.map_some, Option.pure_def, htake]

/-- What the base directory is taken to be. -/
theorem ways_upToQuote (n : Nat) {p : List Char} (hp : '"' ∉ p) (before rest : List Char) :
    ways n upToQuote (.behind before (p ++ '"' :: rest)) =
      [⟨.behind (before ++ p ++ ['"']) rest, [.opens 1 (.behind before (p ++ '"' :: rest)),
        .closes 1 (.behind (before ++ p) ('"' :: rest))]⟩] := by
  have hshuns : Shuns n (.noneOf "\"".toList) (seq (letters ['"']) empty) :=
    shuns_letters (by decide) _ _
  have hset : ∀ c ∈ p, (CharSet.noneOf "\"".toList).has c = true := by
    intro c hc
    have hne : c ≠ '"' := ne_of_mem_of_not_mem hc hp
    simpa using hne
  rw [upToQuote, noneOf, ways_group_many_seq hshuns hset (by rintro c ⟨⟩; decide), ways_letter]
  rfl

theorem exists_quote (raw rest : List Char) :
    ∃ more, raw ++ '"' :: rest = raw.takeWhile (· ≠ '"') ++ '"' :: more := by
  induction raw with
  | nil => exact ⟨rest, rfl⟩
  | cons c raw ih =>
    by_cases hc : c = '"'
    · rw [hc, List.takeWhile_cons_of_neg (by simp)]
      exact ⟨raw ++ '"' :: rest, rfl⟩
    · obtain ⟨more, hmore⟩ := ih
      rw [List.takeWhile_cons_of_pos (by simpa using hc), List.cons_append, hmore]
      exact ⟨more, rfl⟩

/-- The base directory is taken to be what stands in front of the first quote in its name. -/
theorem KeyAt.baseUrlEntry_group {raw end_ : List Char}
    (h : KeyAt "baseUrl" cs before lead ('"' :: (raw ++ '"' :: end_))) (rest : List Char) :
    (baseUrlEntry.find? (cs ++ rest)).map (·.group 1) = some (raw.takeWhile (· ≠ '"')) := by
  obtain ⟨p, hp⟩ : ∃ p, p = raw.takeWhile (· ≠ '"') := ⟨_, rfl⟩
  have hquote : '"' ∉ p := by
    intro hmem
    rw [hp] at hmem
    simpa using List.mem_takeWhile_imp hmem
  obtain ⟨more, hmore⟩ := exists_quote raw (end_ ++ rest)
  rw [← hp] at hmore
  have hways : ∀ n, (ways n (seq (letters ['"']) upToQuote)
      (.behind lead ('"' :: (raw ++ '"' :: end_) ++ rest))).head? = some
        ⟨.behind (lead ++ ['"'] ++ p ++ ['"']) more,
          [.opens 1 (.behind (lead ++ ['"']) (p ++ '"' :: more)),
            .closes 1 (.behind (lead ++ ['"'] ++ p) ('"' :: more))]⟩ := by
    intro n
    rw [List.cons_append, ways_letter, List.append_assoc, List.cons_append, hmore,
      ways_upToQuote n hquote]
    rfl
  have hfind := h.find? (fun n => shuns_letters (by decide) [] upToQuote) rest
    (by rintro c ⟨⟩; decide) hways
  have hlength : lead.length + (p.length + 1) - (lead.length + 1) = p.length := by omega
  rw [baseUrlEntry_eq, hfind, ← hp]
  simp [Match.group, Match.group?, Match.between, groupText, Head.behind, hlength]

/-! ### Files that are spoiled -/

/-- Is the name written once at most in a text, and nowhere with escapes? -/
structure NamedOnce (name : String) (ts : List Token) (cs : List Char) : Prop where
  plain : ∀ raw, .quoted raw ∈ ts → Body raw name.toList → raw = name.toList
  once : Once (quoted name) cs

/-- Where the key of a member stands that is written once. -/
theorem Once.keyAt {ts us : List Token} (h : Once (quoted name) cs) (hmade : Made Blank ts cs)
    (hin : .quoted name.toList :: .mark ':' :: us <:+: ts) :
    ∃ mid end_, Spells Blank us mid end_ ∧ ∀ g' behind, Blank g' → mid = g' ++ behind →
      ∃ before lead, KeyAt name cs before lead behind := by
  obtain ⟨before, g, mid, end_, hcs, hg, hus⟩ := hmade.of_member hin
  refine ⟨mid, end_, hus, ?_⟩
  rintro g' behind hg' rfl
  refine ⟨before, before ++ (quoted name ++ (g ++ ':' :: g')), h, ?_, g, g', hg, hg', rfl⟩
  rw [hcs, quoted]
  simp

/-- Can the text not be read as a whole, even without comments and commas behind last items? -/
def Spoiled (content : String) : Prop :=
  ofChars? (stripFrom .code content.toList) = none ∧
    ofChars? (dropLastCommas (stripFrom .code content.toList)) = none

theorem declared_of_spoiled {content : String} (h : Spoiled content) :
    declared content = salvage (stripFrom .code content.toList) := by
  rw [declared, h.1, Option.orElse_none, h.2]

/-- What is read from a file that declares a base directory and mappings. -/
theorem ofText?_of_declared {content base : String} {w : Json}
    (h : declared content = some ⟨some base, some w⟩) (config : Path) :
    ofText? content config =
      some ⟨config, some ((config.parent?.getD ⟨"."⟩).child base), mappingsOf w⟩ := by
  rw [ofText?, h]
  rfl

theorem child_of_empty (t : String) : (⟨""⟩ : Path).child t = ⟨t⟩ := by
  simp [Path.child, Path.join]

/-- Two files are read alike for all places exactly if they declare the same. -/
theorem ofText?_eq_iff {content content' base base' : String} {w w' : Json}
    (h : declared content = some ⟨some base, some w⟩)
    (h' : declared content' = some ⟨some base', some w'⟩) :
    (∀ config, ofText? content config = ofText? content' config) ↔
      base = base' ∧ mappingsOf w = mappingsOf w' := by
  constructor
  · intro hsame
    -- beside a configuration file that is named without a directory the spelling is kept
    have hhere := hsame ⟨"tsconfig.json"⟩
    have hparent : (⟨"tsconfig.json"⟩ : Path).parent? = some ⟨""⟩ := by decide +kernel
    rw [ofText?_of_declared h, ofText?_of_declared h', hparent, Option.getD_some, child_of_empty,
      child_of_empty] at hhere
    simpa using hhere
  · rintro ⟨rfl, hmappings⟩ config
    rw [ofText?_of_declared h, ofText?_of_declared h', hmappings]

/-- How a text writes its base directory and its mappings. -/
structure Written (ts : List Token) (base : String) (ms : List (String × Json)) (raw : List Char)
    (us : List Token) : Prop where
  baseUrl : [.quoted "baseUrl".toList, .mark ':', .quoted raw] <:+: ts
  spelled : Body raw base.toList
  mappings : .quoted "paths".toList :: .mark ':' :: us <:+: ts
  reads : Reads depthLimit (.value (.obj ms)) us

section

variable {text : String} {v options : Json} {ms : List (String × Json)} {base : String}
  {ts : List Token}

theorem exists_written (hv : Reads depthLimit (.value v) ts)
    (hoptions : v.get? "compilerOptions" = some options)
    (hpaths : options.get? "paths" = some (.obj ms))
    (hbase : options.get? "baseUrl" = some (.str base))
    (hnamed : ∀ name ∈ ["paths", "baseUrl"], NamedOnce name ts text.toList) :
    ∃ raw us, Written ts base ms raw us := by
  obtain ⟨name, os, -, hos, hin⟩ := hv.of_get? hoptions
  obtain ⟨key, us, hkey, hus, husin⟩ := hos.of_get? hpaths
  obtain ⟨key', us', hkey', hus', husin'⟩ := hos.of_get? hbase
  have hwithin : os <:+: ts := infix_of_member hin
  have hmappings := husin.trans hwithin
  have hbaseUrl := husin'.trans hwithin
  obtain rfl : key = "paths".toList :=
    (hnamed "paths" (by simp)).plain key (hmappings.subset List.mem_cons_self) hkey
  obtain rfl : key' = "baseUrl".toList :=
    (hnamed "baseUrl" (by simp)).plain key' (hbaseUrl.subset List.mem_cons_self) hkey'
  cases hus' with
  | @quoted _ raw s hbody =>
    refine ⟨raw, us, hbaseUrl, ?_, hmappings, hus⟩
    rwa [String.toList_ofList]

/-- What is saved from a text with something behind it: the base directory as it is spelled up to a
    quote, and the mappings without the commas that stand in front of a bracket. -/
theorem salvage_of_written {raw : List Char} {us : List Token} {w : Json}
    (hmade : Made Blank ts text.toList) (h : Written ts base ms raw us)
    (hw : Reads depthLimit (.value w) (us.map trimmed))
    (hnamed : ∀ name ∈ ["paths", "baseUrl"], NamedOnce name ts text.toList) (rest : List Char) :
    salvage (text.toList ++ rest) =
      some ⟨some (String.ofList (raw.takeWhile (· ≠ '"'))), some w⟩ := by
  have hbase : (baseUrlEntry.find? (text.toList ++ rest)).map (·.group 1) =
      some (raw.takeWhile (· ≠ '"')) := by
    obtain ⟨mid, end_, hspells, hplace⟩ :=
      (hnamed "baseUrl" (by simp)).once.keyAt hmade h.baseUrl
    cases hspells with
    | @cons g _ _ _ _ hg _ hnil =>
      cases hnil
      obtain ⟨before, lead, hkey⟩ :=
        hplace g ('"' :: (raw ++ '"' :: end_)) hg (by simp [Token.text])
      exact hkey.baseUrlEntry_group rest
  have hsaved : ∃ saved, savedSection? (text.toList ++ rest) = some saved ∧
      ofChars? saved = some w := by
    obtain ⟨mid, end_, hspells, hplace⟩ :=
      (hnamed "paths" (by simp)).once.keyAt hmade h.mappings
    obtain ⟨g, object, hg, hmid, hobject, hclose⟩ := closingFrom_of_reads h.reads hspells
    obtain ⟨before, lead, hkey⟩ := hplace g _ hg hmid
    have hdropped := made_dropLastCommas hobject (sound_of_reads h.reads)
    rw [(Trailing.refl us).dropCommas_eq h.reads.fitting.chain] at hdropped
    exact ⟨_, hkey.savedSection?_eq hclose rest,
      (ofChars?_eq_some_iff hw.separate hdropped).mpr hw⟩
  obtain ⟨saved, hsaved, hread⟩ := hsaved
  obtain ⟨m, hm, hgroup⟩ := Option.map_eq_some_iff.mp hbase
  rw [salvage_eq, hsaved, Option.bind_some, hread, hm, Option.map_some, Option.map_some, hgroup]

/-- Mappings that no comma can be dropped from are saved as they are. -/
theorem eq_of_trimmed {raw : List Char} {us : List Token} {w : Json}
    (hmade : Made Blank ts text.toList) (h : Written ts base ms raw us)
    (hw : Reads depthLimit (.value w) (us.map trimmed))
    (hplain : ∀ s, .quoted s ∈ us → dropLastCommas s = s) : w = .obj ms := by
  rw [map_trimmed_eq_self hplain] at hw
  obtain ⟨before, mid, end_, -, hspells⟩ := hmade.of_infix (infix_of_member h.mappings)
  obtain ⟨object, -, hcut⟩ := hspells.cut
  have hobject : Made Blank us (object ++ []) := ⟨[], blank_nil, hcut []⟩
  have hread := (ofChars?_eq_some_iff hw.separate hobject).mpr hw
  rw [(ofChars?_eq_some_iff hw.separate hobject).mpr h.reads] at hread
  exact (Option.some.inj hread).symm

/-- **What is saved from a spoiled file.**  Let a strict text have a base directory and mappings in
    its compiler options, both named there and nowhere else; and let what is written behind it
    spoil it.  Then the mappings are those without the commas that their strings hold in front of
    brackets, and the base directory is its name as it is spelled, up to the first quote.  So the
    file is read as without what spoils it exactly if nothing is escaped in that name and no
    mapping depends on such a comma. -/
theorem ofText?_of_spoiled (hvalid : Json.ofText? text = some v) (hts : Separate ts)
    (hmade : Made Blank ts text.toList) (hoptions : v.get? "compilerOptions" = some options)
    (hpaths : options.get? "paths" = some (.obj ms))
    (hbase : options.get? "baseUrl" = some (.str base))
    (hnamed : ∀ name ∈ ["paths", "baseUrl"], NamedOnce name ts text.toList) {rest : String}
    (hspoiled : Spoiled (text ++ rest)) :
    ∃ raw us w, Written ts base ms raw us ∧ Reads depthLimit (.value w) (us.map trimmed) ∧
      (∀ config : Path, ofText? (text ++ rest) config = some ⟨config,
        some ((config.parent?.getD ⟨"."⟩).child (String.ofList (raw.takeWhile (· ≠ '"')))),
        mappingsOf w⟩) ∧
      ((∀ config, ofText? (text ++ rest) config = ofText? text config) ↔
        '\\' ∉ raw ∧ mappingsOf w = mappingsOf (.obj ms)) ∧
      ('\\' ∉ raw → (∀ s, .quoted s ∈ us → dropLastCommas s = s) →
        ∀ config, ofText? (text ++ rest) config = ofText? text config) := by
  have hv : Reads depthLimit (.value v) ts := (ofChars?_eq_some_iff hts hmade).mp hvalid
  obtain ⟨raw, us, hwritten⟩ := exists_written hv hoptions hpaths hbase hnamed
  obtain ⟨w, hw⟩ : ∃ w, Reads depthLimit (.value w) (us.map trimmed) :=
    reads_trimmed hwritten.reads
  have hstrict : declared text = some ⟨some base, some (.obj ms)⟩ := by
    rw [declared_of_reads hv ((stripFrom_eq_self hmade).symm ▸ hmade), declaredIn, hoptions,
      Option.map_some, hpaths, hbase]
    rfl
  have hsaved : declared (text ++ rest) =
      some ⟨some (String.ofList (raw.takeWhile (· ≠ '"'))), some w⟩ := by
    rw [declared_of_spoiled hspoiled, String.toList_append, stripFrom_made hmade]
    exact salvage_of_written hmade hwritten hw hnamed _
  have hspelled : String.ofList (raw.takeWhile (· ≠ '"')) = base ↔ '\\' ∉ raw := by
    rw [← hwritten.spelled.takeWhile_eq_iff, ← String.ofList_inj, String.ofList_toList]
  have hiff := ofText?_eq_iff hsaved hstrict
  rw [hspelled] at hiff
  refine ⟨raw, us, w, hwritten, hw, ofText?_of_declared hsaved, hiff, ?_⟩
  intro hraw hplain
  apply hiff.mpr
  exact ⟨hraw, congrArg mappingsOf (eq_of_trimmed hmade hwritten hw hplain)⟩

end

/-- A base directory with an escaped slash in its name, and one mapping. -/
def slashTokens : List Token :=
  [.mark '\x7b', .quoted "compilerOptions".toList, .mark ':', .mark '\x7b',
    .quoted "baseUrl".toList, .mark ':', .quoted "a\\/b".toList, .mark ',',
    .quoted "paths".toList, .mark ':', .mark '\x7b', .quoted "x".toList, .mark ':', .mark '[',
    .quoted "y".toList, .mark ']', .mark '\x7d', .mark '\x7d', .mark '\x7d']

def slashText : String :=
  String.ofList (slashTokens.flatMap Token.text)

def slashMappings : List (String × Json) :=
  [("x", .arr [.str "y"])]

theorem body_slash : Body "a\\/b".toList "a/b".toList := by
  have hb : Body ['b'] ['b'] := body_of_plain (by simp)
  have hslash : Escapes ['/'] '/' := escapes_singleton (by decide) fun _ => rfl
  exact .plain (by decide) (by decide) (by decide) (.escaped hslash hb)

/-- The options in the order in which they are read. -/
def slashOptions : List (String × Json) :=
  putMember "paths" (.obj slashMappings) (putMember "baseUrl" (.str "a/b") [])

theorem reads_slash :
    Reads depthLimit (.value (.obj [("compilerOptions", .obj slashOptions)])) slashTokens := by
  have hkey (name : String) (hname : ∀ c ∈ name.toList, c ≠ '"' ∧ c ≠ '\\' ∧ ¬ c.toNat < 32) :
      Body name.toList name.toList := body_of_plain hname
  have htarget : Reads 124 (.value (.arr [.str "y"])) [.mark '[', .quoted "y".toList, .mark ']'] :=
    .array (.lastItem (.quoted (hkey "y" (by simp))))
  have hmappings : Reads 125 (.value (.obj slashMappings)) (.mark '\x7b' ::
      ([.quoted "x".toList, .mark ':', .mark '[', .quoted "y".toList, .mark ']'] ++
        [.mark '\x7d'])) :=
    .object (.lastMember (hkey "x" (by simp)) htarget)
  have hbase : Reads 125 (.value (.str "a/b")) [.quoted "a\\/b".toList] := .quoted body_slash
  have hoptions : Reads 126 (.value (.obj slashOptions)) _ :=
    .object (.member (hkey "baseUrl" (by simp)) hbase
      (.lastMember (hkey "paths" (by simp)) hmappings))
  exact .object (.lastMember (hkey "compilerOptions" (by simp)) hoptions)

/-- Saved from a spoiled file, the base directory keeps its backslash. -/
theorem slashText_spoiled :
    (Separate slashTokens ∧ Made Blank slashTokens slashText.toList ∧
      (∀ name ∈ ["paths", "baseUrl"], NamedOnce name slashTokens slashText.toList) ∧
      Spoiled (slashText ++ "oops")) ∧
    (∃ raw us w, Written slashTokens "a/b" slashMappings raw us ∧
      ((∀ config, ofText? (slashText ++ "oops") config = ofText? slashText config) ↔
        '\\' ∉ raw ∧ mappingsOf w = mappingsOf (.obj slashMappings))) ∧
    ofText? (slashText ++ "oops") ⟨"/r/tsconfig.json"⟩ ≠
      ofText? slashText ⟨"/r/tsconfig.json"⟩ := by
  have hmade : Made Blank slashTokens slashText.toList := by
    rw [slashText, String.toList_ofList]
    exact ⟨[], blank_nil, spells_flatMap blank_nil reads_slash.proper⟩
  have hnamed : ∀ name ∈ ["paths", "baseUrl"], NamedOnce name slashTokens slashText.toList := by
    intro name hname
    have honce : ∀ name ∈ ["paths", "baseUrl"], Once (quoted name) slashText.toList := by
      decide +kernel
    refine ⟨?_, honce name hname⟩
    intro raw hraw hbody
    have hplain : raw = "a\\/b".toList ∨ Body raw raw := by
      simp only [slashTokens, List.mem_cons, Token.quoted.injEq, reduceCtorEq, false_or, or_false,
        List.not_mem_nil] at hraw
      rcases hraw with rfl | rfl | rfl | rfl | rfl | rfl
      case inr.inr.inl => exact .inl rfl
      all_goals exact .inr (body_of_plain (by simp))
    rcases hplain with rfl | hplain
    · obtain rfl := String.toList_inj.mp (hbody.inj body_slash)
      exact absurd hname (by decide)
    · exact hplain.inj hbody
  have hspoiled : Spoiled (slashText ++ "oops") := by
    constructor
    · exact Option.isNone_iff_eq_none.mp (by decide +kernel)
    · exact Option.isNone_iff_eq_none.mp (by decide +kernel)
  have hvalid : Json.ofText? slashText = some (.obj [("compilerOptions", .obj slashOptions)]) :=
    (ofChars?_eq_some_iff reads_slash.separate hmade).mpr reads_slash
  have hpaths : (Json.obj slashOptions).get? "paths" = some (.obj slashMappings) := by
    simp [get?, members?, slashOptions, lookup_putMember]
  have hbase : (Json.obj slashOptions).get? "baseUrl" = some (.str "a/b") := by
    simp [get?, members?, slashOptions, lookup_putMember]
  obtain ⟨raw, us, w, hwritten, -, -, hiff, -⟩ := ofText?_of_spoiled hvalid reads_slash.separate
    hmade rfl hpaths hbase hnamed hspoiled
  exact ⟨⟨reads_slash.separate, hmade, hnamed, hspoiled⟩, ⟨raw, us, w, hwritten, hiff⟩,
    by decide +kernel⟩

end SourceWeb.Alias
