/-
  What a configuration file with comments and commas behind its last items says.

  It says the same as the strict text it was made from, as long as no string of that holds a comma
  in front of a bracket.  Once there is a comma to be dropped behind a last item, those within
  strings are dropped with it, and the file says what the text without them would.
-/
import SourceWeb.Alias.Reader
import SourceWeb.Proofs.Alias.Lenient

namespace SourceWeb.Alias

open SourceWeb.Json SourceWeb.Text

/-! ### Values of trimmed tokens -/

theorem sound_of_reads {depth : Nat} {form : Form} {ts : List Token} (h : Reads depth form ts) :
    ∀ t ∈ ts, Sound t := by
  induction h with
  | quoted hbody => simpa using sound_quoted hbody
  | yes | no | null | number _ | emptyArray | emptyObject => simp
  | array _ ih | object _ ih => simpa [or_imp, forall_and] using ih
  | lastItem _ ih => exact ih
  | item _ _ ih ih' => simpa [or_imp, forall_and] using ⟨ih, ih'⟩
  | lastMember hkey _ ih => simpa [or_imp, forall_and] using ⟨sound_quoted hkey, ih⟩
  | member hkey _ _ ih ih' => simpa [or_imp, forall_and] using ⟨sound_quoted hkey, ih, ih'⟩

/-- Are the tokens, once they are trimmed, those of a value, of items or of members again? -/
def ReadsTrimmed (depth : Nat) : Form → List Token → Prop
  | .value _, ts => ∃ v, Reads depth (.value v) (ts.map trimmed)
  | .items _, ts => ∃ vs, Reads depth (.items vs) (ts.map trimmed)
  | .members _ _, ts => ∀ read, ∃ ms, Reads depth (.members read ms) (ts.map trimmed)

/-- Trimming the strings of a value leaves the tokens of one, in which other strings may stand. -/
theorem reads_trimmed {depth : Nat} {form : Form} {ts : List Token} (h : Reads depth form ts) :
    ReadsTrimmed depth form ts := by
  induction h with
  | quoted hbody =>
    obtain ⟨s, hbody'⟩ := exists_body_dropLastCommas hbody
    exact ⟨_, .quoted hbody'⟩
  | yes => exact ⟨_, .yes⟩
  | no => exact ⟨_, .no⟩
  | null => exact ⟨_, .null⟩
  | number hnumber => exact ⟨_, .number hnumber⟩
  | emptyArray => exact ⟨_, .emptyArray⟩
  | emptyObject => exact ⟨_, .emptyObject⟩
  | array _ ih =>
    obtain ⟨vs, hvs⟩ := ih
    refine ⟨.arr vs, ?_⟩
    rw [List.map_cons, List.map_append]
    exact .array hvs
  | object _ ih =>
    obtain ⟨ms, hms⟩ := ih []
    refine ⟨.obj ms, ?_⟩
    rw [List.map_cons, List.map_append]
    exact .object hms
  | lastItem _ ih =>
    obtain ⟨v, hv⟩ := ih
    exact ⟨_, .lastItem hv⟩
  | item _ _ ih ih' =>
    obtain ⟨v, hv⟩ := ih
    obtain ⟨vs, hvs⟩ := ih'
    refine ⟨v :: vs, ?_⟩
    rw [List.map_append, List.map_cons]
    exact .item hv hvs
  | lastMember hkey _ ih =>
    -- other members may have been read before, since their keys may be others
    intro read
    obtain ⟨key, hkey'⟩ := exists_body_dropLastCommas hkey
    obtain ⟨v, hv⟩ := ih
    exact ⟨_, .lastMember hkey' hv⟩
  | member hkey _ _ ih ih' =>
    intro read
    obtain ⟨key, hkey'⟩ := exists_body_dropLastCommas hkey
    obtain ⟨v, hv⟩ := ih
    obtain ⟨ms, hms⟩ := ih' (putMember (String.ofList key) v read)
    refine ⟨ms, ?_⟩
    rw [List.map_cons, List.map_cons, List.map_append, List.map_cons]
    exact .member hkey' hv hms

/-! ### What a file declares -/

variable {text text' : String} {ts ts' : List Token} {v : Json}

theorem declared_of_strict (h : ofChars? (stripFrom .code text.toList) = some v) :
    declared text = declaredIn v := by
  rw [declared, h]
  rfl

theorem declared_of_dropped (h : ofChars? (stripFrom .code text.toList) = none)
    (h' : ofChars? (dropLastCommas (stripFrom .code text.toList)) = some v) :
    declared text = declaredIn v := by
  rw [declared, h]
  simp [h']

theorem ofText?_of_declared_eq (h : declared text' = declared text) (config : Path) :
    ofText? text' config = ofText? text config := by
  rw [ofText?, h, ofText?]

/-- A strict text without the commas that stand in front of a bracket, all of them in strings. -/
def withoutLastCommas (text : String) : String :=
  String.ofList (dropLastCommas text.toList)

/-- A text that is strict without its comments declares what its tokens do. -/
theorem declared_of_reads (hv : Reads depthLimit (.value v) ts)
    (h : Made Blank ts (stripFrom .code text.toList)) : declared text = declaredIn v :=
  declared_of_strict ((ofChars?_eq_some_iff hv.separate h).mpr hv)

/-- A text with commas behind last items declares what its tokens do once they are trimmed. -/
theorem declared_of_commas {w : Json} (hv : Reads depthLimit (.value v) ts)
    (hw : Reads depthLimit (.value w) (ts.map trimmed)) (h : Made Gap ts' text.toList)
    (hadded : Trailing ts ts') (hne : ts' ≠ ts) : declared text = declaredIn w := by
  have hmade := made_stripFrom h
  have hseparate := hadded.separate hv.separate
  refine declared_of_dropped ?_ ?_
  · rw [Option.eq_none_iff_forall_ne_some]
    intro u hu
    have hfitting := ((ofChars?_eq_some_iff hseparate hmade).mp hu).fitting
    exact (hadded.eq_or_not_isChain.resolve_left hne) hfitting.chain
  · have hdropped := made_dropLastCommas hmade (hadded.sound (sound_of_reads hv))
    rw [hadded.dropCommas_eq hv.fitting.chain] at hdropped
    exact (ofChars?_eq_some_iff hw.separate hdropped).mpr hw

/-- A strict text has no comma in front of a bracket but in its strings. -/
theorem made_withoutLastCommas (hv : Reads depthLimit (.value v) ts)
    (h : Made Blank ts text.toList) :
    Made Blank (ts.map trimmed) (withoutLastCommas text).toList := by
  rw [withoutLastCommas, String.toList_ofList,
    ← (Trailing.refl ts).dropCommas_eq hv.fitting.chain]
  exact made_dropLastCommas h (sound_of_reads hv)

/-- **A configuration file may have comments and white space between its tokens, and commas behind
    its last items.**  With the former alone it says what the strict text says that it was made
    from.  With commas added it says what that text would without the commas that its strings hold
    in front of brackets; so it says the same as long as there are none. -/
theorem ofText?_of_trailing (hvalid : (Json.ofText? text).isSome = true) (hts : Separate ts)
    (h : Made Blank ts text.toList) (h' : Made Gap ts' text'.toList) (hadded : Trailing ts ts')
    (config : Path) :
    (ts' = ts → ofText? text' config = ofText? text config) ∧
    (ts' ≠ ts → (Json.ofText? (withoutLastCommas text)).isSome = true ∧
      ofText? text' config = ofText? (withoutLastCommas text) config) ∧
    ((∀ raw, .quoted raw ∈ ts → dropLastCommas raw = raw) →
      ofText? text' config = ofText? text config) := by
  obtain ⟨v, hv⟩ := Option.isSome_iff_exists.mp hvalid
  have hv : Reads depthLimit (.value v) ts := (ofChars?_eq_some_iff hts h).mp hv
  obtain ⟨w, hw⟩ : ∃ w, Reads depthLimit (.value w) (ts.map trimmed) := reads_trimmed hv
  have hstrict : declared text = declaredIn v :=
    declared_of_reads hv ((stripFrom_eq_self h).symm ▸ h)
  have htrimmed := made_withoutLastCommas hv h
  have hwithout : declared (withoutLastCommas text) = declaredIn w :=
    declared_of_reads hw ((stripFrom_eq_self htrimmed).symm ▸ htrimmed)
  have hcomments : ts' = ts → declared text' = declared text := by
    rintro rfl
    rw [hstrict, declared_of_reads hv (made_stripFrom h')]
  have hcommas : ts' ≠ ts → declared text' = declaredIn w := fun hne =>
    declared_of_commas hv hw h' hadded hne
  refine ⟨fun heq => ofText?_of_declared_eq (hcomments heq) config, fun hne => ⟨?_, ?_⟩,
    fun hstrings => ofText?_of_declared_eq ?_ config⟩
  · rw [Option.isSome_iff_exists]
    exact ⟨w, (ofChars?_eq_some_iff hw.separate htrimmed).mpr hw⟩
  · exact ofText?_of_declared_eq ((hcommas hne).trans hwithout.symm) config
  · by_cases hne : ts' = ts
    · exact hcomments hne
    · -- without commas in strings the tokens are trimmed already
      have hsame : ts.map trimmed = ts := map_trimmed_eq_self hstrings
      rw [hstrict, declared_of_commas hv (hsame.symm ▸ hv) h' hadded hne]

/-- A configuration whose base directory has a comma in front of a brace in its name. -/
def bracedTokens : List Token :=
  [.mark '\x7b', .quoted "compilerOptions".toList, .mark ':', .mark '\x7b',
    .quoted "baseUrl".toList, .mark ':', .quoted "a,\x7d".toList, .mark '\x7d', .mark '\x7d']

/-- The same with a comma behind the last member. -/
def bracedTokensAdded : List Token :=
  [.mark '\x7b', .quoted "compilerOptions".toList, .mark ':', .mark '\x7b',
    .quoted "baseUrl".toList, .mark ':', .quoted "a,\x7d".toList, .mark '\x7d', .mark ',',
    .mark '\x7d']

def bracedText : String :=
  String.ofList (bracedTokens.flatMap Token.text)

def commentLine (body : List Char) : List Char :=
  '/' :: '/' :: (body ++ ['\n'])

/-- The text with that comma, and with a comment at its start. -/
def bracedTextAdded : String :=
  String.ofList (commentLine " options".toList ++ bracedTokensAdded.flatMap Token.text)

/-- With the comma behind the last member the base directory is another one. -/
theorem braced_read_otherwise :
    ((Json.ofText? bracedText).isSome = true ∧ Separate bracedTokens ∧
      Made Blank bracedTokens bracedText.toList ∧
      Made Gap bracedTokensAdded bracedTextAdded.toList ∧
      Trailing bracedTokens bracedTokensAdded) ∧
    ofText? bracedTextAdded ⟨"/p/tsconfig.json"⟩ =
      ofText? (withoutLastCommas bracedText) ⟨"/p/tsconfig.json"⟩ ∧
    ofText? bracedTextAdded ⟨"/p/tsconfig.json"⟩ ≠ ofText? bracedText ⟨"/p/tsconfig.json"⟩ := by
  have hvalid : (Json.ofText? bracedText).isSome = true := by decide +kernel
  have hproper : ∀ t ∈ bracedTokensAdded, t.Proper := by
    have hoptions : (Token.quoted "compilerOptions".toList).Proper := closed_of_plain (by simp)
    have hkey : (Token.quoted "baseUrl".toList).Proper := closed_of_plain (by simp)
    have hname : (Token.quoted "a,\x7d".toList).Proper := closed_of_plain (by simp)
    have hmark (c : Char) (hc : isMark c = true) : (Token.mark c).Proper := hc
    simp only [bracedTokensAdded, List.forall_mem_cons, List.not_mem_nil, false_imp_iff,
      implies_true, and_true]
    exact ⟨hmark _ rfl, hoptions, hmark _ rfl, hmark _ rfl, hkey, hmark _ rfl, hname, hmark _ rfl,
      hmark _ rfl, hmark _ rfl⟩
  have hsubset : bracedTokens ⊆ bracedTokensAdded := by
    simp [bracedTokens, bracedTokensAdded]
  have hseparate : Separate bracedTokens := by
    simp [Separate, bracedTokens, Token.isWord]
  have hmade : Made Blank bracedTokens bracedText.toList := by
    rw [bracedText, String.toList_ofList]
    exact ⟨[], by simp [Blank],
      spells_flatMap (by simp [Blank]) fun t ht => hproper t (hsubset ht)⟩
  have hmadeAdded : Made Gap bracedTokensAdded bracedTextAdded.toList := by
    have hcomment : Gap (commentLine " options".toList) := .line (by simp) .nil
    obtain ⟨hfirst, hrest⟩ := List.forall_mem_cons.mp hproper
    rw [bracedTextAdded, String.toList_ofList, bracedTokensAdded, List.flatMap_cons]
    exact ⟨[], .nil, .cons hcomment hfirst (spells_flatMap .nil hrest)⟩
  have hadded : Trailing bracedTokens bracedTokensAdded :=
    .keep (.keep (.keep (.keep (.keep (.keep (.keep (.insert rfl rfl (.refl _))))))))
  have hne : bracedTokensAdded ≠ bracedTokens := by decide
  have heq :=
    (ofText?_of_trailing hvalid hseparate hmade hmadeAdded hadded ⟨"/p/tsconfig.json"⟩).2.1 hne
  have hother : ofText? (withoutLastCommas bracedText) ⟨"/p/tsconfig.json"⟩ ≠
      ofText? bracedText ⟨"/p/tsconfig.json"⟩ := by decide +kernel
  exact ⟨⟨hvalid, hseparate, hmade, hmadeAdded, hadded⟩, heq.2,
    fun hsame => hother (heq.2.symm.trans hsame)⟩

end SourceWeb.Alias
