/-
  The constants of a Ruby file and the string literals in it.

  A line is cut at its first `#` before its string literals are emptied.  So what a literal holds
  does not matter as long as it holds no `#`.  If it holds one, the line ends there: the literal is
  not closed and counts as code, and what follows it is not seen.
-/
import SourceWeb.Proofs.Pattern.Lines
import SourceWeb.Proofs.Pattern.Literal
import SourceWeb.Proofs.Reference
import SourceWeb.Proofs.Text.Split
import SourceWeb.Language.Ruby

namespace SourceWeb.Language.Ruby

open SourceWeb.Text
open SourceWeb.Pattern

/-! ### String literals -/

/-- A character in a literal with the delimiter `q`, or one with a backslash in front. -/
def inLiteral (q : Char) : Pattern :=
  alt (set (.noneOf [q, '\\', '\n'])) (seq (letters ['\\']) (seq (set (.noneOf ['\n'])) empty))

def literal (q : Char) : Pattern :=
  seq (letters [q]) (seq (many (inLiteral q)) (seq (letters [q]) empty))

theorem stringLiteral_eq : stringLiteral = alt (literal '"') (literal '\'') := by
  decide +kernel

theorem ways_many (n : Nat) (p : Pattern) (h : Head) :
    ways n (many p) h =
      ((ways n p h).flatMap fun e =>
        if e.head.rest.length < h.rest.length then
          (ways n (many p) e.head).map (End.after e.events) else []) ++ [⟨h, []⟩] := by
  have hmany : ways n (many p) = again (ways n p) true := by
    funext g
    simp [ways, many, Course.ofPattern, Course.times, Course.ways]
    rfl
  rw [hmany, again]
  simp

theorem ways_letter_nil (n : Nat) (q : Char) (p : Pattern) (last : Option Char) (pos : Nat) :
    ways n (seq (letters [q]) p) ⟨last, [], pos⟩ = [] := rfl

theorem ways_letter_cons (n : Nat) (q : Char) (p : Pattern) (last : Option Char) (c : Char)
    (rest : List Char) (pos : Nat) :
    ways n (seq (letters [q]) p) ⟨last, c :: rest, pos⟩ =
      if c = q then ways n p ⟨some c, rest, pos + 1⟩ else [] := by
  have hletters : letters [q] = seq (set (.oneOf [q])) empty := rfl
  rw [hletters, ways_seq_assoc, ways_seq, ways_set]
  by_cases hc : c = q
  · simp [hc, ways_empty_seq, after_nil]
  · simp [hc]

/-- Only where its delimiter stands does a literal begin. -/
theorem ways_literal_eq_nil {n : Nat} {q : Char} {h : Head} (hh : ∀ c ∈ h.rest.head?, c ≠ q) :
    ways n (literal q) h = [] := by
  obtain ⟨last, rest, pos⟩ := h
  cases rest with
  | nil => exact ways_letter_nil n q _ last pos
  | cons c rest => rw [literal, ways_letter_cons, if_neg (hh c rfl)]

/-- A literal that is not closed is none. -/
theorem ways_literal_open {n : Nat} {q : Char} {rest : List Char} (hrest : q ∉ rest)
    (last : Option Char) (pos : Nat) : ways n (literal q) ⟨last, q :: rest, pos⟩ = [] := by
  rw [literal, ways_letter_cons, if_pos rfl, ways_seq]
  refine List.flatMap_eq_nil_iff.mpr fun e he => ?_
  have hnext : ∀ g g' : Head, g.next? = some g' → q ∉ g.rest → q ∉ g'.rest := by
    rintro ⟨last, rest, pos⟩ g' hg' hq
    cases rest with
    | nil => simp [Head.next?] at hg'
    | cons c rest =>
      cases hg'
      exact fun hmem => hq (List.mem_cons_of_mem c hmem)
  have hend : q ∉ e.head.rest :=
    (Course.stays_ways hnext _ _ hrest e he).1
  obtain ⟨⟨last', rest', pos'⟩, events⟩ := e
  cases rest' with
  | nil => rfl
  | cons c rest' =>
    have hc : c ≠ q := fun heq => hend (heq ▸ List.mem_cons_self)
    rw [ways_letter_cons, if_neg hc, List.map_nil]

theorem ways_inLiteral {n : Nat} {q c : Char} (hc : c ∉ [q, '\\', '\n']) (last : Option Char)
    (rest : List Char) (pos : Nat) :
    ways n (inLiteral q) ⟨last, c :: rest, pos⟩ = [⟨⟨some c, rest, pos + 1⟩, []⟩] := by
  have hslash : c ≠ '\\' := by
    rintro rfl
    simp at hc
  have halt : ways n (inLiteral q) ⟨last, c :: rest, pos⟩ =
      ways n (set (.noneOf [q, '\\', '\n'])) ⟨last, c :: rest, pos⟩ ++
        ways n (seq (letters ['\\']) (seq (set (.noneOf ['\n'])) empty)) ⟨last, c :: rest, pos⟩ := rfl
  rw [halt, ways_letter_cons, if_neg hslash, List.append_nil, ways_set, if_pos (by simpa using hc)]

theorem ways_inLiteral_delimiter {n : Nat} {q : Char} (hq : q ≠ '\\') (last : Option Char)
    (rest : List Char) (pos : Nat) : ways n (inLiteral q) ⟨last, q :: rest, pos⟩ = [] := by
  have halt : ways n (inLiteral q) ⟨last, q :: rest, pos⟩ =
      ways n (set (.noneOf [q, '\\', '\n'])) ⟨last, q :: rest, pos⟩ ++
        ways n (seq (letters ['\\']) (seq (set (.noneOf ['\n'])) empty)) ⟨last, q :: rest, pos⟩ := rfl
  rw [halt, ways_letter_cons, if_neg hq, List.append_nil, ways_set, if_neg (by simp)]

/-- A literal reaches up to its closing delimiter. -/
theorem head?_ways_literal {n : Nat} {q : Char} (hq : q ≠ '\\') {s : List Char}
    (hs : ∀ c ∈ s, c ∉ [q, '\\', '\n']) (rest : List Char) (last : Option Char) (pos : Nat) :
    (ways n (literal q) ⟨last, q :: (s ++ q :: rest), pos⟩).head? =
      some ⟨⟨some q, rest, pos + s.length + 2⟩, []⟩ := by
  have hinner : ∀ last pos,
      (ways n (seq (many (inLiteral q)) (seq (letters [q]) empty))
        ⟨last, s ++ q :: rest, pos⟩).head? = some ⟨⟨some q, rest, pos + s.length + 1⟩, []⟩ := by
    induction s with
    | nil =>
      intro last pos
      rw [List.nil_append, ways_seq, ways_many, ways_inLiteral_delimiter hq]
      simp [ways_letter_cons, ways_empty, End.after]
    | cons c s ih =>
      intro last pos
      obtain ⟨hc, hs⟩ := List.forall_mem_cons.mp hs
      have hmore := ih hs (some c) (pos + 1)
      have hlength : pos + 1 + s.length + 1 = pos + (c :: s).length + 1 := by
        rw [List.length_cons]
        omega
      have hshorter : (s ++ q :: rest).length < (c :: (s ++ q :: rest)).length :=
        Nat.lt_succ_self _
      rw [hlength, ways_seq] at hmore
      rw [List.cons_append, ways_seq, ways_many, ways_inLiteral hc, List.flatMap_append,
        List.flatMap_singleton, if_pos hshorter, after_nil, List.map_id, List.head?_append, hmore]
      rfl
  rw [literal, ways_letter_cons, if_pos rfl, hinner]
  congr 3
  omega

/-! ### Literals in a line -/

def IsQuote (c : Char) : Prop := c = '"' ∨ c = '\''

instance (c : Char) : Decidable (IsQuote c) :=
  inferInstanceAs (Decidable (c = '"' ∨ c = '\''))

theorem IsQuote.ne {q c : Char} (hq : IsQuote q) (hc : ¬ IsQuote c) : q ≠ c :=
  fun heq => hc (heq ▸ hq)

theorem ways_stringLiteral (n : Nat) (h : Head) :
    ways n stringLiteral h = ways n (literal '"') h ++ ways n (literal '\'') h := by
  rw [stringLiteral_eq]
  rfl

theorem ways_stringLiteral_eq_nil {n : Nat} {h : Head} (hh : ∀ c ∈ h.rest.head?, ¬ IsQuote c) :
    ways n stringLiteral h = [] := by
  rw [ways_stringLiteral, ways_literal_eq_nil fun c hc heq => hh c hc (.inl heq),
    ways_literal_eq_nil fun c hc heq => hh c hc (.inr heq), List.append_nil]

theorem ways_stringLiteral_open {n : Nat} {q : Char} (hq : IsQuote q) {rest : List Char}
    (hrest : q ∉ rest) (last : Option Char) (pos : Nat) :
    ways n stringLiteral ⟨last, q :: rest, pos⟩ = [] := by
  rw [ways_stringLiteral]
  rcases hq with rfl | rfl
  · rw [ways_literal_open hrest, ways_literal_eq_nil (by simp), List.append_nil]
  · rw [ways_literal_open hrest, ways_literal_eq_nil (by simp), List.append_nil]

theorem head?_ways_stringLiteral {n : Nat} {q : Char} (hq : IsQuote q) {s : List Char}
    (hs : ∀ c ∈ s, c ∉ [q, '\\', '\n']) (rest : List Char) (last : Option Char) (pos : Nat) :
    (ways n stringLiteral ⟨last, q :: (s ++ q :: rest), pos⟩).head? =
      some ⟨⟨some q, rest, pos + s.length + 2⟩, []⟩ := by
  rw [ways_stringLiteral]
  rcases hq with rfl | rfl
  · rw [List.head?_append, head?_ways_literal (by decide) hs]
    rfl
  · rw [ways_literal_eq_nil (by simp), List.nil_append, head?_ways_literal (by decide) hs]

theorem headsFrom_cons (last : Option Char) (pos : Nat) (c : Char) (rest : List Char) :
    headsFrom last pos (c :: rest) = ⟨last, c :: rest, pos⟩ :: headsFrom (some c) (pos + 1) rest :=
  rfl

section

variable (n : Nat)

/-- The search for literals, from a place of a line on. -/
def found (last : Option Char) (pos : Nat) (text : List Char) : List (Head × Option End) :=
  (headsFrom last pos text).map fun h => (h, (ways n stringLiteral h).head?)

theorem disjoint_found_append {a : List Char} (ha : ∀ c ∈ a, ¬ IsQuote c) (rest : List Char)
    (last : Option Char) (pos : Nat) (done : Head) :
    ∃ last', disjoint done (found n last pos (a ++ rest)) =
      disjoint done (found n last' (pos + a.length) rest) := by
  induction a generalizing last pos with
  | nil => exact ⟨last, rfl⟩
  | cons c a ih =>
    obtain ⟨hc, ha⟩ := List.forall_mem_cons.mp ha
    obtain ⟨last', heq⟩ := ih ha (some c) (pos + 1)
    have hskip : ways n stringLiteral ⟨last, c :: (a ++ rest), pos⟩ = [] :=
      ways_stringLiteral_eq_nil (by simpa using hc)
    refine ⟨last', ?_⟩
    rw [List.cons_append, found, headsFrom_cons, List.map_cons, hskip, List.head?_nil, disjoint,
      ← found, heq, List.length_cons, Nat.add_right_comm, Nat.add_assoc pos]

theorem disjoint_found_eq_nil {a : List Char} (ha : ∀ c ∈ a, ¬ IsQuote c) (last : Option Char)
    (pos : Nat) (done : Head) : disjoint done (found n last pos a) = [] := by
  obtain ⟨last', heq⟩ := disjoint_found_append n ha [] last pos done
  have hend : ways n stringLiteral ⟨last', [], pos + a.length⟩ = [] :=
    ways_stringLiteral_eq_nil (by simp)
  have hnone : disjoint done (found n last' (pos + a.length) []) = [] := by
    simp [found, headsFrom, hend, disjoint]
  rwa [List.append_nil, hnone] at heq

theorem disjoint_found_open {q : Char} (hq : IsQuote q) {a b : List Char}
    (ha : ∀ c ∈ a, ¬ IsQuote c) (hb : ∀ c ∈ b, ¬ IsQuote c) (last : Option Char) (pos : Nat)
    (done : Head) : disjoint done (found n last pos (a ++ q :: b)) = [] := by
  obtain ⟨last', heq⟩ := disjoint_found_append n ha (q :: b) last pos done
  rw [heq, found, headsFrom_cons, List.map_cons,
    ways_stringLiteral_open hq (fun hmem => hb q hmem hq), List.head?_nil, disjoint, ← found,
    disjoint_found_eq_nil n hb]

end

/-- A literal that is not closed is left as it is. -/
theorem replaceAll_open {q : Char} (hq : IsQuote q) {a b : List Char} (ha : ∀ c ∈ a, ¬ IsQuote c)
    (hb : ∀ c ∈ b, ¬ IsQuote c) (f : Match → List Char) :
    stringLiteral.replaceAll f (a ++ q :: b) = a ++ q :: b := by
  have hnone : stringLiteral.findAll (a ++ q :: b) = [] := by
    rw [findAll, ends_eq]
    exact disjoint_found_open _ hq ha hb none 0 _
  rw [Pattern.replaceAll, hnone]
  rfl

/-- A literal that is closed is replaced. -/
theorem replaceAll_closed {q : Char} (hq : IsQuote q) {a s b : List Char}
    (ha : ∀ c ∈ a, ¬ IsQuote c) (hs : ∀ c ∈ s, ¬ IsQuote c ∧ c ≠ '\\' ∧ c ≠ '\n')
    (hb : ∀ c ∈ b, ¬ IsQuote c) (new : List Char) :
    stringLiteral.replaceAll (fun _ => new) (a ++ q :: (s ++ q :: b)) = a ++ new ++ b := by
  have hinside : ∀ c ∈ s, c ∉ [q, '\\', '\n'] := by
    intro c hc hmem
    obtain ⟨hquote, hslash, hfeed⟩ := hs c hc
    simp only [List.mem_cons, List.not_mem_nil, or_false] at hmem
    rcases hmem with rfl | rfl | rfl
    · exact hquote hq
    · exact hslash rfl
    · exact hfeed rfl
  obtain ⟨last, hskip⟩ := disjoint_found_append (a ++ q :: (s ++ q :: b)).length ha
    (q :: (s ++ q :: b)) none 0 ⟨none, a ++ q :: (s ++ q :: b), 0⟩
  have hone : stringLiteral.findAll (a ++ q :: (s ++ q :: b)) =
      [.between ⟨none, a ++ q :: (s ++ q :: b), 0⟩ ⟨last, q :: (s ++ q :: b), 0 + a.length⟩
        ⟨⟨some q, b, 0 + a.length + s.length + 2⟩, []⟩] := by
    rw [findAll, ends_eq]
    refine hskip.trans ?_
    rw [found, headsFrom_cons, List.map_cons, head?_ways_stringLiteral hq hinside, disjoint,
      ← found, disjoint_found_open _ hq (fun c hc => (hs c hc).1) hb, if_pos]
    simp only [Bool.and_eq_true, decide_eq_true_eq]
    omega
  rw [Pattern.replaceAll, hone]
  simp [Match.between]

/-! ### The code of a line -/

/-- Is the character neither a quote nor one that ends the code or the line? -/
def IsPlain (c : Char) : Prop := ¬ IsQuote c ∧ c ≠ '#' ∧ c ≠ '\n'

/-- May the character stand in a string literal, whatever its delimiter is? -/
def IsContent (c : Char) : Prop := ¬ IsQuote c ∧ c ≠ '\\' ∧ c ≠ '\n'

instance (c : Char) : Decidable (IsPlain c) :=
  inferInstanceAs (Decidable (¬ IsQuote c ∧ c ≠ '#' ∧ c ≠ '\n'))

instance (c : Char) : Decidable (IsContent c) :=
  inferInstanceAs (Decidable (¬ IsQuote c ∧ c ≠ '\\' ∧ c ≠ '\n'))

theorem takeWhile_notHash_append {s : List Char} (hs : '#' ∉ s) (rest : List Char) :
    (s ++ rest).takeWhile (· != '#') = s ++ rest.takeWhile (· != '#') := by
  apply List.takeWhile_append_of_pos
  intro c hc
  have hne : c ≠ '#' := fun heq => hs (heq ▸ hc)
  simpa using hne

section

variable {q : Char} (hq : IsQuote q) {a s b : List Char} (ha : ∀ c ∈ a, IsPlain c)
  (hs : ∀ c ∈ s, IsContent c) (hhash : '#' ∉ s)

include hq ha hs hhash

theorem codeOf_closed (hb : ∀ c ∈ b, IsPlain c) :
    codeOf (a ++ q :: (s ++ q :: b)) = a ++ ['"', '"'] ++ b := by
  have hnone : '#' ∉ a ++ q :: (s ++ q :: b) := by
    have hfront : '#' ∉ a := fun hmem => (ha _ hmem).2.1 rfl
    have hback : '#' ∉ b := fun hmem => (hb _ hmem).2.1 rfl
    have hquote : '#' ≠ q := (hq.ne (by decide)).symm
    simp [hfront, hback, hquote, hhash]
  have hcode := takeWhile_notHash_append hnone []
  rw [List.append_nil, List.takeWhile_nil, List.append_nil] at hcode
  rw [codeOf, hcode]
  exact replaceAll_closed hq (fun c hc => (ha c hc).1) hs (fun c hc => (hb c hc).1) _

/-- A literal is cut at the first `#` in it. -/
theorem codeOf_cut (rest : List Char) : codeOf (a ++ q :: (s ++ '#' :: rest)) = a ++ q :: s := by
  have hnone : '#' ∉ a ++ q :: s := by
    have hfront : '#' ∉ a := fun hmem => (ha _ hmem).2.1 rfl
    have hquote : '#' ≠ q := (hq.ne (by decide)).symm
    simp [hfront, hquote, hhash]
  have hcode := takeWhile_notHash_append hnone ('#' :: rest)
  rw [List.append_assoc, List.cons_append, List.takeWhile_cons_of_neg (by simp),
    List.append_nil] at hcode
  rw [codeOf, hcode]
  exact replaceAll_open hq (fun c hc => (ha c hc).1) (fun c hc => (hs c hc).1) _

end

/-! ### The constants of a text -/

def definedIn (content : List Char) : List String :=
  (definition.findAll content).map fun m => String.ofList (m.group 1)

/-- The constants in the code of a text, line by line. -/
def usedIn (content : List Char) : List String :=
  (linesOf content).flatMap fun line => constantsIn (codeOf line)

theorem constants_eq (content : List Char) :
    constants content =
      ((usedIn content).filter fun name =>
        !(coreConstants.contains (outermost name) || (definedIn content).contains name)).eraseDups :=
  rfl

theorem definedIn_eq (content : List Char) :
    definedIn content =
      ((definition.findAll content).map Match.group?).map
        fun kept => String.ofList ((kept 1).getD []) := by
  rw [List.map_map]
  rfl

theorem definedIn_append (s t : List Char) :
    definedIn (s ++ '\n' :: t) = definedIn s ++ definedIn t := by
  simp only [definedIn_eq]
  rw [groups_findAll_append (p := definition) (by decide +kernel) (by decide +kernel),
    List.map_append]

/-- A definition ends before a quote, and none begins behind it on the same line. -/
theorem definedIn_quote {q : Char} (hq : IsQuote q) (a : List Char) {b : List Char}
    (hb : '\n' ∉ b) : definedIn (a ++ q :: b) = definedIn a := by
  have hstart : ∃ p, definition = seq lineStart p ∧ p.keepsOff q = true ∧ p.uncounted = true := by
    refine ⟨_, rfl, ?_, by decide +kernel⟩
    rcases hq with rfl | rfl <;> decide +kernel
  obtain ⟨p, hp, hkeeps, hcount⟩ := hstart
  have hfeed : q ≠ '\n' := hq.ne (by decide)
  rw [definedIn_eq, definedIn_eq, hp, groups_findAll_lineStart hkeeps hcount a hfeed hb]

/-- Do two lines define the same names, and are they the same code? -/
structure Alike (l l' : List Char) : Prop where
  line : '\n' ∉ l ∧ l ≠ []
  line' : '\n' ∉ l' ∧ l' ≠ []
  defined : definedIn l = definedIn l'
  code : codeOf l = codeOf l'
  returned : codeOf (dropReturn l) = codeOf (dropReturn l')

section

variable {l l' : List Char} (h : Alike l l')

include h

theorem Alike.inText {after : List Char} (hafter : after = [] ∨ ∃ a, after = '\n' :: a) :
    definedIn (l ++ after) = definedIn (l' ++ after) ∧ usedIn (l ++ after) = usedIn (l' ++ after) := by
  rcases hafter with rfl | ⟨a, rfl⟩
  · rw [List.append_nil, List.append_nil, usedIn, usedIn, linesOf_of_notMem h.line.1 h.line.2,
      linesOf_of_notMem h.line'.1 h.line'.2, List.flatMap_singleton, List.flatMap_singleton, h.code]
    exact ⟨h.defined, rfl⟩
  · rw [definedIn_append, definedIn_append, h.defined, usedIn, usedIn, linesOf_append_cons,
      linesOf_append_cons, splitWhere_of_notMem h.line.1, splitWhere_of_notMem h.line'.1,
      List.flatMap_append, List.flatMap_append, List.map_singleton, List.map_singleton,
      List.flatMap_singleton, List.flatMap_singleton, h.returned]
    exact ⟨rfl, rfl⟩

theorem Alike.constants_eq {before after : List Char}
    (hbefore : before = [] ∨ ∃ b, before = b ++ ['\n'])
    (hafter : after = [] ∨ ∃ a, after = '\n' :: a) :
    constants (before ++ (l ++ after)) = constants (before ++ (l' ++ after)) := by
  obtain ⟨hdefined, hused⟩ := h.inText hafter
  rcases hbefore with rfl | ⟨b, rfl⟩
  · rw [List.nil_append, List.nil_append, Ruby.constants_eq, Ruby.constants_eq, hdefined, hused]
  · have hdefined' :
        definedIn (b ++ '\n' :: (l ++ after)) = definedIn (b ++ '\n' :: (l' ++ after)) := by
      rw [definedIn_append, definedIn_append, hdefined]
    have hused' : usedIn (b ++ '\n' :: (l ++ after)) = usedIn (b ++ '\n' :: (l' ++ after)) := by
      rw [usedIn, usedIn, linesOf_append_cons, linesOf_append_cons, List.flatMap_append,
        List.flatMap_append, ← usedIn, ← usedIn, hused]
    rw [List.append_assoc, List.append_assoc, List.singleton_append, List.singleton_append,
      Ruby.constants_eq, Ruby.constants_eq, hdefined', hused']

end

section

variable {q : Char} (hq : IsQuote q) {a s s' b : List Char} (ha : ∀ c ∈ a, IsPlain c)
  (hs : ∀ c ∈ s, IsContent c) (hhash : '#' ∉ s)

include hq hs

theorem definedIn_literal {rest : List Char} (hrest : '\n' ∉ rest) :
    definedIn (a ++ q :: (s ++ rest)) = definedIn a := by
  have hinside : '\n' ∉ s := fun hmem => (hs _ hmem).2.2 rfl
  exact definedIn_quote hq a (by simp [hinside, hrest])

include ha

/-- A line with a quote in it is one line, whatever stands in the literal. -/
theorem notMem_literal {rest : List Char} (hrest : '\n' ∉ rest) :
    '\n' ∉ a ++ q :: (s ++ rest) ∧ a ++ q :: (s ++ rest) ≠ [] := by
  have hfront : '\n' ∉ a := fun hmem => (ha _ hmem).2.2 rfl
  have hinside : '\n' ∉ s := fun hmem => (hs _ hmem).2.2 rfl
  have hquote : '\n' ≠ q := (hq.ne (by decide)).symm
  simp [hfront, hinside, hquote, hrest]

include hhash

theorem alike_closed (hs' : ∀ c ∈ s', IsContent c) (hhash' : '#' ∉ s') (hb : ∀ c ∈ b, IsPlain c) :
    Alike (a ++ q :: (s ++ q :: b)) (a ++ q :: (s' ++ q :: b)) := by
  have hreturn : q ≠ '\r' := hq.ne (by decide)
  have hrest : '\n' ∉ q :: b := by
    have hback : '\n' ∉ b := fun hmem => (hb _ hmem).2.2 rfl
    have hquote : '\n' ≠ q := (hq.ne (by decide)).symm
    simp [hback, hquote]
  have hreturned : ∀ c ∈ dropReturn b, IsPlain c := fun c hc => hb c (mem_of_mem_dropReturn hc)
  constructor
  · exact notMem_literal hq ha hs hrest
  · exact notMem_literal hq ha hs' hrest
  · rw [definedIn_literal hq hs hrest, definedIn_literal hq hs' hrest]
  · rw [codeOf_closed hq ha hs hhash hb, codeOf_closed hq ha hs' hhash' hb]
  · rw [dropReturn_append_cons hreturn, dropReturn_append_cons hreturn,
      dropReturn_append_cons hreturn, dropReturn_append_cons hreturn,
      codeOf_closed hq ha hs hhash hreturned, codeOf_closed hq ha hs' hhash' hreturned]

theorem alike_cut {rest rest' : List Char} (hrest : '\n' ∉ rest) (hrest' : '\n' ∉ rest') :
    Alike (a ++ q :: (s ++ '#' :: rest)) (a ++ q :: (s ++ '#' :: rest')) := by
  have hreturn : q ≠ '\r' := hq.ne (by decide)
  have hcut : '\n' ∉ '#' :: rest := by simpa using hrest
  have hcut' : '\n' ∉ '#' :: rest' := by simpa using hrest'
  constructor
  · exact notMem_literal hq ha hs hcut
  · exact notMem_literal hq ha hs hcut'
  · rw [definedIn_literal hq hs hcut, definedIn_literal hq hs hcut']
  · rw [codeOf_cut hq ha hs hhash, codeOf_cut hq ha hs hhash]
  · rw [dropReturn_append_cons hreturn, dropReturn_append_cons hreturn,
      dropReturn_append_cons (by decide), dropReturn_append_cons (by decide),
      codeOf_cut hq ha hs hhash, codeOf_cut hq ha hs hhash]

end

/-! ### The references of a text -/

/-- The references of a text that are constants. -/
def constantRefs (content : String) : List Reference :=
  (scan content).filter (·.isKind "constant")

theorem isKind_requirementRef (statement target : List Char) :
    (requirementRef statement target).isKind "constant" = false := by
  unfold requirementRef
  split
  · dsimp only
    split <;> rfl
  · split <;> rfl

theorem constantRefs_eq (content : String) :
    constantRefs content = (constants content.toList).map (.kinded "constant") := by
  have hinj : Function.Injective (Reference.kinded "constant") := fun a b h => by simpa using h
  have hrequired : ((requirement.findAll content.toList).map fun m =>
      requirementRef (m.group 1) (m.group 2)).filter (·.isKind "constant") = [] := by
    simp [List.filter_eq_nil_iff, isKind_requirementRef]
  have hgems : ((pathGem.findAll content.toList).map fun m =>
      gemRef (m.group 1) (m.group 2)).filter (·.isKind "constant") = [] := by
    simp [List.filter_eq_nil_iff, gemRef, Reference.isKind, Reference.kind?]
  have hconstants : ((constants content.toList).map (Reference.kinded "constant")).filter
      (·.isKind "constant") = (constants content.toList).map (.kinded "constant") := by
    simp [List.filter_eq_self, Reference.isKind, Reference.kind?]
  rw [constantRefs, scan, Reference.filter_distinct, List.filter_append, List.filter_append,
    hrequired, hgems, hconstants, List.nil_append, List.nil_append, Ruby.constants_eq,
    Reference.distinct_map_eraseDups, Reference.distinct_map hinj]

/-- A line with a string literal, and the text around it. -/
structure LiteralLine where
  before : String
  front : String
  delimiter : Char
  back : String
  after : String
  starts : before = "" ∨ ∃ b, before = b ++ "\n"
  ends : after = "" ∨ ∃ a, after = "\n" ++ a
  quote : IsQuote delimiter
  front_plain : ∀ c ∈ front.toList, IsPlain c
  back_plain : ∀ c ∈ back.toList, IsPlain c

namespace LiteralLine

def holding (l : LiteralLine) (s : String) : String :=
  l.before ++ (l.front ++ String.singleton l.delimiter ++ s ++ String.singleton l.delimiter ++
    l.back) ++ l.after

/-- The text with this in the literal and a comment from there on. -/
def cutBehind (l : LiteralLine) (s : String) : String :=
  l.before ++ (l.front ++ String.singleton l.delimiter ++ s ++ "#") ++ l.after

theorem constantRefs_congr (l : LiteralLine) {line line' : String}
    (h : Alike line.toList line'.toList) :
    constantRefs (l.before ++ line ++ l.after) = constantRefs (l.before ++ line' ++ l.after) := by
  have hbefore : l.before.toList = [] ∨ ∃ b, l.before.toList = b ++ ['\n'] := by
    rcases l.starts with hb | ⟨b, hb⟩
    · exact .inl (by simp [hb])
    · exact .inr ⟨b.toList, by simp [hb]⟩
  have hafter : l.after.toList = [] ∨ ∃ a, l.after.toList = '\n' :: a := by
    rcases l.ends with ha | ⟨a, ha⟩
    · exact .inl (by simp [ha])
    · exact .inr ⟨a.toList, by simp [ha]⟩
  simp only [constantRefs_eq, String.toList_append, List.append_assoc]
  rw [h.constants_eq hbefore hafter]

/-- Without a `#` in it, a literal does not change which constants a file refers to.  With one, the
    file refers to the same constants as if the line ended there. -/
theorem constantRefs_holding (l : LiteralLine) {s : String} (hs : ∀ c ∈ s.toList, IsContent c) :
    (¬ Holds '#' s → constantRefs (l.holding s) = constantRefs (l.holding "")) ∧
      ∀ s₁ s₂, s = s₁ ++ "#" ++ s₂ → ¬ Holds '#' s₁ →
        constantRefs (l.holding s) = constantRefs (l.cutBehind s₁) := by
  constructor
  · intro hhash
    apply constantRefs_congr
    have hnone : ∀ c ∈ ([] : List Char), IsContent c := by simp
    have halike := alike_closed l.quote l.front_plain hs hhash hnone List.not_mem_nil l.back_plain
    simpa using halike
  · rintro s₁ s₂ rfl hhash
    apply constantRefs_congr
    have hs₁ : ∀ c ∈ s₁.toList, IsContent c := fun c hc => hs c (by simp [hc])
    have hback : '\n' ∉ s₂.toList ++ l.delimiter :: l.back.toList := by
      have hs₂ : '\n' ∉ s₂.toList := fun hmem => (hs '\n' (by simp [hmem])).2.2 rfl
      have hplain : '\n' ∉ l.back.toList := fun hmem => (l.back_plain _ hmem).2.2 rfl
      have hquote : '\n' ≠ l.delimiter := (l.quote.ne (by decide)).symm
      simp [hs₂, hplain, hquote]
    have hend : '\n' ∉ ([] : List Char) := List.not_mem_nil
    have halike := alike_cut l.quote l.front_plain hs₁ hhash hback hend
    simpa using halike

def putsLine : LiteralLine :=
  ⟨"", "puts ", '"', "", "", .inl rfl, .inl rfl, .inl rfl, by simp [IsPlain, IsQuote], by simp⟩

/-- A number sign in a literal lets the words in front of it count as constants. -/
theorem constantRefs_puts :
    constantRefs (putsLine.holding "Foo #1") = constantRefs (putsLine.cutBehind "Foo ") ∧
      constantRefs (putsLine.holding "Foo #1") = [.kinded "constant" "Foo"] ∧
      constantRefs (putsLine.holding "") = [] :=
  ⟨(putsLine.constantRefs_holding (s := "Foo #1") (by simp [IsContent, IsQuote])).2 "Foo " "1"
    (by decide) (by simp [Holds]),
    by decide +kernel, by decide +kernel⟩

end LiteralLine

end SourceWeb.Language.Ruby
