/-
  What is left of a text without its comments.

  Every text, well-formed or not, is cut into characters of code, string literals and comments; the
  last literal or comment may be left open.  The comments are taken out and all other pieces are
  left as they are.  Main statement: what is left is cut into just these pieces again.  A slash of
  code has neither a slash nor a star behind it in the text, and what it has behind it is kept with
  it, so no comment comes about where one was taken out.
-/
import Mathlib.Data.List.Flatten
import SourceWeb.Proofs.Alias.Lenient

namespace SourceWeb.Alias

open SourceWeb.Json

/-! ### Pieces -/

/-- A piece of a text: a character of code, or a whole literal or comment with what delimits it. -/
inductive Piece
  | code (c : Char)
  | literal (cs : List Char)
  | comment (cs : List Char)

namespace Piece

def text : Piece → List Char
  | code c => [c]
  | literal cs => cs
  | comment cs => cs

def isKept : Piece → Bool
  | comment _ => false
  | _ => true

end Piece

def joined (ps : List Piece) : List Char :=
  ps.flatMap Piece.text

def withoutComments (ps : List Piece) : List Piece :=
  ps.filter Piece.isKept

/-- Is the text what follows the quote of a literal that is not closed?  No quote stands in it but
    behind a backslash, which may also be its last character. -/
inductive Unclosed : List Char → Prop
  | nil : Unclosed []
  | lone : Unclosed ['\\']
  | plain {c : Char} {cs : List Char} : c ≠ '"' → c ≠ '\\' → Unclosed cs → Unclosed (c :: cs)
  | escaped {c : Char} {cs : List Char} : Unclosed cs → Unclosed ('\\' :: c :: cs)

/-- Does the text start with the two characters that start a comment? -/
def StartsComment (cs : List Char) : Prop :=
  ['/', '/'] <+: cs ∨ ['/', '*'] <+: cs

/-- How a text is cut into pieces.  A literal goes on to the first quote without a backslash before
    it, a comment to the end of its line or to the first end mark; where there is none, they go on
    to the end of the text. -/
inductive Cut : List Piece → List Char → Prop
  | nil : Cut [] []
  | code {c : Char} {cs : List Char} {ps : List Piece} : c ≠ '"' → ¬ StartsComment (c :: cs) →
      Cut ps cs → Cut (.code c :: ps) (c :: cs)
  | literal {raw cs : List Char} {ps : List Piece} : Closed raw → Cut ps cs →
      Cut (.literal ('"' :: (raw ++ ['"'])) :: ps) ('"' :: (raw ++ '"' :: cs))
  | openLiteral {raw : List Char} : Unclosed raw → Cut [.literal ('"' :: raw)] ('"' :: raw)
  | line {body cs : List Char} {ps : List Piece} : '\n' ∉ body → Cut ps ('\n' :: cs) →
      Cut (.comment ('/' :: '/' :: body) :: ps) ('/' :: '/' :: (body ++ '\n' :: cs))
  | lastLine {body : List Char} : '\n' ∉ body →
      Cut [.comment ('/' :: '/' :: body)] ('/' :: '/' :: body)
  | block {body cs : List Char} {ps : List Piece} : ¬ ['*', '/'] <:+: body → Cut ps cs →
      Cut (.comment ('/' :: '*' :: (body ++ ['*', '/'])) :: ps)
        ('/' :: '*' :: (body ++ '*' :: '/' :: cs))
  | openBlock {body : List Char} : ¬ ['*', '/'] <:+: body →
      Cut [.comment ('/' :: '*' :: body)] ('/' :: '*' :: body)

variable {ps qs : List Piece} {cs raw : List Char}

@[simp] theorem joined_nil : joined [] = [] := rfl

@[simp] theorem joined_cons (p : Piece) (ps : List Piece) :
    joined (p :: ps) = p.text ++ joined ps := rfl

@[simp] theorem withoutComments_nil : withoutComments [] = [] := rfl

@[simp] theorem withoutComments_code (c : Char) (ps : List Piece) :
    withoutComments (.code c :: ps) = .code c :: withoutComments ps := rfl

@[simp] theorem withoutComments_literal (cs : List Char) (ps : List Piece) :
    withoutComments (.literal cs :: ps) = .literal cs :: withoutComments ps := rfl

@[simp] theorem withoutComments_comment (cs : List Char) (ps : List Piece) :
    withoutComments (.comment cs :: ps) = withoutComments ps := rfl

/-- The pieces are the text. -/
theorem Cut.joined (h : Cut ps cs) : joined ps = cs := by
  induction h with
  | nil => rfl
  | code _ _ _ ih => simp [ih, Piece.text]
  | literal _ _ ih => simp [ih, Piece.text]
  | openLiteral _ => simp [Piece.text]
  | line _ _ ih => simp [ih, Piece.text]
  | lastLine _ => simp [Piece.text]
  | block _ _ ih => simp [ih, Piece.text]
  | openBlock _ => simp [Piece.text]

/-! ### Every text is cut -/

/-- A literal is closed somewhere, or it is open up to the end. -/
theorem exists_closed_or_unclosed (cs : List Char) :
    (∃ raw rest, cs = raw ++ '"' :: rest ∧ Closed raw) ∨ Unclosed cs := by
  have hquote (cs : List Char) :
      (∃ raw rest, '"' :: cs = raw ++ '"' :: rest ∧ Closed raw) ∨ Unclosed ('"' :: cs) :=
    .inl ⟨[], cs, rfl, .nil⟩
  induction cs using List.twoStepInduction with
  | nil => exact .inr .nil
  | singleton c =>
    by_cases hc : c = '"'
    · exact hc ▸ hquote []
    by_cases hback : c = '\\'
    · exact .inr (hback ▸ .lone)
    · exact .inr (.plain hc hback .nil)
  | cons_cons c d cs ih ih' =>
    by_cases hc : c = '"'
    · exact hc ▸ hquote (d :: cs)
    by_cases hback : c = '\\'
    · -- the next character is taken along, whatever it is
      subst hback
      rcases ih with ⟨raw, rest, rfl, hraw⟩ | hopen
      · exact .inl ⟨'\\' :: d :: raw, rest, rfl, .escaped hraw⟩
      · exact .inr (.escaped hopen)
    · rcases ih' d with ⟨raw, rest, heq, hraw⟩ | hopen
      · exact .inl ⟨c :: raw, rest, congrArg (c :: ·) heq, .plain hc hback hraw⟩
      · exact .inr (.plain hc hback hopen)

/-- What has an end mark in it has a first one. -/
theorem exists_first_end {cs : List Char} (h : ['*', '/'] <:+: cs) :
    ∃ body rest, cs = body ++ '*' :: '/' :: rest ∧ ¬ ['*', '/'] <:+: body := by
  induction cs with
  | nil => simp at h
  | cons c cs ih =>
    by_cases hfirst : ['*', '/'] <+: c :: cs
    · obtain ⟨rest, hrest⟩ := hfirst
      exact ⟨[], rest, hrest.symm, by simp⟩
    · obtain ⟨body, rest, rfl, hbody⟩ := ih ((List.infix_cons_iff.mp h).resolve_left hfirst)
      refine ⟨c :: body, rest, rfl, fun hin => ?_⟩
      rcases List.infix_cons_iff.mp hin with hstart | hin
      · exact hfirst (hstart.trans (List.prefix_append (c :: body) ('*' :: '/' :: rest)))
      · exact hbody hin

theorem exists_cut (cs : List Char) : ∃ ps, Cut ps cs := by
  induction hn : cs.length using Nat.strongRecOn generalizing cs with
  | _ n ih =>
    subst hn
    cases cs with
    | nil => exact ⟨_, .nil⟩
    | cons c cs =>
      by_cases hquote : c = '"'
      · subst hquote
        rcases exists_closed_or_unclosed cs with ⟨raw, rest, rfl, hraw⟩ | hopen
        · obtain ⟨ps, hps⟩ := ih rest.length (by simp; omega) rest rfl
          exact ⟨_, .literal hraw hps⟩
        · exact ⟨_, .openLiteral hopen⟩
      by_cases hcomment : StartsComment (c :: cs)
      · rcases hcomment with ⟨body, hbody⟩ | ⟨body, hbody⟩
        · rw [← hbody] at ih ⊢
          by_cases hline : '\n' ∈ body
          · obtain ⟨first, rest, rfl, hfirst⟩ := List.eq_append_cons_of_mem hline
            obtain ⟨ps, hps⟩ := ih ('\n' :: rest).length (by simp; omega) _ rfl
            exact ⟨_, .line hfirst hps⟩
          · exact ⟨_, .lastLine hline⟩
        · rw [← hbody] at ih ⊢
          by_cases hend : ['*', '/'] <:+: body
          · obtain ⟨inner, rest, rfl, hinner⟩ := exists_first_end hend
            obtain ⟨ps, hps⟩ := ih rest.length (by simp; omega) rest rfl
            exact ⟨_, .block hinner hps⟩
          · exact ⟨_, .openBlock hend⟩
      · obtain ⟨ps, hps⟩ := ih cs.length (by simp) cs rfl
        exact ⟨_, .code hquote hcomment hps⟩

/-! ### Pieces that are kept -/

theorem startsComment_cons {c : Char} :
    StartsComment (c :: cs) ↔ c = '/' ∧ (cs.head? = some '/' ∨ cs.head? = some '*') := by
  cases cs with
  | nil => simp [StartsComment]
  | cons d cs => simp [StartsComment, ← and_or_left, eq_comm]

/-- A text that starts with no comment still starts alike without its comments. -/
theorem Cut.head?_withoutComments (h : Cut ps cs) (hslash : cs.head? ≠ some '/') :
    (Alias.joined (withoutComments ps)).head? = cs.head? := by
  cases h with
  | nil => rfl
  | code _ _ _ => rfl
  | literal _ _ => rfl
  | openLiteral _ => rfl
  | line _ _ => exact absurd rfl hslash
  | lastLine _ => exact absurd rfl hslash
  | block _ _ => exact absurd rfl hslash
  | openBlock _ => exact absurd rfl hslash

/-- The text of the pieces that are no comments is cut into just these: no comment comes about. -/
theorem Cut.withoutComments (h : Cut ps cs) :
    Cut (withoutComments ps) (Alias.joined (withoutComments ps)) := by
  induction h with
  | nil => exact .nil
  | @code c cs ps hquote hcomment hps ih =>
    refine .code hquote (fun hstarts => ?_) ih
    obtain ⟨rfl, hnext⟩ := startsComment_cons.mp hstarts
    have hcs : ¬ (cs.head? = some '/' ∨ cs.head? = some '*') := fun hcs =>
      hcomment (startsComment_cons.mpr ⟨rfl, hcs⟩)
    have hhead := hps.head?_withoutComments fun hslash => hcs (.inl hslash)
    exact hcs (hhead ▸ hnext)
  | literal hraw _ ih => simpa [Piece.text] using Cut.literal hraw ih
  | openLiteral hopen => simpa [Piece.text] using Cut.openLiteral hopen
  | line _ _ ih => exact ih
  | lastLine _ => exact .nil
  | block _ _ ih => exact ih
  | openBlock _ => exact .nil

/-! ### What is taken out -/

theorem stripFrom_unclosed (h : Unclosed raw) : stripFrom .string raw = raw := by
  induction h with
  | nil => rfl
  | lone => simp [stripFrom]
  | plain hquote hback _ ih => simp [stripFrom, ih]
  | escaped _ ih => simp [stripFrom, ih]

theorem stripFrom_code {c : Char} (hquote : c ≠ '"') (h : ¬ StartsComment (c :: cs)) :
    stripFrom .code (c :: cs) = c :: stripFrom .code cs := by
  rw [startsComment_cons] at h
  rw [stripFrom]
  · exact hquote
  · rintro cs rfl rfl
    exact h ⟨rfl, .inl rfl⟩
  · rintro cs rfl rfl
    exact h ⟨rfl, .inr rfl⟩

theorem stripFrom_lastLine {body : List Char} (h : '\n' ∉ body) :
    stripFrom .lineComment body = [] := by
  have hend := stripFrom_inLine h []
  rwa [List.append_nil] at hend

theorem stripFrom_openBlock {body : List Char} {last : Char}
    (h : ¬ ['*', '/'] <:+: last :: body) : stripFrom (.blockComment last) body = [] := by
  have hend := stripFrom_inBlock h []
  rwa [List.append_nil] at hend

/-- A comment is no shorter than both its marks: what starts it is no part of its end. -/
theorem not_infix_start {body : List Char} (h : ¬ ['*', '/'] <:+: body) :
    ¬ ['*', '/'] <:+: '\x00' :: body := fun hin =>
  (List.infix_cons_iff.mp hin).elim (by simp) h

/-- The comments are taken out, and nothing else. -/
theorem Cut.stripFrom (h : Cut ps cs) :
    Alias.stripFrom .code cs = Alias.joined (Alias.withoutComments ps) := by
  induction h with
  | nil => rfl
  | code hquote hcomment _ ih =>
    rw [stripFrom_code hquote hcomment, ih]
    rfl
  | literal hraw _ ih =>
    rw [Alias.stripFrom, stripFrom_string hraw, ih]
    simp [Piece.text]
  | openLiteral hopen =>
    rw [Alias.stripFrom, stripFrom_unclosed hopen]
    simp [Piece.text]
  | line hbody _ ih =>
    rw [Alias.stripFrom, stripFrom_line hbody,
      ← stripFrom_code (by decide) (by simp [startsComment_cons]), ih]
    rfl
  | lastLine hbody =>
    rw [Alias.stripFrom, stripFrom_lastLine hbody]
    rfl
  | block hbody _ ih =>
    rw [Alias.stripFrom, stripFrom_block (not_infix_start hbody), ih]
    rfl
  | openBlock hbody =>
    rw [Alias.stripFrom, stripFrom_openBlock (not_infix_start hbody)]
    rfl

/-! ### Slashes that are left -/

/-- Where one more character takes a reader who knows of no comments. -/
def quoteStep : Place → Char → Place
  | .code, '"' => .string
  | .string, '"' => .code
  | .string, '\\' => .escaped
  | .escaped, _ => .string
  | p, _ => p

/-- Is a literal open behind the text, if nothing in it is taken for a comment? -/
def InLiteral (before : List Char) : Prop :=
  before.foldl quoteStep .code ≠ .code

theorem Unclosed.of_append {a b : List Char} (h : Unclosed (a ++ b)) : Unclosed a := by
  generalize hcs : a ++ b = cs at h
  induction h generalizing a with
  | nil =>
    obtain ⟨rfl, -⟩ := List.append_eq_nil_iff.mp hcs
    exact .nil
  | lone =>
    rcases List.append_eq_singleton_iff.mp hcs with ⟨rfl, -⟩ | ⟨rfl, -⟩
    · exact .nil
    · exact .lone
  | plain hquote hback _ ih =>
    cases a with
    | nil => exact .nil
    | cons d a =>
      obtain ⟨rfl, hrest⟩ := List.cons.inj hcs
      exact .plain hquote hback (ih hrest)
  | escaped _ ih =>
    match a with
    | [] => exact .nil
    | [d] =>
      obtain ⟨rfl, -⟩ := List.cons.inj hcs
      exact .lone
    | d :: e :: a =>
      obtain ⟨rfl, htail⟩ := List.cons.inj hcs
      exact .escaped (ih (List.cons.inj htail).2)

theorem unclosed_of_closed (h : Closed raw) : Unclosed raw := by
  induction h with
  | nil => exact .nil
  | plain hquote hback _ ih => exact .plain hquote hback ih
  | escaped _ ih => exact .escaped ih

/-- No beginning of what follows the quote of a literal leads out of it. -/
theorem inLiteral_of_unclosed (h : Unclosed raw) : InLiteral ('"' :: raw) := by
  rw [InLiteral, List.foldl_cons, quoteStep]
  induction h with
  | nil => decide
  | lone => decide
  | plain hquote hback _ ih => simpa [quoteStep, hquote, hback] using ih
  | escaped _ ih => simpa [quoteStep] using ih

theorem foldl_closed (h : Closed raw) : raw.foldl quoteStep .string = .string := by
  induction h with
  | nil => rfl
  | plain hquote hback _ ih => simpa [quoteStep, hquote, hback] using ih
  | escaped _ ih => simpa [quoteStep] using ih

/-- Where no piece is a comment, what looks like the start of one stands in a literal. -/
theorem Cut.inLiteral (h : Cut ps cs) (hkept : ∀ text, .comment text ∉ ps) {a b : List Char}
    {c : Char} (heq : cs = a ++ '/' :: c :: b) (hc : c = '/' ∨ c = '*') : InLiteral a := by
  induction h generalizing a with
  | nil => simp at heq
  | @code d cs ps hquote hcomment _ ih =>
    cases a with
    | nil =>
      obtain ⟨rfl, rfl⟩ := List.cons.inj heq
      exact absurd (startsComment_cons.mpr ⟨rfl, by simpa using hc⟩) hcomment
    | cons e a =>
      obtain ⟨rfl, rfl⟩ := List.cons.inj heq
      have hstep : quoteStep .code d = .code := by simp [quoteStep, hquote]
      have hrest := ih (fun text hin => hkept text (by simp [hin])) rfl
      rwa [InLiteral, List.foldl_cons, hstep]
  | @literal raw cs ps hraw _ ih =>
    cases a with
    | nil => simp at heq
    | cons d a =>
      obtain ⟨rfl, hraws⟩ := List.cons.inj heq
      rcases List.append_eq_append_iff.mp hraws with ⟨more, rfl, hmore⟩ | ⟨more, rfl, -⟩
      · cases more with
        | nil => simp at hmore
        | cons d more =>
          obtain ⟨rfl, rfl⟩ := List.cons.inj hmore
          have hrest := ih (fun text hin => hkept text (by simp [hin])) rfl
          rw [InLiteral, List.foldl_cons, List.foldl_append, quoteStep, foldl_closed hraw]
          exact hrest
      · exact inLiteral_of_unclosed (unclosed_of_closed hraw).of_append
  | openLiteral hopen =>
    cases a with
    | nil => simp at heq
    | cons d a =>
      obtain ⟨rfl, rfl⟩ := List.cons.inj heq
      exact inLiteral_of_unclosed hopen.of_append
  | line _ _ _ => exact absurd List.mem_cons_self (hkept _)
  | lastLine _ => exact absurd List.mem_cons_self (hkept _)
  | block _ _ _ => exact absurd List.mem_cons_self (hkept _)
  | openBlock _ => exact absurd List.mem_cons_self (hkept _)

/-- **Taking comments out is exact, whatever the text.**  Doing it again changes nothing; nothing
    is added; the text is cut into pieces, of which just the comments are missing, so every literal
    outside of comments is there as it was written; and where what is left has two characters that
    start comments, they stand in a literal. -/
theorem stripComments_exact (t : String) :
    stripComments (stripComments t) = stripComments t ∧
    (stripComments t).toList.Sublist t.toList ∧
    (∃ ps, Cut ps t.toList) ∧
    (∀ ps, Cut ps t.toList → joined ps = t.toList ∧
      joined (withoutComments ps) = (stripComments t).toList ∧
      Cut (withoutComments ps) (stripComments t).toList) ∧
    ∀ a c b, (stripComments t).toList = a ++ '/' :: c :: b → c = '/' ∨ c = '*' →
      InLiteral a := by
  have hstrip (ps) (hps : Cut ps t.toList) :
      (stripComments t).toList = joined (withoutComments ps) := by
    rw [stripComments, String.toList_ofList, hps.stripFrom]
  obtain ⟨ps, hps⟩ := exists_cut t.toList
  have hkept := hps.withoutComments
  refine ⟨?_, ?_, ⟨ps, hps⟩, fun qs hqs => ⟨hqs.joined, (hstrip qs hqs).symm, ?_⟩, ?_⟩
  · have hself : withoutComments (withoutComments ps) = withoutComments ps := by
      simp [withoutComments]
    rw [stripComments, hstrip ps hps, hkept.stripFrom, hself, ← hstrip ps hps,
      String.ofList_toList]
  · rw [hstrip ps hps, ← hps.joined]
    exact List.filter_sublist.flatMap Piece.text
  · rw [hstrip qs hqs]
    exact hqs.withoutComments
  · intro a c b heq hc
    rw [hstrip ps hps] at heq
    exact hkept.inLiteral (by simp [withoutComments, Piece.isKept]) heq hc

end SourceWeb.Alias
