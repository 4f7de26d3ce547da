/-
  Scripts that are sourced from the directory of the script.

  The directory is named by a variable, or by `dirname` of the script's own name.  Behind a variable
  the operand goes on, and the file is found to stand beside the script.  In `$(dirname "$0")` there
  is white space, at which the operand is cut; what is left of it names no file.
-/
import Mathlib.Data.Bool.AllAny
import SourceWeb.Proofs.Language.Lines
import SourceWeb.Proofs.Pattern.Preferred

namespace SourceWeb.Language.Shell

open SourceWeb.Text
open SourceWeb.Pattern

/-! ### Operands -/

def operandSet : CharSet :=
  .compl (.union .blank (.oneOf ['"', '\'', ';', '|', '&']))

def IsOperandChar (c : Char) : Prop :=
  operandSet.has c = true

instance (c : Char) : Decidable (IsOperandChar c) :=
  inferInstanceAs (Decidable (_ = true))

def beforeOperand : List Pattern :=
  [gap, alt (letters "source".toList) (letters ".".toList), gap1, optional quote]

theorem sourceLine_eq :
    sourceLine = all (lineStart :: (beforeOperand ++ group 1 (many1 (set operandSet)) :: [])) :=
  rfl

theorem isOperandChar_iff {c : Char} :
    IsOperandChar c ↔ isBlank c = false ∧ c ∉ ['"', '\'', ';', '|', '&'] := by
  simp [IsOperandChar, operandSet, CharSet.has]

theorem IsOperandChar.not_gap {c : Char} (h : IsOperandChar c) : isGap c = false :=
  isGap_eq_false (isOperandChar_iff.mp h).1

theorem IsOperandChar.not_quote {c : Char} (h : IsOperandChar c) :
    (CharSet.oneOf "\"'".toList).has c = false := by
  have hmarks := (isOperandChar_iff.mp h).2
  simp only [List.mem_cons, not_or] at hmarks
  simp [hmarks.1, hmarks.2.1]

theorem takesFirst_keyword {keyword : List Char}
    (h : keyword ∈ ["source".toList, ".".toList]) (a b : List Char) :
    TakesFirst (alt (letters "source".toList) (letters ".".toList)) a keyword b := by
  rcases List.mem_pair.mp h with rfl | rfl
  · exact (takesFirst_letters _ a b).left
  · refine .right (fun n => ?_) (takesFirst_letters _ a b)
    rw [← ways_seq_empty]
    exact ways_letters_eq_nil (by simp)

section

variable {indent keyword space opening operand rest : List Char}
  (hindent : ∀ c ∈ indent, isGap c = true) (hkeyword : keyword ∈ ["source".toList, ".".toList])
  (hspace : space ≠ [] ∧ ∀ c ∈ space, isGap c = true) (hopening : opening = [] ∨ opening = ['"'])
  (hoperand : operand ≠ [] ∧ ∀ c ∈ operand, IsOperandChar c)

include hindent hkeyword hspace hopening hoperand

theorem takesFirst_beforeOperand :
    TakesFirst (all beforeOperand) [] (indent ++ (keyword ++ (space ++ opening)))
      (operand ++ rest) := by
  obtain ⟨c, cs, rfl⟩ := List.exists_cons_of_ne_nil hoperand.1
  have hc : IsOperandChar c := hoperand.2 c (by simp)
  have hkeywordHead : ∀ d ∈ (keyword ++ (space ++ (opening ++ (c :: cs ++ rest)))).head?,
      isGap d = false := by
    rcases List.mem_pair.mp hkeyword with rfl | rfl
    · rintro d ⟨⟩
      decide
    · rintro d ⟨⟩
      decide
  have hspaceEnd : ∀ d ∈ (opening ++ (c :: cs ++ rest)).head?, isGap d = false := by
    rcases hopening with rfl | rfl
    · rintro d ⟨⟩
      exact hc.not_gap
    · rintro d ⟨⟩
      decide
  have hquote : ∀ a, TakesFirst (optional quote) a opening (c :: cs ++ rest) := by
    intro a
    rcases hopening with rfl | rfl
    · refine takesFirst_optional_nil fun n => ways_set_eq_nil ?_
      rintro d ⟨⟩
      exact hc.not_quote
    · exact (takesFirst_set (by decide) a _).optional
  refine TakesFirst.cons (takesFirst_gap hindent ?_ _) <|
    TakesFirst.cons (takesFirst_keyword hkeyword _ _) <|
    TakesFirst.cons (takesFirst_gap1 hspace ?_ _) <| takesFirst_singleton (hquote _)
  · simpa using hkeywordHead
  · simpa using hspaceEnd

/-- The operand is kept up to a character that cannot stand in it. -/
theorem readAll_sourceLine (hrest : ∀ c ∈ rest.head?, ¬ IsOperandChar c) (hline : '\n' ∉ rest)
    {α : Type} (read : Groups → List α) :
    readAll sourceLine read (indent ++ (keyword ++ (space ++ opening)) ++ (operand ++ rest)) =
      read fun j => if 1 = j then some operand else none := by
  have hfeed : '\n' ∉ indent ++ (keyword ++ (space ++ opening)) ++ (operand ++ rest) := by
    have hword : '\n' ∉ keyword := by
      rcases List.mem_pair.mp hkeyword with rfl | rfl <;> decide
    have hquote : '\n' ∉ opening := by
      rcases hopening with rfl | rfl <;> decide
    have hkept : '\n' ∉ operand := fun hmem => absurd (hoperand.2 _ hmem) (by decide)
    simp only [List.mem_append, not_or]
    exact ⟨⟨notMem_of_isGap hindent, hword, notMem_of_isGap hspace.2, hquote⟩, hkept, hline⟩
  have hfront : TakesFirst (all beforeOperand) [] (indent ++ (keyword ++ (space ++ opening)))
      (operand ++ rest) := takesFirst_beforeOperand hindent hkeyword hspace hopening hoperand
  have hend : ∀ c ∈ rest.head?, operandSet.has c = false := fun c hc => by
    simpa [IsOperandChar] using hrest c hc
  have hkept := groups_findAll_line hfront (takesFirst_many1 hoperand.1 hoperand.2 hend _)
    (takesFirst_nil _ _) 1 hoperand.1 hfeed
  rw [readAll, sourceLine_eq, hkept, List.flatMap_singleton]

end

/-! ### The directory of the script -/

/-- The name of a variable: word characters, as far as an operand can have them. -/
structure Variable where
  name : List Char
  ne_nil : name ≠ []
  word : ∀ c ∈ name, isWordChar c = true
  operand : ∀ c ∈ name, IsOperandChar c

/-- A way to name the directory of a script: a variable, with braces around it or without, or
    `dirname` of the script's own name. -/
inductive ScriptDir
  | plain (v : Variable)
  | braced (v : Variable)
  | dirname

namespace ScriptDir

def text : ScriptDir → List Char
  | plain v => '$' :: v.name
  | braced v => '$' :: '\x7b' :: (v.name ++ ['\x7d'])
  | dirname => "$(dirname \"$0\")".toList

theorem text_plain (v : Variable) : text (plain v) = '$' :: v.name :=
  rfl

theorem text_braced (v : Variable) : text (braced v) = '$' :: '\x7b' :: (v.name ++ ['\x7d']) :=
  rfl

theorem text_dirname : text dirname = "$(dirname".toList ++ " \"$0\")".toList :=
  rfl

def variablePattern : Pattern :=
  all [letters ['$'], optional (letters ['\x7b']), many1 (set .word), optional (letters ['\x7d'])]

def dirnamePattern : Pattern :=
  all [letters "$(dirname".toList, many (noneOf ")"), letters [')']]

theorem scriptDir_eq :
    scriptDir = all [place .textStart, alt variablePattern dirnamePattern, letters ['/']] :=
  rfl

theorem takesFirst_name (v : Variable) (a : List Char) {b : List Char}
    (hb : ∀ c ∈ b.head?, isWordChar c = false) : TakesFirst (many1 (set .word)) a v.name b :=
  takesFirst_many1 (s := .word) v.ne_nil v.word hb a

theorem takesFirst_plain (v : Variable) (a b : List Char) :
    TakesFirst variablePattern a ('$' :: v.name) ('/' :: b) := by
  obtain ⟨c, cs, hname⟩ := List.exists_cons_of_ne_nil v.ne_nil
  have hopen : TakesFirst (optional (letters ['\x7b'])) (a ++ ['$']) []
      (v.name ++ [] ++ '/' :: b) := by
    refine takesFirst_optional_nil fun n => ways_cons_eq_nil (ways_set_eq_nil ?_)
    have hc : c ≠ '\x7b' := by
      rintro rfl
      exact absurd (v.word '\x7b' (by simp [hname])) (by decide)
    simpa [hname] using hc
  have hclose : ∀ a', TakesFirst (optional (letters ['\x7d'])) a' [] ('/' :: b) := by
    intro a'
    refine takesFirst_optional_nil fun n => ways_cons_eq_nil (ways_set_eq_nil ?_)
    rintro d ⟨⟩
    decide
  have hword := takesFirst_name v (a ++ ['$']) (b := '/' :: b) (by rintro d ⟨⟩; decide)
  have hall : TakesFirst variablePattern a (['$'] ++ (v.name ++ [])) ('/' :: b) :=
    TakesFirst.cons (takesFirst_letters ['$'] a _) <| TakesFirst.skip hopen <|
      TakesFirst.cons hword <| takesFirst_singleton (hclose _)
  rwa [List.append_nil] at hall

theorem takesFirst_braced (v : Variable) (a b : List Char) :
    TakesFirst variablePattern a ('$' :: '\x7b' :: (v.name ++ ['\x7d'])) ('/' :: b) := by
  have hname := takesFirst_name v (a ++ ['$'] ++ ['\x7b']) (b := ['\x7d'] ++ '/' :: b)
    (by rintro d ⟨⟩; decide)
  have hclose : TakesFirst (optional (letters ['\x7d'])) (a ++ ['$'] ++ ['\x7b'] ++ v.name)
      ['\x7d'] ('/' :: b) := (takesFirst_letters ['\x7d'] _ _).optional
  have hall : TakesFirst variablePattern a (['$'] ++ (['\x7b'] ++ (v.name ++ ['\x7d'])))
      ('/' :: b) :=
    TakesFirst.cons (takesFirst_letters ['$'] a _) <|
      TakesFirst.cons (takesFirst_letters ['\x7b'] _ _).optional <|
      TakesFirst.cons hname <| takesFirst_singleton hclose
  exact hall

/-- An operand that begins with a variable names a file beside the script. -/
theorem operandTarget?_of_takesFirst {dir : List Char}
    (h : ∀ b, TakesFirst variablePattern [] dir ('/' :: b)) (file : List Char) :
    operandTarget? (dir ++ '/' :: file) = some ("./".toList ++ file) := by
  have hstart : TakesFirst (place .textStart) [] [] (dir ++ ['/'] ++ file) :=
    takesFirst_place rfl
  have hdir : TakesFirst (alt variablePattern dirnamePattern) [] dir (['/'] ++ file) :=
    (h file).left
  have hall : TakesFirst scriptDir [] (dir ++ ['/']) file := by
    rw [scriptDir_eq]
    exact TakesFirst.skip hstart <| TakesFirst.cons hdir <|
      takesFirst_singleton (takesFirst_letters ['/'] _ file)
  obtain ⟨found, hfound, hrest⟩ := hall.find?
  rw [List.append_assoc] at hfound
  have hoperand : operandTarget? (dir ++ (['/'] ++ file)) = some ("./".toList ++ found.rest) := by
    rw [operandTarget?, hfound]
  rw [← hrest]
  rwa [← hrest] at hoperand

/-- What `dirname` is cut to is an operand, and names no file. -/
theorem operandTarget?_dirname : operandTarget? "$(dirname".toList = none := by
  decide +kernel

theorem forall_mem_dirname : ∀ c ∈ "$(dirname".toList, IsOperandChar c :=
  List.all_iff_forall_prop.mp (by decide)

theorem forall_mem_plain (v : Variable) : ∀ c ∈ text (plain v), IsOperandChar c := by
  have hdollar : IsOperandChar '$' := by decide
  rw [text_plain, List.forall_mem_cons]
  exact ⟨hdollar, v.operand⟩

theorem forall_mem_braced (v : Variable) : ∀ c ∈ text (braced v), IsOperandChar c := by
  have hmarks : ∀ c ∈ ['$', '\x7b', '\x7d'], IsOperandChar c :=
    List.all_iff_forall_prop.mp (by decide)
  intro c hc
  simp only [text_braced, List.mem_cons, List.mem_append, List.not_mem_nil, or_false] at hc
  rcases hc with rfl | rfl | hc | rfl
  · exact hmarks '$' (by simp)
  · exact hmarks '\x7b' (by simp)
  · exact v.operand c hc
  · exact hmarks '\x7d' (by simp)

theorem operandTarget?_plain (v : Variable) (file : List Char) :
    operandTarget? (text (plain v) ++ '/' :: file) = some ("./".toList ++ file) :=
  operandTarget?_of_takesFirst (takesFirst_plain v []) file

theorem operandTarget?_braced (v : Variable) (file : List Char) :
    operandTarget? (text (braced v) ++ '/' :: file) = some ("./".toList ++ file) :=
  operandTarget?_of_takesFirst (takesFirst_braced v []) file

end ScriptDir

/-! ### Lines -/

/-- A line that sources a file in the directory of the script, in double quotes or bare, and what
    stands behind it. -/
structure SourceLine where
  indent : List Char
  keyword : List Char
  space : List Char
  quoted : Bool
  dir : ScriptDir
  file : List Char
  behind : List Char
  indent_gap : ∀ c ∈ indent, isGap c = true
  keyword_mem : keyword ∈ ["source".toList, ".".toList]
  space_gap : space ≠ [] ∧ ∀ c ∈ space, isGap c = true
  file_operand : ∀ c ∈ file, IsOperandChar c
  behind_line : '\n' ∉ behind
  ends : quoted = false → ∀ c ∈ behind.head?, ¬ IsOperandChar c

namespace SourceLine

/-- The quote around the operand, if there is one. -/
def quotation (l : SourceLine) : List Char :=
  if l.quoted then ['"'] else []

def front (l : SourceLine) : List Char :=
  l.indent ++ (l.keyword ++ (l.space ++ l.quotation))

def text (l : SourceLine) : String :=
  String.ofList (l.front ++ (l.dir.text ++ '/' :: l.file ++ (l.quotation ++ l.behind)))

/-- What the line is found to refer to: the file beside the script, unless `dirname` is asked for
    the directory. -/
def refs (l : SourceLine) : List Reference :=
  match l.dir with
  | .dirname => []
  | _ => [.kinded "source" (String.ofList ("./".toList ++ l.file))]

theorem readAll_front (l : SourceLine) {operand rest : List Char}
    (hoperand : operand ≠ [] ∧ ∀ c ∈ operand, IsOperandChar c)
    (hrest : ∀ c ∈ rest.head?, ¬ IsOperandChar c) (hline : '\n' ∉ rest) :
    readAll sourceLine sourceRefs (l.front ++ (operand ++ rest)) =
      (operandTarget? operand).toList.map fun target =>
        .kinded "source" (String.ofList target) := by
  have hquotation : l.quotation = [] ∨ l.quotation = ['"'] := by
    unfold quotation
    split
    · exact .inr rfl
    · exact .inl rfl
  rw [front, readAll_sourceLine l.indent_gap l.keyword_mem l.space_gap hquotation hoperand hrest
    hline]
  rfl

theorem not_isOperandChar_of_mem_head? (l : SourceLine) :
    ∀ c ∈ (l.quotation ++ l.behind).head?, ¬ IsOperandChar c := by
  unfold quotation
  split
  · rintro c ⟨⟩
    decide
  · rename_i hquoted
    exact l.ends (by simpa using hquoted)

theorem notMem_rest (l : SourceLine) : '\n' ∉ l.quotation ++ l.behind := by
  have hquotation : '\n' ∉ l.quotation := by
    unfold quotation
    split <;> decide
  simp [hquotation, l.behind_line]

/-- An operand that begins with a variable is read to its end. -/
theorem readAll_variable (l : SourceLine) {dir : List Char} (hdir : ∀ c ∈ dir, IsOperandChar c)
    (htarget : operandTarget? (dir ++ '/' :: l.file) = some ("./".toList ++ l.file)) :
    readAll sourceLine sourceRefs
        (l.front ++ (dir ++ '/' :: l.file ++ (l.quotation ++ l.behind))) =
      [.kinded "source" (String.ofList ("./".toList ++ l.file))] := by
  have hoperand : ∀ c ∈ dir ++ '/' :: l.file, IsOperandChar c := by
    rw [List.forall_mem_append, List.forall_mem_cons]
    exact ⟨hdir, by decide, l.file_operand⟩
  rw [l.readAll_front ⟨by simp, hoperand⟩ l.not_isOperandChar_of_mem_head? l.notMem_rest, htarget]
  rfl

theorem readAll_text (l : SourceLine) : readAll sourceLine sourceRefs l.text.toList = l.refs := by
  rw [text, String.toList_ofList]
  cases hdir : l.dir with
  | plain v =>
    rw [l.readAll_variable (ScriptDir.forall_mem_plain v) (ScriptDir.operandTarget?_plain v l.file),
      refs, hdir]
  | braced v =>
    rw [l.readAll_variable (ScriptDir.forall_mem_braced v)
      (ScriptDir.operandTarget?_braced v l.file), refs, hdir]
  | dirname =>
    -- the operand ends at the blank in front of the script's own name
    have hcut : ScriptDir.text .dirname ++ '/' :: l.file ++ (l.quotation ++ l.behind) =
        "$(dirname".toList ++
          (" \"$0\")".toList ++ ('/' :: l.file ++ (l.quotation ++ l.behind))) := by
      rw [ScriptDir.text_dirname, List.append_assoc, List.append_assoc]
    have hline : '\n' ∉ " \"$0\")".toList ++ ('/' :: l.file ++ (l.quotation ++ l.behind)) := by
      have hrest := l.notMem_rest
      rw [List.mem_append, List.mem_append (s := '/' :: l.file), List.mem_cons]
      rintro (hmem | (hmem | hmem) | hmem)
      · exact absurd hmem (by decide)
      · exact absurd hmem (by decide)
      · exact absurd (l.file_operand _ hmem) (by decide)
      · exact hrest hmem
    rw [hcut, l.readAll_front ⟨by decide, ScriptDir.forall_mem_dirname⟩
      (by rintro c ⟨⟩; decide) hline, ScriptDir.operandTarget?_dirname, refs, hdir]
    rfl

theorem distinct_refs (l : SourceLine) : Reference.distinct l.refs = l.refs := by
  unfold refs
  split <;> rfl

/-- **Files beside the script.**  A line that sources a file from the directory of the script refers
    to exactly this file, if the directory is named by a variable, and to nothing if it is asked of
    `dirname`.  In a text it adds these references to those of the lines in front of it and
    behind. -/
theorem scan_text (l : SourceLine) :
    scan l.text = l.refs ∧
      ∀ before after, scan (before ++ "\n" ++ l.text ++ "\n" ++ after) =
        Reference.distinct (scan before ++ l.refs ++ scan after) := by
  have halone : scan l.text = l.refs := by
    rw [scan_shell, readAll_text, distinct_refs]
  have hlines : ∀ a b, scan (a ++ "\n" ++ b) = Reference.distinct (scan a ++ scan b) :=
    scansLines_shell ⟨""⟩
  have hdistinct : ∀ t, Reference.distinct (scan t) = scan t := fun t => by
    rw [scan_shell, Reference.distinct_distinct]
  refine ⟨halone, fun before after => ?_⟩
  have hparts := Reference.distinct_append_distinct (scan before ++ l.refs) (scan after)
  rw [hdistinct] at hparts
  rw [hlines, hlines, halone, hparts]

theorem forall_mem_name : ∀ c ∈ "x.sh".toList, IsOperandChar c :=
  List.all_iff_forall_prop.mp (by decide)

/-- The line `. "$D/x.sh"`, with the directory named in this way. -/
def sourcing (dir : ScriptDir) : SourceLine where
  indent := []
  keyword := ".".toList
  space := [' ']
  quoted := true
  dir := dir
  file := "x.sh".toList
  behind := []
  indent_gap := forall_isGap_nil
  keyword_mem := .tail _ (.head _)
  space_gap := forall_isGap_blank
  file_operand := forall_mem_name
  behind_line := List.not_mem_nil
  ends := fun h => Bool.noConfusion h

/-- Only one of two ways to name the directory leads to the file. -/
theorem scan_sourcing :
    scan ". \"$D/x.sh\"" = [.kinded "source" "./x.sh"] ∧
      scan ". \"$(dirname \"$0\")/x.sh\"" = [] := by
  let d : Variable := ⟨['D'], by simp, List.all_iff_forall_prop.mp (by decide),
    List.all_iff_forall_prop.mp (by decide)⟩
  have hplain : (sourcing (.plain d)).text = ". \"$D/x.sh\"" := by decide +kernel
  have hdirname : (sourcing .dirname).text = ". \"$(dirname \"$0\")/x.sh\"" := by decide +kernel
  constructor
  · rw [← hplain, (sourcing (.plain d)).scan_text.1]
    decide +kernel
  · rw [← hdirname, (sourcing .dirname).scan_text.1]
    rfl

end SourceLine

end SourceWeb.Language.Shell
