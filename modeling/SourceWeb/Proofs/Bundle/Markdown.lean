/-
  Reading a document back from its Markdown.

  The Markdown of a document is a list of lines.  A file may hold any text, also one that looks like
  the document around it, but none of its lines is the fence that it stands in, since this has more
  backticks than the file has anywhere in a row.  So the lines up to the next one that is the fence
  are those of the file, and the document can be taken apart file by file.
-/
import SourceWeb.Bundle.Document
import SourceWeb.Proofs.Text.Split

namespace SourceWeb.Bundle

open SourceWeb.Text

/-! ### What can be read back -/

def completed (content : String) : String :=
  if endsWith "\n" content then content else content ++ "\n"

def File.completed (f : File) : File :=
  { f with content := Bundle.completed f.content }

namespace Document

/-- Does everything in the document that is not the content of a file fit on its line? -/
structure Lined (d : Document) : Prop where
  tree : ∀ drawn, d.tree = some drawn → ∀ l ∈ drawn, ¬ Holds '\n' l ∧ l ≠ "\x60\x60\x60"
  path : ∀ f ∈ d.files, ¬ Holds '\n' f.path
  language : ∀ f ∈ d.files, ¬ Holds '\n' f.language ∧ ¬ Holds '\x60' f.language

/-! ### Reading -/

/-- Reads the drawing of the tree, if the lines begin with one. -/
def readTree : List String → Option (List String) × List String
  | "# Project Tree" :: "" :: "\x60\x60\x60text" :: rest =>
    (some (rest.takeWhile (· ≠ "\x60\x60\x60")), (rest.dropWhile (· ≠ "\x60\x60\x60")).drop 2)
  | ls => (none, ls)

def fenceOf (opening : String) : String :=
  String.ofList (opening.toList.takeWhile (· == '\x60'))

/-- The language behind the fence that a line opens. -/
def languageOf (opening : String) : String :=
  String.ofList (opening.toList.dropWhile (· == '\x60'))

/-- Reads the files.  The line that opens a fence tells what the line looks like that closes it. -/
def readFiles : List String → Option (List File)
  | [""] => some []
  | "" :: heading :: "" :: opening :: rest => do
    let path ← afterStart "## " heading
    let others ← readFiles ((rest.dropWhile (· ≠ fenceOf opening)).drop 1)
    return ⟨path, languageOf opening, unlines (rest.takeWhile (· ≠ fenceOf opening))⟩ :: others
  | _ => none
termination_by ls => ls.length
decreasing_by
  have hle := (List.dropWhile_suffix (l := rest) (· ≠ fenceOf opening)).length_le
  rw [List.length_drop]
  simp only [List.length_cons]
  omega

/-- Reads the drawing of the tree, if there is one, and the files. -/
def ofMarkdown? (text : String) : Option (Option (List String) × List File) :=
  match readTree (splitChar '\n' text) with
  | (tree, "# Codebase" :: rest) => (readFiles rest).map fun files => (tree, files)
  | _ => none

/-! ### The fence -/

theorem le_longestRun (run : Nat) (cs : List Char) : run ≤ longestRun run cs := by
  induction cs generalizing run with
  | nil => exact Nat.le_refl _
  | cons c cs ih =>
    rw [longestRun]
    split
    · exact Nat.le_of_succ_le (ih (run + 1))
    · exact Nat.le_max_left _ _

theorem longestRun_mono {run run' : Nat} (h : run ≤ run') (cs : List Char) :
    longestRun run cs ≤ longestRun run' cs := by
  induction cs generalizing run run' with
  | nil => exact h
  | cons c cs ih =>
    rw [longestRun, longestRun]
    split
    · exact ih (Nat.succ_le_succ h)
    · omega

theorem longestRun_le_cons (run : Nat) (c : Char) (cs : List Char) :
    longestRun 0 cs ≤ longestRun run (c :: cs) := by
  rw [longestRun]
  split
  · exact longestRun_mono (Nat.zero_le _) cs
  · exact Nat.le_max_right _ _

theorem longestRun_replicate_append (run n : Nat) (cs : List Char) :
    longestRun run (List.replicate n '\x60' ++ cs) = longestRun (run + n) cs := by
  induction n generalizing run with
  | zero => rfl
  | succ n ih =>
    rw [List.replicate_succ, List.cons_append, longestRun, if_pos rfl, ih]
    congr 1
    omega

theorem le_longestRun_of_infix {n : Nat} {cs : List Char}
    (h : List.replicate n '\x60' <:+: cs) (run : Nat) : n ≤ longestRun run cs := by
  obtain ⟨before, after, rfl⟩ := h
  induction before generalizing run with
  | nil =>
    rw [List.nil_append, longestRun_replicate_append]
    exact Nat.le_trans (Nat.le_add_left n run) (le_longestRun _ _)
  | cons c before ih => exact Nat.le_trans (ih 0) (longestRun_le_cons run c _)

theorem longestRun_concat_lineFeed (run : Nat) (cs : List Char) :
    longestRun run (cs ++ ['\n']) = longestRun run cs := by
  induction cs generalizing run with
  | nil => simp [longestRun]
  | cons c cs ih => simp only [List.cons_append, longestRun, ih]

theorem longestRun_completed (content : String) :
    longestRun 0 (completed content).toList = longestRun 0 content.toList := by
  unfold completed
  split
  · rfl
  · rw [String.toList_append]
    exact longestRun_concat_lineFeed 0 content.toList

theorem toList_fenceFor (content : String) : ∃ n, longestRun 0 content.toList < n ∧
    (fenceFor content).toList = List.replicate n '\x60' :=
  ⟨max 3 (longestRun 0 content.toList + 1), by omega, String.toList_ofList⟩

/-! ### The lines of a file -/

def contentLines (content : String) : List String :=
  (splitChar '\n' (completed content)).dropLast

theorem exists_completed (content : String) : ∃ s, completed content = s ++ "\n" := by
  unfold completed
  split
  · rename_i h
    exact endsWith_iff.mp h
  · exact ⟨content, rfl⟩

theorem unlines_contentLines (content : String) :
    unlines (contentLines content) = completed content := by
  obtain ⟨s, hs⟩ := exists_completed content
  have hsplit : splitChar '\n' (s ++ "\n") = splitChar '\n' s ++ [""] := by
    have happend := splitChar_append '\n' s ""
    rw [String.append_empty] at happend
    exact happend
  rw [contentLines, hs, hsplit, List.dropLast_concat, unlines_splitChar]

theorem not_holds_of_mem_contentLines {content l : String} (h : l ∈ contentLines content) :
    ¬ Holds '\n' l :=
  not_holds_of_mem_splitChar (List.dropLast_subset _ h)

/-- No line of a content is its fence. -/
theorem ne_fenceFor_of_mem {content l : String} (h : l ∈ contentLines content) :
    l ≠ fenceFor content := by
  -- a line that is the fence would be a longer run than any that the content has
  rintro rfl
  obtain ⟨n, hn, hfence⟩ := toList_fenceFor content
  have hinfix := infix_unlines_of_mem h
  rw [unlines_contentLines, hfence] at hinfix
  have hle := le_longestRun_of_infix hinfix 0
  rw [longestRun_completed] at hle
  omega

/-! ### The lines of a document -/

def fileLines (f : File) : List String :=
  ["", "## " ++ f.path, "", fenceFor f.content ++ f.language] ++ contentLines f.content ++
    [fenceFor f.content]

theorem fileSection_eq (f : File) : fileSection f = unlines (fileLines f) := by
  have hcontent : f.content ++ (if endsWith "\n" f.content then "" else "\n") =
      completed f.content := by
    unfold completed
    split <;> simp
  have hheading : "\n## " = "\n" ++ "## " := by decide
  have hblank : "\n\n" = "\n" ++ "\n" := by decide
  have hsection : fileSection f =
      "\n## " ++ f.path ++ "\n\n" ++ fenceFor f.content ++ f.language ++ "\n" ++ f.content ++
        (if endsWith "\n" f.content then "" else "\n") ++ fenceFor f.content ++ "\n" := rfl
  rw [hsection, fileLines, unlines_append, unlines_append, unlines_contentLines, ← hcontent]
  simp only [hheading, hblank, unlines_cons, unlines_nil, String.append_assoc, String.empty_append,
    String.append_empty]

def treeLines : Option (List String) → List String
  | some drawn => ["# Project Tree", "", "\x60\x60\x60text"] ++ drawn ++ ["\x60\x60\x60", ""]
  | none => []

def markdownLines (d : Document) : List String :=
  treeLines d.tree ++ "# Codebase" :: d.files.flatMap fileLines

theorem treeSection_eq (drawn : List String) :
    treeSection drawn = unlines (treeLines (some drawn)) := by
  have hhead : unlines ["# Project Tree", "", "\x60\x60\x60text"] =
      "# Project Tree\n\n\x60\x60\x60text\n" := by decide
  have htail : unlines ["\x60\x60\x60", ""] = "\x60\x60\x60\n\n" := by decide
  rw [treeLines, unlines_append, unlines_append, hhead, htail]
  rfl

theorem join_map_fileSection (files : List File) :
    String.join (files.map fileSection) = unlines (files.flatMap fileLines) := by
  induction files with
  | nil => rfl
  | cons f files ih =>
    rw [List.map_cons, String.join_cons, List.flatMap_cons, unlines_append, fileSection_eq, ih]

theorem toMarkdown_eq (d : Document) : d.toMarkdown = unlines d.markdownLines := by
  rw [toMarkdown, join_map_fileSection, markdownLines, unlines_append, unlines_cons]
  cases d.tree with
  | none => simp [treeLines]
  | some drawn => simp [treeSection_eq, String.append_assoc]

theorem not_holds_fenceFor (content : String) : ¬ Holds '\n' (fenceFor content) := by
  obtain ⟨n, -, hfence⟩ := toList_fenceFor content
  simp [Holds, hfence]

theorem not_holds_of_mem_fileLines {f : File} (hpath : ¬ Holds '\n' f.path)
    (hlanguage : ¬ Holds '\n' f.language) : ∀ l ∈ fileLines f, ¬ Holds '\n' l := by
  have hheading : ¬ Holds '\n' "## " := by simp [Holds]
  have hbody : ∀ l ∈ contentLines f.content, ¬ Holds '\n' l :=
    fun _ => not_holds_of_mem_contentLines
  simp only [fileLines, List.forall_mem_append, List.forall_mem_cons]
  exact ⟨⟨⟨not_holds_empty, not_holds_append.mpr ⟨hheading, hpath⟩, not_holds_empty,
    not_holds_append.mpr ⟨not_holds_fenceFor _, hlanguage⟩, by simp⟩, hbody⟩,
    not_holds_fenceFor _, by simp⟩

theorem not_holds_of_mem_treeLines {tree : Option (List String)}
    (htree : ∀ drawn, tree = some drawn → ∀ l ∈ drawn, ¬ Holds '\n' l) :
    ∀ l ∈ treeLines tree, ¬ Holds '\n' l := by
  cases tree with
  | none => simp [treeLines]
  | some drawn =>
    simp only [treeLines, List.forall_mem_append]
    exact ⟨⟨by simp [Holds], htree drawn rfl⟩, by simp [Holds]⟩

theorem splitChar_toMarkdown {d : Document} (hd : d.Lined) :
    splitChar '\n' d.toMarkdown = d.markdownLines ++ [""] := by
  have htree : ∀ l ∈ treeLines d.tree, ¬ Holds '\n' l :=
    not_holds_of_mem_treeLines fun drawn h l hl => (hd.tree drawn h l hl).1
  have hfiles : ∀ l ∈ d.files.flatMap fileLines, ¬ Holds '\n' l := by
    intro l hl
    obtain ⟨f, hf, hl⟩ := List.mem_flatMap.mp hl
    exact not_holds_of_mem_fileLines (hd.path f hf) (hd.language f hf).1 l hl
  rw [toMarkdown_eq]
  apply splitChar_unlines
  rw [markdownLines, List.forall_mem_append, List.forall_mem_cons]
  exact ⟨htree, by simp [Holds], hfiles⟩

/-! ### Reading what was written -/

section

variable {fence : String} {body : List String} (h : ∀ l ∈ body, l ≠ fence) (rest : List String)

include h

/-- The lines in a fence are those before the next one that is the fence. -/
theorem takeWhile_fenced : (body ++ fence :: rest).takeWhile (· ≠ fence) = body := by
  rw [List.takeWhile_append_of_pos (by simpa using h), List.takeWhile_cons_of_neg (by simp),
    List.append_nil]

theorem dropWhile_fenced : (body ++ fence :: rest).dropWhile (· ≠ fence) = fence :: rest := by
  rw [List.dropWhile_append_of_pos (by simpa using h), List.dropWhile_cons_of_neg (by simp)]

end

theorem readTree_treeLines {tree : Option (List String)}
    (htree : ∀ drawn, tree = some drawn → ∀ l ∈ drawn, l ≠ "\x60\x60\x60") (rest : List String) :
    readTree (treeLines tree ++ "# Codebase" :: rest) = (tree, "# Codebase" :: rest) := by
  cases tree with
  | none => simp [treeLines, readTree]
  | some drawn =>
    have hdrawn := htree drawn rfl
    simp only [treeLines, List.cons_append, List.nil_append, List.append_assoc, readTree,
      takeWhile_fenced hdrawn, dropWhile_fenced hdrawn]
    rfl

section

variable {fence language : String} (hfence : ∀ c ∈ fence.toList, c = '\x60')
  (hlanguage : ¬ Holds '\x60' language)

include hfence hlanguage

theorem takeWhile_backticks :
    (fence ++ language).toList.takeWhile (· == '\x60') = fence.toList := by
  have hnone : language.toList.takeWhile (· == '\x60') = [] := by
    cases h : language.toList with
    | nil => rfl
    | cons c cs =>
      have hc : c ≠ '\x60' := by
        rintro rfl
        simp [Holds, h] at hlanguage
      simp [hc]
  rw [String.toList_append, List.takeWhile_append_of_pos (by simpa using hfence), hnone,
    List.append_nil]

/-- The line that opens a fence tells the fence and the language. -/
theorem fenceOf_append : fenceOf (fence ++ language) = fence := by
  rw [fenceOf, takeWhile_backticks hfence hlanguage, String.ofList_toList]

theorem languageOf_append : languageOf (fence ++ language) = language := by
  have hsplit := List.takeWhile_append_dropWhile (p := (· == '\x60'))
    (l := (fence ++ language).toList)
  rw [takeWhile_backticks hfence hlanguage, String.toList_append] at hsplit
  rw [languageOf, String.toList_append, List.append_cancel_left hsplit, String.ofList_toList]

end

theorem readFiles_fileLines {f : File} (hlanguage : ¬ Holds '\x60' f.language)
    (rest : List String) :
    readFiles (fileLines f ++ rest) = (readFiles rest).map (f.completed :: ·) := by
  have hfence : ∀ c ∈ (fenceFor f.content).toList, c = '\x60' := by
    obtain ⟨n, -, hn⟩ := toList_fenceFor f.content
    intro c hc
    rw [hn] at hc
    exact List.eq_of_mem_replicate hc
  have hbody : ∀ l ∈ contentLines f.content, l ≠ fenceFor f.content :=
    fun _ => ne_fenceFor_of_mem
  have hlines : fileLines f ++ rest =
      "" :: ("## " ++ f.path) :: "" :: (fenceFor f.content ++ f.language) ::
        (contentLines f.content ++ fenceFor f.content :: rest) := by
    simp [fileLines]
  rw [hlines, readFiles, afterStart_append, fenceOf_append hfence hlanguage,
    languageOf_append hfence hlanguage, takeWhile_fenced hbody, dropWhile_fenced hbody,
    unlines_contentLines, List.drop_one, List.tail_cons]
  cases readFiles rest <;> rfl

theorem readFiles_flatMap {files : List File} (h : ∀ f ∈ files, ¬ Holds '\x60' f.language) :
    readFiles (files.flatMap fileLines ++ [""]) = some (files.map File.completed) := by
  induction files with
  | nil => rw [List.flatMap_nil, List.nil_append, readFiles, List.map_nil]
  | cons f files ih =>
    obtain ⟨hf, hfiles⟩ := List.forall_mem_cons.mp h
    rw [List.flatMap_cons, List.append_assoc, readFiles_fileLines hf, ih hfiles]
    rfl

theorem ofMarkdown?_toMarkdown {d : Document} (hd : d.Lined) :
    ofMarkdown? d.toMarkdown = some (d.tree, d.files.map File.completed) := by
  have htree : ∀ drawn, d.tree = some drawn → ∀ l ∈ drawn, l ≠ "\x60\x60\x60" :=
    fun drawn h l hl => (hd.tree drawn h l hl).2
  have hfiles : ∀ f ∈ d.files, ¬ Holds '\x60' f.language := fun f hf => (hd.language f hf).2
  rw [ofMarkdown?, splitChar_toMarkdown hd, markdownLines, List.append_assoc, List.cons_append,
    readTree_treeLines htree]
  simp only [readFiles_flatMap hfiles]
  rfl

/-- **The Markdown of a document can be read back.**  One reader finds the drawing of the tree, or
    that there is none, and the files with their paths, languages and contents, whatever these hold.
    So documents with the same Markdown keep the same. -/
theorem toMarkdown_readable {d : Document} (hd : d.Lined) :
    ofMarkdown? d.toMarkdown = some (d.tree, d.files.map File.completed) ∧
      ∀ d' : Document, d'.Lined → d'.toMarkdown = d.toMarkdown →
        d'.tree = d.tree ∧ d'.files.map File.completed = d.files.map File.completed := by
  refine ⟨ofMarkdown?_toMarkdown hd, fun d' hd' heq => ?_⟩
  have hread := ofMarkdown?_toMarkdown hd'
  rw [heq, ofMarkdown?_toMarkdown hd, Option.some.injEq, Prod.mk.injEq] at hread
  exact ⟨hread.1.symm, hread.2.symm⟩

/-- A document whose files look like documents, the last of them without a line feed at its end. -/
def nestedDocument : Document where
  projectName := "p"
  projectRoot := none
  generatedAt := none
  tree := some ["p/", "├── ", "├── a.md", "└── b.md"]
  files := [⟨"", "", ""⟩,
    ⟨"a.md", "markdown", "# Codebase\n\n## b.md\n\n\x60\x60\x60\x60text\n\x60\x60\x60\n"⟩,
    ⟨"b.md", "markdown", "\x60\x60\x60\n\x60\x60\x60\n\n\n## c.md"⟩]

theorem nested_readable : nestedDocument.Lined ∧
    ofMarkdown? nestedDocument.toMarkdown =
      some (nestedDocument.tree, nestedDocument.files.map File.completed) ∧
    ∀ d' : Document, d'.Lined → d'.toMarkdown = nestedDocument.toMarkdown →
      d'.tree = nestedDocument.tree ∧
        d'.files.map File.completed = nestedDocument.files.map File.completed := by
  have hlined : nestedDocument.Lined := by
    refine ⟨?_, ?_, ?_⟩
    · intro drawn hdrawn
      obtain rfl := Option.some.inj hdrawn
      simp [Holds]
    · simp [nestedDocument, Holds]
    · simp [nestedDocument, Holds]
  exact ⟨hlined, toMarkdown_readable hlined⟩

end Document

end SourceWeb.Bundle
