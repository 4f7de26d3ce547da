/-
  Languages whose references stand on one line each.

  The patterns of these languages take no line feed and ask nothing about another line, so what they
  find in a text is what they find in its lines, in their order.  The references of a file are those
  of its lines without repetition: no line, however it is broken off, hides, adds or changes a
  reference of another line.
-/
import SourceWeb.Proofs.Pattern.Lines
import SourceWeb.Proofs.Reference
import SourceWeb.Proofs.Text.Split
import SourceWeb.Language.C
import SourceWeb.Language.Docker
import SourceWeb.Language.Java
import SourceWeb.Language.Python
import SourceWeb.Language.Shell

namespace SourceWeb.Language

open SourceWeb.Text
open SourceWeb.Pattern

/-! ### Reading what the matches keep -/

/-- The groups of a match, by their numbers. -/
abbrev Groups := Nat → Option (List Char)

/-- All that is read off the matches of a pattern, one after the other. -/
def readAll {α : Type} (p : Pattern) (read : Groups → List α) (text : List Char) : List α :=
  ((p.findAll text).map Match.group?).flatMap read

theorem readAll_append {α : Type} {p : Pattern} (hp : p.keepsOff '\n' = true)
    (hcount : p.uncounted = true) (read : Groups → List α) (a b : List Char) :
    readAll p read (a ++ '\n' :: b) = readAll p read a ++ readAll p read b := by
  rw [readAll, groups_findAll_append hp hcount, List.flatMap_append]
  rfl

theorem readAll_map {α β : Type} (p : Pattern) (read : Groups → List α) (f : α → β)
    (text : List Char) :
    (readAll p read text).map f = readAll p (fun kept => (read kept).map f) text :=
  List.map_flatMap

/-- The text under the number 1, as `captured` keeps it. -/
def capturedText (kept : Groups) : List String :=
  (((kept 1).toList.map trim).filter fun t => !t.isEmpty).map String.ofList

theorem captured_eq (p : Pattern) (text : List Char) :
    captured p text = (readAll p capturedText text).eraseDups := by
  unfold captured readAll capturedText
  simp only [List.filterMap_eq_flatMap_toList, List.map_flatMap, List.filter_flatMap,
    List.flatMap_map]

/-! ### Scanning by lines -/

/-- Does a text give the references of its first lines, then those of its last lines? -/
def ScansLines (l : Language) : Prop :=
  ∀ path a b, l.scan path (a ++ "\n" ++ b) = Reference.distinct (l.scan path a ++ l.scan path b)

theorem toList_append_line (a b : String) :
    (a ++ "\n" ++ b).toList = a.toList ++ '\n' :: b.toList := by
  simp

theorem scansLines_of_readAll {l : Language} {p : Pattern} (hp : p.keepsOff '\n' = true)
    (hcount : p.uncounted = true) (read : Groups → List Reference)
    (hscan : ∀ path t, l.scan path t = Reference.distinct (readAll p read t.toList)) :
    ScansLines l := by
  intro path a b
  rw [hscan, hscan, hscan, toList_append_line, readAll_append hp hcount,
    Reference.distinct_append_distinct]

theorem scansLines_cFamily : ScansLines cFamily := by
  apply scansLines_of_readAll (p := C.localInclude) (by decide +kernel) (by decide +kernel)
    fun kept => (capturedText kept).map (.kinded "include")
  intro path t
  have hinj : Function.Injective (Reference.kinded "include") := fun a b h => by simpa using h
  rw [← readAll_map, Reference.distinct_map hinj, ← captured_eq]
  rfl

theorem scansLines_java : ScansLines java := by
  apply scansLines_of_readAll (p := Java.importLine) (by decide +kernel) (by decide +kernel)
    fun kept => (capturedText kept).map fun name => .kinded "import" (dropTrailing '.' name)
  intro path t
  rw [← readAll_map, ← Reference.distinct_map_eraseDups, ← captured_eq]
  rfl

/-- What a line of a shell script refers to, by the operand that was kept. -/
def sourceRefs (kept : Groups) : List Reference :=
  (Shell.operandTarget? ((kept 1).getD [])).toList.map fun target =>
    .kinded "source" (String.ofList target)

theorem scan_shell (t : String) :
    Shell.scan t = Reference.distinct (readAll Shell.sourceLine sourceRefs t.toList) := by
  have hread : sourceRefs = fun kept => ((Shell.operandTarget? ((kept 1).getD [])).toList).map
      fun target => .kinded "source" (String.ofList target) := rfl
  rw [hread, ← readAll_map, readAll, List.flatMap_map]
  exact congrArg _ (congrArg _ (List.filterMap_eq_flatMap_toList _ _))

theorem scansLines_shell : ScansLines shell :=
  scansLines_of_readAll (p := Shell.sourceLine) (by decide +kernel) (by decide +kernel) sourceRefs
    fun _ => scan_shell

/-- What an instruction of a Dockerfile refers to, by the operands that were kept. -/
def copyRefs (kept : Groups) : List Reference :=
  (Docker.sourcesOf ((kept 1).getD [])).map fun s => .kinded "copy" (String.ofList s)

theorem scan_docker (t : String) :
    Docker.scan t = Reference.distinct (readAll Docker.copyLine copyRefs t.toList) := by
  have hread : copyRefs = fun kept => (Docker.sourcesOf ((kept 1).getD [])).map
      fun s => .kinded "copy" (String.ofList s) := rfl
  rw [hread, ← readAll_map, readAll, List.flatMap_map]
  rfl

theorem scansLines_docker : ScansLines docker :=
  scansLines_of_readAll (p := Docker.copyLine) (by decide +kernel) (by decide +kernel) copyRefs
    fun _ => scan_docker

/-- What `import` lines refer to is listed before what `from` lines refer to, so that the lines of a
    text are not scanned one after the other; they are scanned each by itself. -/
theorem mem_scan_python (path : Path) (a b : String) (r : Reference) :
    r ∈ python.scan path (a ++ "\n" ++ b) ↔ r ∈ python.scan path a ∨ r ∈ python.scan path b := by
  have hscan : ∀ t, python.scan path t = Reference.distinct
      (readAll Python.importLine
        (fun kept => (Python.namesOf ((kept 1).getD [])).map Python.moduleRef) t.toList ++
      readAll Python.fromLine
        (fun kept => Python.fromRefs ((kept 1).getD []) ((kept 2).getD [])) t.toList) := by
    intro t
    rw [readAll, readAll, List.flatMap_map, List.flatMap_map]
    rfl
  rw [hscan, hscan, hscan, toList_append_line,
    readAll_append (p := Python.importLine) (by decide +kernel) (by decide +kernel),
    readAll_append (p := Python.fromLine) (by decide +kernel) (by decide +kernel)]
  simp only [Reference.mem_distinct, List.mem_append]
  exact or_or_or_comm

/-- No line hides, adds or changes what another line refers to. -/
theorem scan_line_by_line :
    ScansLines cFamily ∧ ScansLines java ∧ ScansLines shell ∧ ScansLines docker ∧
      ∀ path a b r, r ∈ python.scan path (a ++ "\n" ++ b) ↔
        r ∈ python.scan path a ∨ r ∈ python.scan path b :=
  ⟨scansLines_cFamily, scansLines_java, scansLines_shell, scansLines_docker, mem_scan_python⟩

theorem ScansLines.mem_scan {l : Language} (h : ScansLines l) (path : Path) (a b : String)
    (r : Reference) :
    r ∈ l.scan path (a ++ "\n" ++ b) ↔ r ∈ l.scan path a ∨ r ∈ l.scan path b := by
  rw [h, Reference.mem_distinct, List.mem_append]

theorem mem_scan_append_line {l : Language} (hl : l ∈ [cFamily, java, shell, docker, python])
    (path : Path) (a b : String) (r : Reference) :
    r ∈ l.scan path (a ++ "\n" ++ b) ↔ r ∈ l.scan path a ∨ r ∈ l.scan path b := by
  simp only [List.mem_cons, List.not_mem_nil, or_false] at hl
  rcases hl with rfl | rfl | rfl | rfl | rfl
  · exact scansLines_cFamily.mem_scan path a b r
  · exact scansLines_java.mem_scan path a b r
  · exact scansLines_shell.mem_scan path a b r
  · exact scansLines_docker.mem_scan path a b r
  · exact mem_scan_python path a b r

/-- A file refers to what one of its lines refers to. -/
theorem mem_scan_iff_line {l : Language} (hl : l ∈ [cFamily, java, shell, docker, python])
    (path : Path) (content : String) (r : Reference) :
    r ∈ l.scan path content ↔ ∃ line ∈ splitChar '\n' content, r ∈ l.scan path line := by
  have hlines : ∀ first rest, r ∈ l.scan path ("\n".intercalate (first :: rest)) ↔
      ∃ line ∈ first :: rest, r ∈ l.scan path line := by
    intro first rest
    induction rest generalizing first with
    | nil => simp
    | cons second rest ih =>
      rw [String.intercalate_cons_cons, mem_scan_append_line hl, ih,
        List.exists_mem_cons_iff (fun line => r ∈ l.scan path line) first]
  obtain ⟨first, rest, hsplit⟩ := List.exists_cons_of_ne_nil (splitChar_ne_nil '\n' content)
  have hcontent : "\n".intercalate (first :: rest) = content :=
    hsplit ▸ intercalate_splitChar '\n' content
  rw [hsplit, ← hlines, hcontent]

end SourceWeb.Language
