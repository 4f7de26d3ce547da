/-
  Settings that were written are read as what they were.

  The same holds of what is left of the text when keys or whole tables are taken out of it, but for
  the settings that were taken out: these have their defaults.  However many empty lines are left
  between the tables does not matter.
-/
import SourceWeb.Proofs.Toml.Document
import SourceWeb.Settings.Text

namespace SourceWeb.Settings

open SourceWeb.Toml (Setting Tables tableToml spaced)

/-! ### Cutting a text -/

/-- What is kept of a written text: which tables, which of the keys in them, and how many empty
    lines in front of each table and at the end. -/
structure Cut where
  table : String → Bool
  key : String → String → Bool
  gap : String → Nat
  last : Nat

/-- The tables that are kept, with the settings that are. -/
def Cut.tables (c : Cut) (tables : Tables) : Tables :=
  (tables.filter fun t => c.table t.1).map fun t => (t.1, t.2.filter fun p => c.key t.1 p.1)

def Cut.text (c : Cut) (s : Settings) : String :=
  String.ofList (spaced c.gap c.last (c.tables s.tables))

/-- Is the key of the table kept? -/
def Cut.keeps (c : Cut) (table key : String) : Bool :=
  c.table table && c.key table key

/-- Settings on the project with defaults for the keys that are not kept. -/
def keptGeneral (keeps : String → Bool) (g : GeneralSettings) : GeneralSettings :=
  let d : GeneralSettings := {}
  { projectName := if keeps "project_name" then g.projectName else d.projectName
    exclude := if keeps "exclude" then g.exclude else d.exclude
    useGitignore := if keeps "use_gitignore" then g.useGitignore else d.useGitignore
    enableBuiltinIgnore :=
      if keeps "enable_builtin_ignore" then g.enableBuiltinIgnore else d.enableBuiltinIgnore
    canonicalizePaths :=
      if keeps "canonicalize_paths" then g.canonicalizePaths else d.canonicalizePaths }

/-- Settings on the languages with defaults for the keys that are not kept. -/
def keptLanguages (keeps : String → Bool) (l : LanguageSettings) : LanguageSettings :=
  let d : LanguageSettings := {}
  { disabled := if keeps "disabled" then l.disabled else d.disabled }

/-- Settings on what results hold with defaults for the keys that are not kept. -/
def keptOutput (keeps : String → Bool) (o : OutputSettings) : OutputSettings :=
  let d : OutputSettings := {}
  { format := if keeps "format" then o.format else d.format
    includeTree := if keeps "include_tree" then o.includeTree else d.includeTree
    includeProjectRoot :=
      if keeps "include_project_root" then o.includeProjectRoot else d.includeProjectRoot
    includeTimestamp := if keeps "include_timestamp" then o.includeTimestamp else d.includeTimestamp
    jsonMinify := if keeps "json_minify" then o.jsonMinify else d.jsonMinify }

/-- Settings on where results are saved with defaults for the keys that are not kept. -/
def keptSave (keeps : String → Bool) (s : SaveSettings) : SaveSettings :=
  let d : SaveSettings := {}
  { outputDir := if keeps "output_dir" then s.outputDir else d.outputDir
    filenameBase := if keeps "filename_base" then s.filenameBase else d.filenameBase
    extension := if keeps "extension" then s.extension else d.extension }

/-- The settings with defaults for all that is not kept. -/
def Cut.settings (c : Cut) (s : Settings) : Settings where
  general := keptGeneral (c.keeps "general") s.general
  languages := keptLanguages (c.keeps "languages") s.languages
  output := keptOutput (c.keeps "output") s.output
  save := keptSave (c.keeps "save") s.save

def Cut.whole : Cut where
  table _ := true
  key _ _ := true
  gap name := if name = "general" then 0 else 1
  last := 0

theorem tables_whole (tables : Tables) : Cut.whole.tables tables = tables := by
  have hsettings (l : List (String × Setting)) : l.filter (fun _ => true) = l :=
    List.filter_eq_self.mpr fun _ _ => rfl
  have htables : tables.filter (fun _ => true) = tables := List.filter_eq_self.mpr fun _ _ => rfl
  simp only [Cut.tables, Cut.whole, hsettings, htables, List.map_id']

theorem text_whole (s : Settings) : Cut.whole.text s = s.toText := by
  rw [Cut.text, tables_whole]
  simp [toText, Toml.write, tables, spaced, Cut.whole, List.intercalate]

/-! ### Looking up what is kept -/

section

variable {α : Type} {key : String} {p : String → Bool}

theorem lookup_cons_eq (k : String) (a : α) (l : List (String × α)) :
    ((k, a) :: l).lookup key = if key = k then some a else l.lookup key := by
  rw [List.lookup_cons]
  by_cases h : key = k
  · simp [h]
  · simp [h, beq_eq_false_iff_ne.mpr h]

theorem lookup_filter (l : List (String × α)) :
    (l.filter fun m => p m.1).lookup key = if p key then l.lookup key else none := by
  induction l with
  | nil => simp
  | cons m l ih =>
    obtain ⟨k, a⟩ := m
    rw [List.filter_cons, lookup_cons_eq]
    by_cases hk : key = k
    · subst hk
      cases hp : p key
      · simpa [hp] using ih
      · simp
    · cases hp : p k
      · simp [hk, ih]
      · simp [lookup_cons_eq, hk, ih]

theorem lookup_map {β : Type} (f : String → α → β) (l : List (String × α)) :
    (l.map fun m => (m.1, f m.1 m.2)).lookup key = (l.lookup key).map (f key) := by
  induction l with
  | nil => rfl
  | cons m l ih =>
    obtain ⟨k, a⟩ := m
    rw [List.map_cons, lookup_cons_eq, lookup_cons_eq, ih]
    by_cases hk : key = k
    · simp [hk]
    · simp [hk]

end

/-- The members that a table has whose keys `p` are kept. -/
def membersKept (p : String → Bool) (settings : List (String × Setting)) : List (String × Toml) :=
  (settings.filter fun m => p m.1).map fun m => (m.1, m.2.toToml)

theorem lookup_membersKept (p : String → Bool) (settings : List (String × Setting)) (key : String) :
    (membersKept p settings).lookup key =
      if p key then (settings.lookup key).map Setting.toToml else none := by
  rw [membersKept, lookup_map fun _ (v : Setting) => v.toToml, lookup_filter]
  cases p key <;> rfl

section

variable {α : Type} {p : String → Bool} {settings : List (String × Setting)} {key : String}

/-- A setting that was written is read unless its key is dropped. -/
theorem fieldOr_membersKept {v : Setting} {read : Toml → Option α} {a : α} (default : α)
    (hlookup : settings.lookup key = some v) (hread : read v.toToml = some a) :
    fieldOr (membersKept p settings) key read default = some (if p key then a else default) := by
  rw [fieldOr, lookup_membersKept, hlookup]
  cases p key
  · rfl
  · exact hread

theorem fieldOr_str {a : String} (default : String)
    (hlookup : settings.lookup key = some (.str a)) :
    fieldOr (membersKept p settings) key Toml.str? default =
      some (if p key then a else default) :=
  fieldOr_membersKept default hlookup rfl

theorem fieldOr_bool {a : Bool} (default : Bool)
    (hlookup : settings.lookup key = some (.bool a)) :
    fieldOr (membersKept p settings) key Toml.bool? default =
      some (if p key then a else default) :=
  fieldOr_membersKept default hlookup rfl

theorem strs?_arr (items : List String) : Toml.strs? (.arr (items.map .str)) = some items := by
  rw [Toml.strs?, List.mapM_map]
  induction items with
  | nil => rfl
  | cons s items ih => simp [List.mapM_cons, Toml.str?, ih]

theorem fieldOr_strs {a : List String} (default : List String)
    (hlookup : settings.lookup key = some (.strs a)) :
    fieldOr (membersKept p settings) key Toml.strs? default =
      some (if p key then a else default) :=
  fieldOr_membersKept default hlookup (strs?_arr a)

/-- A setting without a value is not written, and is read as having none. -/
theorem fieldOr_optional {o : Option String}
    (hlookup : settings.lookup key = o.map .str) :
    fieldOr (membersKept p settings) key (fun v => v.str?.map some) none =
      some (if p key then o else none) := by
  rw [fieldOr, lookup_membersKept, hlookup]
  cases p key <;> cases o <;> rfl

theorem membersFor_membersKept {fields : List String}
    (h : (settings.map Prod.fst).Sublist fields) :
    membersFor fields (.table (membersKept p settings)) = some (membersKept p settings) := by
  refine if_pos (List.all_eq_true.mpr fun m hm => ?_)
  obtain ⟨m', hm', rfl⟩ := List.mem_map.mp hm
  simpa using h.subset (List.mem_map_of_mem (List.mem_filter.mp hm').1)

end

/-! ### The tables of settings -/

theorem keys_optional (key : String) (o : Option String) :
    ((optional key o).map Prod.fst).Sublist [key] := by
  cases o with
  | none => exact List.nil_sublist _
  | some _ => exact List.Sublist.refl _

theorem lookup_optional (key other : String) (o : Option String) :
    (optional other o).lookup key = if key = other then o.map .str else none := by
  cases o with
  | none => exact (ite_self none).symm
  | some s => exact lookup_cons_eq other (Setting.str s) []

def generalLines (g : GeneralSettings) : List (String × Setting) :=
  optional "project_name" g.projectName ++
  [("exclude", .str g.exclude), ("use_gitignore", .bool g.useGitignore),
    ("enable_builtin_ignore", .bool g.enableBuiltinIgnore),
    ("canonicalize_paths", .bool g.canonicalizePaths)]

theorem keys_generalLines (g : GeneralSettings) :
    ((generalLines g).map Prod.fst).Sublist ["project_name", "exclude", "use_gitignore",
      "enable_builtin_ignore", "canonicalize_paths"] := by
  rw [generalLines, List.map_append]
  exact (keys_optional _ _).append (List.Sublist.refl _)

/-- The lines of the settings on the languages. -/
def languagesLines (l : LanguageSettings) : List (String × Setting) :=
  [("disabled", .strs l.disabled)]

/-- The lines of the settings on what results hold. -/
def outputLines (o : OutputSettings) : List (String × Setting) :=
  [("format", .str o.format), ("include_tree", .bool o.includeTree),
    ("include_project_root", .bool o.includeProjectRoot),
    ("include_timestamp", .bool o.includeTimestamp), ("json_minify", .bool o.jsonMinify)]

/-- The lines of the settings on where results are saved. -/
def saveLines (s : SaveSettings) : List (String × Setting) :=
  [("output_dir", .str s.outputDir)] ++ optional "filename_base" s.filenameBase ++
    optional "extension" s.extension

theorem keys_languagesLines (l : LanguageSettings) :
    ((languagesLines l).map Prod.fst).Sublist ["disabled"] :=
  List.Sublist.refl _

theorem keys_outputLines (o : OutputSettings) :
    ((outputLines o).map Prod.fst).Sublist ["format", "include_tree", "include_project_root",
      "include_timestamp", "json_minify"] :=
  List.Sublist.refl _

theorem keys_saveLines (s : SaveSettings) :
    ((saveLines s).map Prod.fst).Sublist ["output_dir", "filename_base", "extension"] := by
  rw [saveLines, List.map_append, List.map_append]
  exact ((List.Sublist.refl _).append (keys_optional _ _)).append (keys_optional _ _)

theorem tables_eq (s : Settings) :
    s.tables = [("general", generalLines s.general), ("languages", languagesLines s.languages),
      ("output", outputLines s.output), ("save", saveLines s.save)] := rfl

variable {keeps : String → Bool}

theorem readGeneral_membersKept (g : GeneralSettings) :
    readGeneral (.table (membersKept keeps (generalLines g))) = some (keptGeneral keeps g) := by
  have hname : (generalLines g).lookup "project_name" = g.projectName.map .str := by
    simp [generalLines, List.lookup_append, lookup_optional, lookup_cons_eq]
  have hexclude : (generalLines g).lookup "exclude" = some (.str g.exclude) := by
    simp [generalLines, List.lookup_append, lookup_optional]
  have hgitignore : (generalLines g).lookup "use_gitignore" = some (.bool g.useGitignore) := by
    simp [generalLines, List.lookup_append, lookup_optional, lookup_cons_eq]
  have hbuiltin : (generalLines g).lookup "enable_builtin_ignore" =
      some (.bool g.enableBuiltinIgnore) := by
    simp [generalLines, List.lookup_append, lookup_optional, lookup_cons_eq]
  have hpaths : (generalLines g).lookup "canonicalize_paths" =
      some (.bool g.canonicalizePaths) := by
    simp [generalLines, List.lookup_append, lookup_optional, lookup_cons_eq]
  rw [readGeneral, membersFor_membersKept (keys_generalLines g)]
  simp only [Option.bind_eq_bind, Option.bind_some, fieldOr_optional hname, fieldOr_str _ hexclude,
    fieldOr_bool _ hgitignore, fieldOr_bool _ hbuiltin, fieldOr_bool _ hpaths]
  rfl

theorem readLanguages_membersKept (l : LanguageSettings) :
    readLanguages (.table (membersKept keeps (languagesLines l))) =
      some (keptLanguages keeps l) := by
  have hdisabled : (languagesLines l).lookup "disabled" = some (.strs l.disabled) := rfl
  rw [readLanguages, membersFor_membersKept (keys_languagesLines l)]
  simp only [Option.bind_eq_bind, Option.bind_some, fieldOr_strs _ hdisabled]
  rfl

theorem readOutput_membersKept (o : OutputSettings) :
    readOutput (.table (membersKept keeps (outputLines o))) = some (keptOutput keeps o) := by
  have hformat : (outputLines o).lookup "format" = some (.str o.format) := rfl
  have htree : (outputLines o).lookup "include_tree" = some (.bool o.includeTree) := rfl
  have hroot : (outputLines o).lookup "include_project_root" =
      some (.bool o.includeProjectRoot) := rfl
  have htime : (outputLines o).lookup "include_timestamp" = some (.bool o.includeTimestamp) := rfl
  have hminify : (outputLines o).lookup "json_minify" = some (.bool o.jsonMinify) := rfl
  rw [readOutput, membersFor_membersKept (keys_outputLines o)]
  simp only [Option.bind_eq_bind, Option.bind_some, fieldOr_str _ hformat, fieldOr_bool _ htree,
    fieldOr_bool _ hroot, fieldOr_bool _ htime, fieldOr_bool _ hminify]
  rfl

theorem readSave_membersKept (s : SaveSettings) :
    readSave (.table (membersKept keeps (saveLines s))) = some (keptSave keeps s) := by
  have hdir : (saveLines s).lookup "output_dir" = some (.str s.outputDir) := rfl
  have hbase : (saveLines s).lookup "filename_base" = s.filenameBase.map .str := by
    simp [saveLines, List.lookup_append, lookup_optional, lookup_cons_eq]
  have hextension : (saveLines s).lookup "extension" = s.extension.map .str := by
    simp [saveLines, List.lookup_append, lookup_optional, lookup_cons_eq]
  rw [readSave, membersFor_membersKept (keys_saveLines s)]
  simp only [Option.bind_eq_bind, Option.bind_some, fieldOr_str _ hdir, fieldOr_optional hbase,
    fieldOr_optional hextension]
  rfl

/-! ### Whole settings -/

theorem proper_tables (s : Settings) : Tables.Proper s.tables where
  names := show Toml.ProperKeys ["general", "languages", "output", "save"] by decide +kernel
  keys := by
    have hgeneral : Toml.ProperKeys ((generalLines s.general).map Prod.fst) :=
      .sublist (by decide +kernel) (keys_generalLines s.general)
    have hlanguages : Toml.ProperKeys ((languagesLines s.languages).map Prod.fst) :=
      .sublist (by decide +kernel) (keys_languagesLines s.languages)
    have houtput : Toml.ProperKeys ((outputLines s.output).map Prod.fst) :=
      .sublist (by decide +kernel) (keys_outputLines s.output)
    have hsave : Toml.ProperKeys ((saveLines s.save).map Prod.fst) :=
      .sublist (by decide +kernel) (keys_saveLines s.save)
    simp only [tables_eq, List.forall_mem_cons]
    exact ⟨hgeneral, hlanguages, houtput, hsave, by simp⟩

theorem proper_cut {tables : Tables} (h : tables.Proper) (c : Cut) : (c.tables tables).Proper where
  names := by
    refine h.names.sublist ?_
    rw [Cut.tables, List.map_map]
    exact List.filter_sublist.map Prod.fst
  keys := by
    intro t ht
    obtain ⟨t', ht', rfl⟩ := List.mem_map.mp ht
    exact (h.keys t' (List.mem_filter.mp ht').1).sublist (List.filter_sublist.map Prod.fst)

theorem lookup_cut (c : Cut) (tables : Tables) (name : String) :
    ((c.tables tables).map tableToml).lookup name =
      if c.table name then
        (tables.lookup name).map fun lines => .table (membersKept (c.key name) lines)
      else none := by
  have hmap : (c.tables tables).map tableToml =
      (tables.filter fun t => c.table t.1).map fun t =>
        (t.1, .table (membersKept (c.key t.1) t.2)) := by
    rw [Cut.tables, List.map_map]
    rfl
  rw [hmap, lookup_map fun name (lines : List (String × Setting)) =>
    Toml.table (membersKept (c.key name) lines), lookup_filter]
  cases c.table name <;> rfl

/-- A table that was written is read as what was kept of it; without the table nothing was. -/
theorem fieldOr_cut {α : Type} (c : Cut) {tables : Tables} {name : String}
    {lines : List (String × Setting)} {read : Toml → Option α} {kept : (String → Bool) → α}
    (hlookup : tables.lookup name = some lines)
    (hread : ∀ keeps, read (.table (membersKept keeps lines)) = some (kept keeps)) :
    fieldOr ((c.tables tables).map tableToml) name read (kept fun _ => false) =
      some (kept (c.keeps name)) := by
  rw [fieldOr, lookup_cut, hlookup]
  unfold Cut.keeps
  cases c.table name
  · rfl
  · exact hread (c.key name)

theorem ofToml?_cut (c : Cut) (s : Settings) :
    ofToml? (.table ((c.tables s.tables).map tableToml)) = some (c.settings s) := by
  have hmembers : membersFor ["general", "languages", "output", "save"]
      (.table ((c.tables s.tables).map tableToml)) = some ((c.tables s.tables).map tableToml) := by
    refine if_pos (List.all_eq_true.mpr fun m hm => ?_)
    obtain ⟨t, ht, rfl⟩ := List.mem_map.mp hm
    obtain ⟨t', ht', rfl⟩ := List.mem_map.mp ht
    have hname : t'.1 ∈ s.tables.map Prod.fst := List.mem_map_of_mem (List.mem_filter.mp ht').1
    exact List.contains_iff_mem.mpr hname
  have hgeneral : fieldOr ((c.tables s.tables).map tableToml) "general" readGeneral {} =
      some (keptGeneral (c.keeps "general") s.general) :=
    fieldOr_cut c rfl fun _ => readGeneral_membersKept s.general
  have hlanguages : fieldOr ((c.tables s.tables).map tableToml) "languages" readLanguages {} =
      some (keptLanguages (c.keeps "languages") s.languages) :=
    fieldOr_cut c rfl fun _ => readLanguages_membersKept s.languages
  have houtput : fieldOr ((c.tables s.tables).map tableToml) "output" readOutput {} =
      some (keptOutput (c.keeps "output") s.output) :=
    fieldOr_cut c rfl fun _ => readOutput_membersKept s.output
  have hsave : fieldOr ((c.tables s.tables).map tableToml) "save" readSave {} =
      some (keptSave (c.keeps "save") s.save) :=
    fieldOr_cut c rfl fun _ => readSave_membersKept s.save
  rw [ofToml?, hmembers]
  simp only [Option.bind_eq_bind, Option.bind_some, hgeneral, hlanguages, houtput, hsave]
  rfl

/-- Settings that were written are read as what they were, and what is left of the text without
    some of its keys and tables as the settings with defaults in their place. -/
theorem ofText?_toText (s : Settings) :
    ofText? s.toText = some s ∧ ∀ c : Cut, ofText? (c.text s) = some (c.settings s) := by
  have hcut (c : Cut) : ofText? (c.text s) = some (c.settings s) := by
    rw [ofText?, Cut.text, Toml.ofText?_spaced c.gap c.last (proper_cut (proper_tables s) c)]
    exact ofToml?_cut c s
  refine ⟨?_, hcut⟩
  rw [← text_whole, hcut]
  rfl

end SourceWeb.Settings
