/-
  The alias cache does not show.

  Aliases are remembered for the directory of a file.  Files of one directory have the same aliases,
  since only the directory counts where the nearest configuration file is looked for.
-/
import SourceWeb.Alias.Nearest
import SourceWeb.Proofs.Disk.Lookup

namespace SourceWeb

open SourceWeb.Path

namespace Alias

variable {disk : Disk} {root : Path}

theorem load_eq_of_parent {f g : Path} (hf : disk.isFile f = true) (hg : disk.isFile g = true)
    (h : f.parent? = g.parent?) : load disk root f = load disk root g := by
  have hconfig : configFor disk root f = configFor disk root g := by
    simp only [configFor, Disk.isDir_eq_false_of_isFile hf, Disk.isDir_eq_false_of_isFile hg,
      Bool.false_eq_true, if_false, h]
  rw [load, load, hconfig]

/-- What is remembered was loaded for a file, and stands for its directory. -/
def Loaded (disk : Disk) (root : Path) (cache : Cache) : Prop :=
  ∀ e ∈ cache, ∃ f, f.Tidy ∧ disk.isFile f = true ∧ f.parent? = some e.1 ∧
    e.2 = load disk root f

/-- **The alias cache does not show.**  Whatever was asked before, a file gets the aliases of the
    configuration file next to it. -/
theorem forFile_run {cache : Cache} (hcache : Loaded disk root cache) {f : Path} (hf : f.Tidy)
    (hfile : disk.isFile f = true) :
    ∃ cache', (forFile disk root f).run cache = (load disk root f, cache') ∧
      Loaded disk root cache' := by
  obtain ⟨dir, hparent, hdir⟩ := Disk.exists_parent_of_isFile hf hfile
  simp only [forFile, hparent, Option.getD_some, StateT.run_bind, StateT.run_get, pure_bind]
  cases hfind : cache.find? fun e => e.1.same dir with
  | some e =>
    have hmem : e ∈ cache := List.mem_of_find?_eq_some hfind
    have hsame : e.1.same dir = true := by simpa using List.find?_some hfind
    obtain ⟨g, hg, hgfile, hgparent, hloaded⟩ := hcache e hmem
    have hequal : e.1 = dir := (hg.parent hgparent).eq_of_same hdir hsame
    have hload : load disk root f = e.2 := by
      rw [hloaded, load_eq_of_parent hfile hgfile (by rw [hparent, hgparent, hequal])]
    rw [hload]
    exact ⟨cache, rfl, hcache⟩
  | none =>
    refine ⟨cache ++ [(dir, load disk root f)], rfl, ?_⟩
    intro e he
    rcases List.mem_append.mp he with he | he
    · exact hcache e he
    · rw [List.mem_singleton.mp he]
      exact ⟨f, hf, hfile, hparent, rfl⟩

end Alias

end SourceWeb
