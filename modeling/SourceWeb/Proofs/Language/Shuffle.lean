/-
  No language known from the start looks at the order of a directory.

  Most of them only try paths.  Go takes the first source file of a package and Ruby the directories
  within `app`, but both sort them before.
-/
import SourceWeb.Language.Registry
import SourceWeb.Proofs.Disk.Shuffle
import SourceWeb.Proofs.Path.Order

namespace SourceWeb

open SourceWeb.Path

namespace Disk

variable {d d' : Disk}

/-- A directory lists each path in one spelling. -/
theorem eq_of_mem_list (hd : d.Proper) {dir : Path} {ps : List Path} (h : d.list dir = .ok ps)
    {p q : Path} (hp : p ∈ ps) (hq : q ∈ ps) (hsame : p.same q = true) : p = q := by
  obtain ⟨f, hentry, -, rfl⟩ := list_eq_ok_iff.mp h
  obtain ⟨-, loc, -, hat⟩ := entry?_eq_ok.mp hentry
  have hf : f.Proper := (hd.root.of_at? hat).2 f rfl
  obtain ⟨⟨n, e⟩, hn, rfl⟩ := List.mem_map.mp hp
  obtain ⟨⟨n', e'⟩, hn', rfl⟩ := List.mem_map.mp hq
  rw [same_iff, components_child_name _ (hf.of_mem hn).1,
    components_child_name _ (hf.of_mem hn').1] at hsame
  have : n = n' := by simpa using hsame
  rw [this]

/-- What is taken of a directory in the order of paths does not depend on its own order. -/
theorem Shuffle.sort_list (h : d.Shuffle d') (hd : d.Proper) (dir : Path) (keep : Path → Bool) :
    (d.list dir).map (fun ps => sort (ps.filter keep)) =
      (d'.list dir).map fun ps => sort (ps.filter keep) := by
  rcases h.list dir with heq | ⟨ps, ps', hps, hps', hperm⟩
  · rw [heq]
  · rw [hps, hps']
    refine congrArg Except.ok (sort_eq_of_perm (hperm.filter keep) ?_)
    intro p hp q hq
    exact eq_of_mem_list hd hps (List.mem_filter.mp hp).1 (List.mem_filter.mp hq).1

end Disk

/-- Does the answer stay the same on disks that differ only in order? -/
def Disk.Blind {α : Type} (ask : Disk → α) : Prop :=
  ∀ d d' : Disk, d.Proper → d.Shuffle d' → ask d = ask d'

namespace Language

theorem blind_resolverFor {endings : List String} {look : Resolver} (h : Disk.Blind look) :
    Disk.Blind (resolverFor endings look) := by
  intro d d' hd hshuffle
  funext site r
  rw [resolverFor, resolverFor, h d d' hd hshuffle]

theorem blind_resolverOfKind {kind : String} {look : Disk → Site → String → Option Path}
    (h : Disk.Blind look) : Disk.Blind (resolverOfKind kind look) := by
  intro d d' hd hshuffle
  funext site r
  rw [resolverOfKind, resolverOfKind, h d d' hd hshuffle]

theorem JavaScript.blind_resolveModule (endings : List String) :
    Disk.Blind (JavaScript.resolveModule endings) := by
  intro d d' _ h
  have hprobe : JavaScript.probeModule d endings = JavaScript.probeModule d' endings := by
    funext base
    unfold JavaScript.probeModule
    rw [h.tryExtensions]
  funext site r
  cases r with
  | kinded kind value => rfl
  | plain target =>
    simp only [JavaScript.resolveModule, JavaScript.resolveBare, hprobe]

theorem Python.blind_resolve : Disk.Blind Python.resolve := by
  intro d d' _ h
  have hfile : Python.moduleFile d = Python.moduleFile d' := by
    funext base dotted
    unfold Python.moduleFile
    rw [h.existingFile]
  funext site module
  unfold Python.resolve
  rw [hfile]

theorem Ruby.blind_resolve : Disk.Blind Ruby.resolve := by
  intro d d' hd h
  have hfile : Ruby.rubyFile d = Ruby.rubyFile d' := by
    funext base
    unfold Ruby.rubyFile
    rw [h.existingFile]
  have hbases : Ruby.constantBases d = Ruby.constantBases d' := by
    funext root
    have hsort := h.sort_list hd (root.child "app") d.isDir
    unfold Ruby.constantBases
    rw [← h.isDir]
    cases hlist : d.list (root.child "app") <;> cases hlist' : d'.list (root.child "app") <;>
      simp_all [Except.map]
  funext site r
  unfold Ruby.resolve
  rw [hfile, hbases]

theorem Rust.blind_resolve : Disk.Blind Rust.resolve := by
  intro d d' _ h
  have hfile : Rust.moduleFile d = Rust.moduleFile d' := by
    funext dir name
    unfold Rust.moduleFile
    rw [h.existingFile]
  have hsource : Rust.crateSource d = Rust.crateSource d' := by
    funext site
    unfold Rust.crateSource
    rw [h.isFile]
  funext site r
  simp only [Rust.resolve, Rust.resolveMod, Rust.resolveUse, Rust.deepestModule, hfile, hsource]

theorem Go.blind_resolve : Disk.Blind Go.resolve := by
  intro d d' hd h
  have hmodule : Go.enclosingModule d = Go.enclosingModule d' := by
    funext site
    unfold Go.enclosingModule
    rw [h.isFile, h.readText]
  have hpackage : Go.packageFile d = Go.packageFile d' := by
    funext dir
    have hsort := h.sort_list hd dir fun p => d.isFile p && Go.isSource p
    unfold Go.packageFile
    rw [← h.isFile]
    cases hlist : d.list dir <;> cases hlist' : d'.list dir <;>
      simp_all [Except.map, Except.toOption]
  funext site target
  unfold Go.resolve
  rw [hmodule, hpackage]

theorem Java.blind_resolve : Disk.Blind Java.resolve := by
  intro d d' _ h
  have hfile : Java.classFile d = Java.classFile d' := by
    funext site parts
    unfold Java.classFile
    rw [h.existingFile]
  funext site target
  unfold Java.resolve
  rw [hfile]

theorem Php.blind_resolve : Disk.Blind Php.resolve := by
  intro d d' _ h
  have hspaces : Php.nameSpaces d = Php.nameSpaces d' := by
    funext root
    unfold Php.nameSpaces
    rw [h.readText]
  have hfile : Php.spaceFile d = Php.spaceFile d' := by
    funext class_ space
    unfold Php.spaceFile
    rw [h.existingFile]
  have hinclude : Php.resolveInclude d = Php.resolveInclude d' := by
    funext site target
    unfold Php.resolveInclude
    rw [h.existingFile]
  have hclass : Php.resolveClass d = Php.resolveClass d' := by
    funext root class_
    unfold Php.resolveClass
    rw [hspaces, hfile, h.existingFile]
  funext site r
  unfold Php.resolve
  rw [hinclude, hclass]

theorem C.blind_resolve : Disk.Blind C.resolve := by
  intro d d' _ h
  funext site target
  unfold C.resolve
  rw [h.existingFile]

theorem Css.blind_resolve : Disk.Blind Css.resolve := by
  intro d d' _ h
  funext site target
  unfold Css.resolve
  rw [h.existingFile]

theorem Docker.blind_resolve : Disk.Blind Docker.resolve := by
  intro d d' _ h
  funext site target
  unfold Docker.resolve
  rw [h.existingFile]

theorem Html.blind_resolve : Disk.Blind Html.resolve := by
  intro d d' _ h
  funext site target
  unfold Html.resolve
  rw [h.existingFile]

theorem Shell.blind_resolve : Disk.Blind Shell.resolve := by
  intro d d' _ h
  funext site target
  unfold Shell.resolve
  rw [h.existingFile]

end Language

/-- **No language known from the start looks at the order of a directory.** -/
theorem Registry.blind_of_mem_builtinLanguages {l : Language} (h : l ∈ builtinLanguages)
    {look : Resolver} (hlook : l.resolver = some look) : Disk.Blind look := by
  simp only [builtinLanguages, List.mem_cons, List.not_mem_nil, or_false] at h
  rcases h with rfl | rfl | rfl | rfl | rfl | rfl | rfl | rfl | rfl | rfl | rfl | rfl | rfl <;>
    rw [← Option.some.inj hlook] <;>
    refine Language.blind_resolverFor ?_
  · exact Language.JavaScript.blind_resolveModule _
  · exact Language.JavaScript.blind_resolveModule _
  · exact Language.blind_resolverOfKind Language.Python.blind_resolve
  · exact Language.Ruby.blind_resolve
  · exact Language.Rust.blind_resolve
  · exact Language.blind_resolverOfKind Language.Go.blind_resolve
  · exact Language.blind_resolverOfKind Language.C.blind_resolve
  · exact Language.blind_resolverOfKind Language.Css.blind_resolve
  · exact Language.blind_resolverOfKind Language.Java.blind_resolve
  · exact Language.Php.blind_resolve
  · exact Language.blind_resolverOfKind Language.Html.blind_resolve
  · exact Language.blind_resolverOfKind Language.Shell.blind_resolve
  · exact Language.blind_resolverOfKind Language.Docker.blind_resolve

end SourceWeb
