import CodeOutline.Listing.Walk
import CodeOutline.Proofs.Path.Components

/-! # Listed paths

The walk puts names behind the path it was given for its root.  If that path is absolute, so are all
the paths it finds, and they lead to the same files from anywhere.
-/

namespace CodeOutline

theorem Machine.isAbsolute_herePath (machine : Machine) : Path.isAbsolute machine.herePath :=
  Path.isAbsolute_append (by decide) _

namespace Walk

theorem isAbsolute_of_mem_filesBelow {disk : Disk} {here : Place} {depth : Nat} {scope : Scope}
    {path file : String} {place : Place} (habsolute : Path.isAbsolute path)
    (h : file ∈ filesBelow disk here depth scope path place) : Path.isAbsolute file := by
  induction depth generalizing scope path place with
  | zero => cases h
  | succ depth ih =>
    obtain ⟨name, -, hfile⟩ := List.mem_flatMap.mp h
    have hinner := Path.isAbsolute_join habsolute name
    dsimp only at hfile
    split at hfile
    · cases hfile
    · split at hfile
      · cases hfile
      · exact List.mem_singleton.mp hfile ▸ hinner
    · split at hfile
      · cases hfile
      · exact ih hinner hfile

theorem isAbsolute_of_mem_files {machine : Machine} {options : Filter.Options} {file : String}
    (habsolute : Path.isAbsolute options.root) (h : file ∈ files machine options) :
    Path.isAbsolute file := by
  unfold files at h
  split at h
  · cases h
  · exact List.mem_singleton.mp h ▸ habsolute
  · exact isAbsolute_of_mem_filesBelow habsolute h

end Walk

/-- The files below an absolute root have absolute paths. -/
theorem Filter.isAbsolute_of_mem_discover {filter : Filter} {machine : Machine}
    {extensions : List String} {file : String} (habsolute : Path.isAbsolute filter.options.root)
    (h : file ∈ filter.discover machine extensions) : Path.isAbsolute file := by
  have hfound := (List.mem_filter.mp (List.mem_mergeSort.mp h)).1
  exact Walk.isAbsolute_of_mem_files habsolute hfound

end CodeOutline
