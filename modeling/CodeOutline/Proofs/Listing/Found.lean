import CodeOutline.Listing.Walk
import CodeOutline.Proofs.Disk.Access
import CodeOutline.Proofs.Path.Order
import Mathlib.Data.List.Nodup

/-! # What the walk finds

The walk goes down from folder to folder by the names it finds in them.  A `Descent` is such a way down,
and everything that is known about a file of the listing comes from the descent that leads to it: its
path has the components of the root and the names of the descent, and from wherever the root was found
the names lead to the file.  Ignore rules only make the walk find less, so that they play no part here.

No two descents have the same names, so that no path is found twice.
-/

namespace CodeOutline

/-! ## Distinct names -/

theorem nodup_eraseDups {α : Type} [BEq α] [LawfulBEq α] : ∀ xs : List α, xs.eraseDups.Nodup
  | [] => List.nodup_nil
  | x :: xs => by
    rw [List.eraseDups_cons, List.nodup_cons]
    refine ⟨?_, nodup_eraseDups _⟩
    simp [List.mem_eraseDups]
termination_by xs => xs.length
decreasing_by exact Nat.lt_succ_of_le (List.length_filter_le _ _)

theorem Disk.nodup_names (disk : Disk) (folder : Place) : (disk.names folder).Nodup :=
  (List.mergeSort_perm _ _).nodup_iff.mpr (nodup_eraseDups _)

namespace Walk

/-! ## Descents -/

/-- The names lead from the folder with the given path and place down to `file`. -/
inductive Descent (disk : Disk) : String → Place → List String → String → Prop where
  | done (path : String) (place : Place) : Descent disk path place [] path
  | into {path name file : String} {place : Place} {names : List String} :
      disk.item? place = some .folder → name ∈ disk.names place →
      Descent disk (Path.join path name) (place ++ [name]) names file →
      Descent disk path place (name :: names) file

section Descents

variable {disk : Disk} {path file : String} {place : Place} {names : List String}

theorem join_ne_empty {name : String} (hpath : path ≠ "") (hname : name ∈ disk.names place) :
    Path.join path name ≠ "" := by
  intro hempty
  have hcomponents := Path.components_join_name hpath (Disk.isName_of_mem_names hname).1
  rw [hempty] at hcomponents
  exact absurd (congrArg List.length hcomponents) (by simp [Path.components, Path.pieces,
    Path.front?, Text.splitOnChar, Path.pieceComponent?])

theorem Descent.components (h : Descent disk path place names file) (hpath : path ≠ "") :
    Path.components file = Path.components path ++ names.map .name := by
  induction h with
  | done => simp
  | into _ hname _ ih =>
    rw [ih (join_ne_empty hpath hname),
      Path.components_join_name hpath (Disk.isName_of_mem_names hname).1]
    simp

theorem Descent.ne_empty (h : Descent disk path place names file) (hpath : path ≠ "") :
    file ≠ "" := by
  induction h with
  | done => exact hpath
  | into _ hname _ ih => exact ih (join_ne_empty hpath hname)

theorem Descent.zero_not_mem (h : Descent disk path place names file)
    (hpath : '\x00' ∉ path.toList) : '\x00' ∉ file.toList := by
  induction h with
  | done => exact hpath
  | into _ hname _ ih =>
    have hzero := (Disk.isName_of_mem_names hname).2.1
    apply ih
    unfold Path.join
    split
    · exact hzero
    · split <;> simp [hpath, hzero]

theorem Descent.follow (h : Descent disk path place names file) {here : Place} (hpath : path ≠ "")
    (hfollow : disk.follow (Disk.origin here path) (Path.pieces path.toList) = .ok place) :
    disk.follow (Disk.origin here file) (Path.pieces file.toList) = .ok (place ++ names) := by
  induction h with
  | done => simpa using hfollow
  | into hfolder hname _ ih =>
    obtain ⟨hisName, -, hsize⟩ := Disk.isName_of_mem_names hname
    rw [ih (join_ne_empty hpath hname)
      (Disk.follow_join hpath hisName hsize hfollow hfolder)]
    simp

end Descents

/-! ## The files of a walk -/

/-- What the walk finds under one name of a folder. -/
def filesAt (disk : Disk) (here : Place) (depth : Nat) (scope : Scope) (path : String) (place : Place)
    (name : String) : List String :=
  match disk.item? (place ++ [name]) with
  | none => []
  | some (.file _) =>
    if scope.skips (Path.join path name) name false then [] else [Path.join path name]
  | some .folder =>
    if scope.skips (Path.join path name) name true then []
    else
      filesBelow disk here depth (scope.enter disk here (Path.join path name) (place ++ [name]))
        (Path.join path name) (place ++ [name])

theorem filesBelow_succ (disk : Disk) (here : Place) (depth : Nat) (scope : Scope) (path : String)
    (place : Place) :
    filesBelow disk here (depth + 1) scope path place =
      (disk.names place).flatMap (filesAt disk here depth scope path place) :=
  rfl

variable {disk : Disk} {here place : Place} {depth : Nat} {scope : Scope} {path name file : String}

/-- A file is found under its own name, or in the folder of that name. -/
theorem mem_filesAt_cases (h : file ∈ filesAt disk here depth scope path place name) :
    (file = Path.join path name ∧ ∃ content, disk.item? (place ++ [name]) = some (.file content)) ∨
    (disk.item? (place ++ [name]) = some .folder ∧
      ∃ inner, file ∈ filesBelow disk here depth inner (Path.join path name) (place ++ [name])) := by
  unfold filesAt at h
  split at h
  · cases h
  · rename_i content hitem
    split at h
    · cases h
    · exact .inl ⟨List.mem_singleton.mp h, content, hitem⟩
  · rename_i hitem
    split at h
    · cases h
    · exact .inr ⟨hitem, _, h⟩

theorem exists_descent_of_mem_filesAt
    (hbelow : ∀ {scope : Scope} {path : String} {place : Place}, disk.item? place = some .folder →
      file ∈ filesBelow disk here depth scope path place →
        ∃ names content, Descent disk path place names file ∧
          disk.item? (place ++ names) = some (.file content))
    (h : file ∈ filesAt disk here depth scope path place name) :
    ∃ names content, Descent disk (Path.join path name) (place ++ [name]) names file ∧
      disk.item? (place ++ name :: names) = some (.file content) := by
  obtain ⟨rfl, content, hitem⟩ | ⟨hfolder, inner, hinner⟩ := mem_filesAt_cases h
  · exact ⟨[], content, .done _ _, hitem⟩
  · obtain ⟨names, content, hdescent, hitem⟩ := hbelow hfolder hinner
    exact ⟨names, content, hdescent, by simpa using hitem⟩

theorem exists_descent_of_mem_filesBelow (hfolder : disk.item? place = some .folder)
    (h : file ∈ filesBelow disk here depth scope path place) :
    ∃ names content, Descent disk path place names file ∧
      disk.item? (place ++ names) = some (.file content) := by
  induction depth generalizing scope path place with
  | zero => cases h
  | succ depth ih =>
    rw [filesBelow_succ] at h
    obtain ⟨name, hname, hfile⟩ := List.mem_flatMap.mp h
    obtain ⟨names, content, hdescent, hitem⟩ := exists_descent_of_mem_filesAt ih hfile
    exact ⟨name :: names, content, .into hfolder hname hdescent, hitem⟩

/-- No two files that are found have the same components. -/
theorem nodup_components_filesBelow (hpath : path ≠ "")
    (hfolder : disk.item? place = some .folder) :
    ((filesBelow disk here depth scope path place).map Path.components).Nodup := by
  induction depth generalizing scope path place with
  | zero => exact List.nodup_nil
  | succ depth ih =>
    rw [filesBelow_succ, List.map_flatMap, List.nodup_flatMap]
    constructor
    · intro name hname
      unfold filesAt
      split
      · exact List.nodup_nil
      · split
        · exact List.nodup_nil
        · exact List.nodup_singleton _
      · rename_i hitem
        split
        · exact List.nodup_nil
        · exact ih (join_ne_empty hpath hname) hitem
    · -- Files found under different names differ in the component behind those of the folder.
      refine (disk.nodup_names place).imp_of_mem fun {name other} hname hother hne => ?_
      have hbehind : ∀ {name : String}, name ∈ disk.names place → ∀ {components : List Path.Component},
          components ∈ (filesAt disk here depth scope path place name).map Path.components →
            ∃ rest, components = Path.components path ++ .name name :: rest := by
        intro name hname components hmem
        obtain ⟨file, hfile, rfl⟩ := List.mem_map.mp hmem
        obtain ⟨names, content, hdescent, -⟩ :=
          exists_descent_of_mem_filesAt exists_descent_of_mem_filesBelow hfile
        refine ⟨names.map .name, ?_⟩
        rw [hdescent.components (join_ne_empty hpath hname),
          Path.components_join_name hpath (Disk.isName_of_mem_names hname).1]
        simp
      intro components hleft hright
      obtain ⟨rest, hrest⟩ := hbehind hname hleft
      obtain ⟨others, hothers⟩ := hbehind hother hright
      rw [hrest] at hothers
      have hsame := (List.cons.inj (List.append_cancel_left hothers)).1
      exact hne (Path.Component.name.inj hsame)

end Walk

end CodeOutline
