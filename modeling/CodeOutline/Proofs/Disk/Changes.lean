import CodeOutline.Proofs.Disk.Access

/-! # Small changes of a disk

A path is followed through folders, so that it leads to the same place on every disk that has the folders
it needs (`follow_mono`).  Two kinds of change are told apart from here: one that touches a single file
and leaves all that other paths lead to as it was, and one that only adds folders, as is done before a
file is written.
-/

namespace CodeOutline

theorem toOption_eq_some_iff {ε α : Type} {result : Except ε α} {a : α} :
    result.toOption = some a ↔ result = .ok a := by
  cases result <;> simp [Except.toOption]

namespace Disk

/-! ## Where a path leads -/

/-- A path leads to a place, whether something stands there or not. -/
def LeadsTo (disk : Disk) (here : Place) (path : String) (place : Place) : Prop :=
  disk.follow (origin here path) (Path.pieces path.toList) = .ok place

theorem follow_mono {disk other : Disk} {start place : Place} {pieces : List (List Char)}
    (hfolders : ∀ place, disk.item? place = some .folder → other.item? place = some .folder)
    (h : disk.follow start pieces = .ok place) : other.follow start pieces = .ok place := by
  induction pieces generalizing start with
  | nil => exact h
  | cons piece pieces ih =>
    -- Only a folder can be passed through, and the other disk has it too.
    have hstart : disk.item? start = some .folder := by
      simp only [follow] at h
      split at h
      · cases h
      · cases h
      · assumption
    simp only [follow, hstart, hfolders start hstart] at h ⊢
    split at h
    · exact ih h
    · split at h
      · cases h
      · rw [if_neg ‹_›]
        exact ih h
    · exact ih h

theorem eq_of_follow_name {disk : Disk} {start place : Place} {piece : List Char} {name : String}
    (hpiece : Path.pieceComponent? piece = some (.name name))
    (h : disk.follow start [piece] = .ok place) :
    place = start ++ [name] ∧ disk.item? start = some .folder := by
  simp only [follow, hpiece] at h
  split at h
  · cases h
  · cases h
  · split at h
    · cases h
    · exact ⟨(Except.ok.inj h).symm, by assumption⟩

/-- What stands in a folder is reached through it. -/
theorem LeadsTo.of_join {disk : Disk} {here place : Place} {base name : String}
    (hname : Path.IsName name) (h : disk.LeadsTo here (Path.join base name) place) :
    ∃ folder, place = folder ++ [name] ∧ (base ≠ "" → disk.LeadsTo here base folder) := by
  by_cases hbase : base = ""
  · -- The name is all there is to the path, and it is followed from the working folder.
    have hjoin : Path.join base name = name := by simp [Path.join, hname.not_isAbsolute, hbase]
    have hpieces : Path.pieces name.toList = [name.toList] := by
      have hfront : Path.front? name.toList = none :=
        Path.front?_of_not_isSkipped hname.2 (by simp [Path.isSkipped, hname.1])
      simp [Path.pieces, hfront, Text.splitOnChar_of_not_mem hname.2]
    rw [LeadsTo, hjoin, hpieces] at h
    exact ⟨_, (eq_of_follow_name hname.1 h).1, fun hne => absurd hbase hne⟩
  · obtain ⟨hfront, ps, hps, hpieces⟩ := Path.pieces_join hbase hname.not_isAbsolute
    have horigin : origin here (Path.join base name) = origin here base := by
      simp only [origin, Path.isAbsolute_iff_front?, hfront]
    rw [LeadsTo, horigin, hpieces, Text.splitOnChar_of_not_mem hname.2, follow_append] at h
    cases hfollow : disk.follow (origin here base) ps with
    | error fault => rw [hfollow] at h; cases h
    | ok folder =>
      rw [hfollow] at h
      obtain ⟨hplace, hfolder⟩ := eq_of_follow_name hname.1 h
      refine ⟨folder, hplace, fun _ => ?_⟩
      rcases hps with hps | hps
      · rw [LeadsTo, hps, hfollow]
      · -- An empty piece at the end of the base stays in the folder.
        rw [LeadsTo, hps, follow_append, hfollow]
        simp [Except.bind, follow, hfolder, Path.pieceComponent?]

theorem LeadsTo.of_join_join {disk : Disk} {here place : Place} {base outer inner : String}
    (houter : Path.IsName outer) (hinner : Path.IsName inner)
    (h : disk.LeadsTo here (Path.join (Path.join base outer) inner) place) :
    ∃ folder, place = folder ++ [outer, inner] := by
  obtain ⟨folder, rfl, hbase⟩ := h.of_join hinner
  obtain ⟨above, rfl, -⟩ := (hbase (houter.join_ne_empty base)).of_join houter
  exact ⟨above, by simp⟩

/-! ## Paths that only lead down -/

section Down

variable {disk other : Disk} {start place : Place} {pieces : List (List Char)}

/-- A path without pieces that lead back up leads to somewhere below its start. -/
theorem append_of_follow (hdown : ∀ piece ∈ pieces, Path.pieceComponent? piece ≠ some .parent)
    (h : disk.follow start pieces = .ok place) : ∃ names, place = start ++ names := by
  induction pieces generalizing start with
  | nil => exact ⟨[], by simpa using (Except.ok.inj h).symm⟩
  | cons piece pieces ih =>
    obtain ⟨hpiece, hrest⟩ := List.forall_mem_cons.mp hdown
    simp only [follow] at h
    split at h
    · cases h
    · cases h
    · split at h
      · exact ih hrest h
      · split at h
        · cases h
        · obtain ⟨names, hnames⟩ := ih hrest h
          exact ⟨_ :: names, by rw [hnames, List.append_assoc]; rfl⟩
      · rename_i component hname hcomponent
        -- A piece stands for nothing, for a name or for the way up.
        obtain ⟨hroot, hhere⟩ := Path.not_front_of_pieceComponent? hcomponent
        cases component with
        | root => exact absurd rfl hroot
        | here => exact absurd rfl hhere
        | parent => exact absurd hcomponent hpiece
        | name text => exact absurd rfl (hname text)

/-- A path that leads down to a file leads there on every disk that has something at the place, as everything
    above it is a folder. -/
theorem follow_of_item? {item : Item} (hdown : ∀ piece ∈ pieces, Path.pieceComponent? piece ≠ some .parent)
    (hfile : other.item? place ≠ some .folder) (h : other.follow start pieces = .ok place)
    (hitem : disk.item? place = some item) : disk.follow start pieces = .ok place := by
  induction pieces generalizing start with
  | nil => exact h
  | cons piece pieces ih =>
    have hstart : other.item? start = some .folder := by
      simp only [follow] at h
      split at h
      · cases h
      · cases h
      · assumption
    obtain ⟨names, hnames⟩ := append_of_follow hdown h
    have hbelow : names ≠ [] := by
      rintro rfl
      rw [hnames, List.append_nil] at hfile
      exact hfile hstart
    have hfolder : disk.item? start = some .folder := item?_of_append (hnames ▸ hitem) hbelow
    simp only [follow, hstart, hfolder] at h ⊢
    have hrest := (List.forall_mem_cons.mp hdown).2
    split at h
    · exact ih hrest h
    · split at h
      · cases h
      · rw [if_neg ‹_›]
        exact ih hrest h
    · exact ih hrest h

/-- Where a path that only leads down leads to nothing, nothing is replaced by a file that it leads to
    afterwards. -/
theorem item?_eq_none_of_find {here : Place} {path : String} {content : ByteArray}
    (hdown : .parent ∉ Path.components path) (hmissing : disk.exists? here path = false)
    (h : other.find here path = .ok (place, .file content)) : disk.item? place = none := by
  obtain ⟨hfault, hfollow, hfile⟩ := find_eq_ok_iff.mp h
  have hpieces : ∀ piece ∈ Path.pieces path.toList, Path.pieceComponent? piece ≠ some .parent := by
    intro piece hpiece hparent
    exact hdown (List.mem_append_right _ (List.mem_filterMap.mpr ⟨piece, hpiece, hparent⟩))
  cases hitem : disk.item? place with
  | none => rfl
  | some item =>
    have hfound : disk.find here path = .ok (place, item) :=
      find_eq_ok_iff.mpr ⟨hfault, follow_of_item? hpieces (by simp [hfile]) hfollow hitem, hitem⟩
    simp [exists?, hfound, Except.toOption] at hmissing

end Down

/-! ## Changes of one file -/

/-- Two disks differ at most in the file a path leads to: where they differ, the path leads, and neither
    has a folder there. -/
def SameButFor (here : Place) (path : String) (disk other : Disk) : Prop :=
  ∀ place, disk.item? place = other.item? place ∨
    disk.LeadsTo here path place ∧ disk.item? place ≠ some .folder ∧ other.item? place ≠ some .folder

namespace SameButFor

variable {disk other : Disk} {here : Place} {path elsewhere : String}

theorem put_file {place : Place} (hplace : disk.LeadsTo here path place)
    (hfree : disk.item? place ≠ some .folder) (content : ByteArray) :
    SameButFor here path disk (disk.put place (.file content)) := by
  intro other
  by_cases htakes : disk.Takes place (.file content)
  · rw [item?_put htakes]
    by_cases hother : other = place
    · simp [hother, hplace, hfree]
    · simp [hother]
  · rw [put_of_not_takes htakes]
    exact .inl rfl

theorem folder_iff (h : SameButFor here path disk other) (place : Place) :
    disk.item? place = some .folder ↔ other.item? place = some .folder := by
  rcases h place with hsame | ⟨-, hdisk, hother⟩
  · rw [hsame]
  · simp [hdisk, hother]

theorem leadsTo_iff (h : SameButFor here path disk other) {place : Place} :
    disk.LeadsTo here elsewhere place ↔ other.LeadsTo here elsewhere place :=
  ⟨follow_mono fun place => (h.folder_iff place).mp, follow_mono fun place => (h.folder_iff place).mpr⟩

theorem find_iff (h : SameButFor here path disk other)
    (hapart : ∀ place, disk.LeadsTo here elsewhere place → ¬disk.LeadsTo here path place)
    {place : Place} {item : Item} :
    disk.find here elsewhere = .ok (place, item) ↔ other.find here elsewhere = .ok (place, item) := by
  have hlead : disk.follow (origin here elsewhere) (Path.pieces elsewhere.toList) = .ok place ↔
      other.follow (origin here elsewhere) (Path.pieces elsewhere.toList) = .ok place := h.leadsTo_iff
  simp only [find_eq_ok_iff, ← hlead, and_congr_right_iff]
  intro _ hplace
  rcases h place with hsame | ⟨hpath, -, -⟩
  · rw [hsame]
  · exact absurd hpath (hapart place hplace)

/-- Nothing changes about what another path leads to.  Why it leads nowhere may still be told
    differently. -/
theorem toOption_find (h : SameButFor here path disk other)
    (hapart : ∀ place, disk.LeadsTo here elsewhere place → ¬disk.LeadsTo here path place) :
    (disk.find here elsewhere).toOption = (other.find here elsewhere).toOption := by
  apply Option.ext
  intro found
  rw [toOption_eq_some_iff, toOption_eq_some_iff, h.find_iff hapart]

end SameButFor

/-! ## New folders -/

/-- The second disk has the files of the first and no others, and it has all of its folders. -/
structure Grown (before after : Disk) : Prop where
  file_iff : ∀ place content,
    after.item? place = some (.file content) ↔ before.item? place = some (.file content)
  folder : ∀ place, before.item? place = some .folder → after.item? place = some .folder

namespace Grown

theorem refl (disk : Disk) : disk.Grown disk :=
  ⟨fun _ _ => Iff.rfl, fun _ h => h⟩

theorem trans {first second third : Disk} (h : first.Grown second) (h' : second.Grown third) :
    first.Grown third :=
  ⟨fun place content => (h'.file_iff place content).trans (h.file_iff place content),
    fun place hplace => h'.folder place (h.folder place hplace)⟩

theorem put_folder {disk : Disk} {place : Place} (h : disk.item? place = none) :
    disk.Grown (disk.put place .folder) := by
  by_cases htakes : disk.Takes place .folder
  · constructor
    · intro other content
      rw [item?_put htakes]
      split
      · simp_all
      · rfl
    · intro other hother
      rw [item?_put htakes]
      split
      · rfl
      · exact hother
  · rw [put_of_not_takes htakes]
    exact .refl disk

end Grown

/-! ## Writes that break off -/

/-- How it ends to write a file on a disk that may have no room for it. -/
inductive Written (disk : Disk) (room : Option Nat) (here : Place) (path : String) (content : ByteArray) :
    Disk → Option Fault → Prop where
  | failed (fault : Fault) : Written disk room here path content disk (some fault)
  | whole {place : Place} : disk.Takes place (.file content) →
      (disk.put place (.file content)).find here path = .ok (place, .file content) →
      Written disk room here path content (disk.put place (.file content)) none
  | part {place : Place} {size : Nat} : room = some size → size < content.size →
      disk.Takes place (.file (content.extract 0 size)) →
      (disk.put place (.file (content.extract 0 size))).find here path =
        .ok (place, .file (content.extract 0 size)) →
      Written disk room here path content (disk.put place (.file (content.extract 0 size))) (some .noRoom)

theorem written_writeWithin (disk : Disk) (room : Option Nat) (here : Place) (path : String)
    (content : ByteArray) :
    Written disk room here path content (disk.writeWithin room here path content).1
      (disk.writeWithin room here path content).2 := by
  unfold writeWithin
  cases room with
  | none =>
    dsimp only
    split
    · exact .failed _
    · rename_i after hwrite
      obtain ⟨place, htakes, rfl, hfind⟩ := write_eq_ok hwrite
      simpa using Written.whole htakes hfind
  | some size =>
    dsimp only
    split
    · exact .failed _
    · rename_i after hwrite
      obtain ⟨place, htakes, rfl, hfind⟩ := write_eq_ok hwrite
      by_cases hsize : size < content.size
      · have hcut : (content.extract 0 size).size < content.size := by
          rw [ByteArray.size_extract]
          omega
        rw [if_pos hcut]
        exact .part rfl hsize htakes hfind
      · have hall : content.extract 0 size = content := by
          ext <;> simp <;> omega
        rw [hall] at htakes hfind ⊢
        simpa using Written.whole htakes hfind

theorem grown_makeFoldersFrom (disk : Disk) (made : Bool) (place : Place) (pieces : List (List Char)) :
    disk.Grown (disk.makeFoldersFrom made place pieces).1 := by
  induction pieces generalizing disk made place with
  | nil => exact .refl disk
  | cons piece pieces ih =>
    simp only [makeFoldersFrom]
    split
    · exact ih disk made place
    · rename_i name _
      split
      · exact .refl disk
      · split
        · exact ih disk made _
        · exact .refl disk
        · -- A folder is only made where nothing stands.
          rename_i hfree
          exact (Grown.put_folder hfree).trans (ih _ true _)
    · exact ih disk made _

theorem grown_makeFolders (disk : Disk) (here : Place) (path : String) :
    disk.Grown (disk.makeFolders here path).1 := by
  unfold makeFolders
  split
  · exact .refl disk
  · split
    · exact .refl disk
    · exact grown_makeFoldersFrom disk false _ _

end Disk

end CodeOutline
