import CodeOutline.Disk.Access
import CodeOutline.Proofs.Path.Characters
import CodeOutline.Proofs.Path.Components

/-! # Paths on a disk

What a path leads to is found piece by piece, so that following a path behind another one goes on from
the place the first one leads to.  A file that is written stands at the place its path leads to
afterwards, and nothing else on the disk is touched: a path is followed through folders only, and no
folder is ever written over.
-/

namespace CodeOutline.Disk

/-! ## Places -/

theorem put_of_not_takes {disk : Disk} {place : Place} {item : Item} (h : ¬disk.Takes place item) :
    disk.put place item = disk :=
  dif_neg h

theorem item?_put {disk : Disk} {place : Place} {item : Item} (h : disk.Takes place item) (other : Place) :
    (disk.put place item).item? other = if other = place then some item else disk.item? other := by
  unfold put
  rw [dif_pos h]
  by_cases hsame : other = place
  · subst hsame
    by_cases htop : other = []
    · -- The top is a folder, and nothing else is put there.
      subst htop
      exact congrArg some (h.2.2 rfl).symm
    · simp [item?, itemAt?, htop]
  · rw [if_neg hsame]
    exact itemAt?_put hsame disk.entries item

theorem mem_keys_of_item? {disk : Disk} {place : Place} {item : Item} (hne : place ≠ [])
    (h : disk.item? place = some item) : place ∈ disk.entries.map Prod.fst := by
  rw [item?, itemAt?, if_neg hne] at h
  obtain ⟨before, after, hentries, -⟩ := List.lookup_eq_some_iff.mp h
  simp [hentries]

theorem named_of_item? {disk : Disk} {place : Place} {item : Item} (h : disk.item? place = some item) :
    Named place := by
  by_cases hne : place = []
  · simp [Named, hne]
  · obtain ⟨entry, hentry, rfl⟩ := List.mem_map.mp (mem_keys_of_item? hne h)
    exact (disk.sound entry hentry).1

theorem item?_dropLast {disk : Disk} {place : Place} {item : Item} (h : disk.item? place = some item) :
    disk.item? place.dropLast = some .folder := by
  by_cases hne : place = []
  · simp [hne, item?, itemAt?]
  · obtain ⟨entry, hentry, rfl⟩ := List.mem_map.mp (mem_keys_of_item? hne h)
    exact (disk.sound entry hentry).2

/-- Everything above a place is a folder. -/
theorem item?_of_append {disk : Disk} {place : Place} {names : List String} {item : Item}
    (h : disk.item? (place ++ names) = some item) (hne : names ≠ []) :
    disk.item? place = some .folder := by
  induction names generalizing place with
  | nil => exact absurd rfl hne
  | cons name rest ih =>
    have hbelow : ∃ item, disk.item? (place ++ [name]) = some item := by
      by_cases hrest : rest = []
      · exact ⟨item, by rwa [hrest] at h⟩
      · exact ⟨.folder, ih (by simpa using h) hrest⟩
    obtain ⟨below, hbelow⟩ := hbelow
    simpa using item?_dropLast hbelow

theorem eq_of_nameIn? {folder place : Place} {name : String} (h : nameIn? folder place = some name) :
    place = folder ++ [name] := by
  induction folder generalizing place with
  | nil =>
    cases place with
    | nil => cases h
    | cons first rest => simp_all [nameIn?]
  | cons above below ih =>
    cases place with
    | nil => cases h
    | cons first rest =>
      simp only [nameIn?] at h
      split at h
      · rename_i hfirst
        rw [hfirst, ih h, List.cons_append]
      · cases h

theorem isName_of_mem_names {disk : Disk} {folder : Place} {name : String}
    (hname : name ∈ disk.names folder) :
    Path.IsName name ∧ '\x00' ∉ name.toList ∧ name.utf8ByteSize ≤ maxNameSize := by
  rw [names, List.mem_mergeSort, List.mem_eraseDups, List.mem_filterMap] at hname
  obtain ⟨entry, hentry, hplace⟩ := hname
  refine (disk.sound entry hentry).1 name ?_
  rw [eq_of_nameIn? hplace]
  exact List.mem_append_right _ (List.mem_singleton_self name)

/-! ## Following -/

theorem follow_append (disk : Disk) (place : Place) (ps qs : List (List Char)) :
    disk.follow place (ps ++ qs) = (disk.follow place ps).bind fun mid => disk.follow mid qs := by
  induction ps generalizing place with
  | nil => rfl
  | cons p ps ih =>
    simp only [List.cons_append, follow]
    split
    · rfl
    · rfl
    · split
      · exact ih place
      · split
        · rfl
        · exact ih _
      · exact ih _

theorem follow_name {disk : Disk} {place : Place} {piece : List Char} {name : String}
    (hfolder : disk.item? place = some .folder)
    (hpiece : Path.pieceComponent? piece = some (.name name))
    (hsize : name.utf8ByteSize ≤ maxNameSize) :
    disk.follow place [piece] = .ok (place ++ [name]) := by
  simp [follow, hfolder, hpiece, Nat.not_lt.mpr hsize]

/-- A path leads to the same place on a disk on which something was put where no folder was. -/
theorem follow_put {disk : Disk} {place target start : Place} {pieces : List (List Char)}
    (hfree : disk.item? place ≠ some .folder) (item : Item)
    (h : disk.follow start pieces = .ok target) :
    (disk.put place item).follow start pieces = .ok target := by
  by_cases htakes : disk.Takes place item
  · induction pieces generalizing start with
    | nil => exact h
    | cons piece pieces ih =>
      -- The piece stands in a folder, which is not at the place that is changed.
      have hstart : disk.item? start = some .folder := by
        simp only [follow] at h
        split at h
        · cases h
        · cases h
        · assumption
      have hne : start ≠ place := by
        rintro rfl
        exact hfree hstart
      simp only [follow, hstart, item?_put htakes, if_neg hne] at h ⊢
      split at h
      · exact ih h
      · split at h
        · cases h
        · rw [if_neg ‹_›]
          exact ih h
      · exact ih h
  · rwa [put_of_not_takes htakes]

/-- The path of something in a folder is followed through the folder. -/
theorem follow_join {disk : Disk} {here place : Place} {path name : String} (hpath : path ≠ "")
    (hname : Path.IsName name) (hsize : name.utf8ByteSize ≤ maxNameSize)
    (hfollow : disk.follow (origin here path) (Path.pieces path.toList) = .ok place)
    (hfolder : disk.item? place = some .folder) :
    disk.follow (origin here (Path.join path name)) (Path.pieces (Path.join path name).toList) =
      .ok (place ++ [name]) := by
  obtain ⟨hfront, ps, hps, hpieces⟩ := Path.pieces_join hpath hname.not_isAbsolute
  have horigin : origin here (Path.join path name) = origin here path := by
    simp only [origin, Path.isAbsolute_iff_front?, hfront]
  have hbefore : disk.follow (origin here path) ps = .ok place := by
    rcases hps with rfl | hps
    · exact hfollow
    · -- A piece that says nothing leads nowhere else.
      rw [hps, follow_append] at hfollow
      cases hmid : disk.follow (origin here path) ps with
      | error fault => rw [hmid] at hfollow; cases hfollow
      | ok mid =>
        rw [hmid] at hfollow
        simp only [Except.bind, follow] at hfollow
        split at hfollow
        · cases hfollow
        · cases hfollow
        · exact hfollow
  rw [horigin, hpieces, Text.splitOnChar_of_not_mem hname.2, follow_append, hbefore]
  exact follow_name hfolder hname.1 hsize

/-! ## Finding -/

theorem pathFault?_eq_none_iff {path : String} :
    pathFault? path = none ↔
      '\x00' ∉ path.toList ∧ path ≠ "" ∧ path.utf8ByteSize ≤ maxPathSize := by
  unfold pathFault?
  split
  · simp_all
  · split
    · simp_all
    · split <;> simp_all

theorem find_eq_ok_iff {disk : Disk} {here place : Place} {path : String} {item : Item} :
    disk.find here path = .ok (place, item) ↔
      pathFault? path = none ∧
        disk.follow (origin here path) (Path.pieces path.toList) = .ok place ∧
          disk.item? place = some item := by
  unfold find
  cases pathFault? path with
  | some fault => simp
  | none =>
    cases hfollow : disk.follow (origin here path) (Path.pieces path.toList) with
    | error fault => simp
    | ok target =>
      cases hitem : disk.item? target with
      | none =>
        simp only [hitem, true_and, Except.ok.injEq, reduceCtorEq, false_iff, not_and]
        rintro rfl
        simp [hitem]
      | some found =>
        simp only [hitem, true_and, Except.ok.injEq, Prod.mk.injEq]
        constructor
        · rintro ⟨rfl, rfl⟩
          exact ⟨rfl, hitem⟩
        · rintro ⟨rfl, hsame⟩
          exact ⟨rfl, by simpa [hitem] using hsame⟩

/-! ## Writing -/

/-- A path is followed to its last piece through the folder above. -/
theorem parent_eq_ok {disk : Disk} {start folder : Place} {pieces : List (List Char)}
    {piece : List Char} (h : disk.parent start pieces = .ok (folder, piece)) :
    disk.follow start pieces.dropLast = .ok folder ∧ disk.item? folder = some .folder ∧
      pieces.getLast?.getD [] = piece := by
  unfold parent at h
  split at h
  · cases h
  · rename_i place hfollow
    split at h
    · cases h
    · cases h
    · rename_i hfolder
      cases h
      exact ⟨hfollow, hfolder, rfl⟩

theorem eq_dropLast_append {pieces : List (List Char)} {piece : List Char} {name : String}
    (hlast : pieces.getLast?.getD [] = piece)
    (hpiece : Path.pieceComponent? piece = some (.name name)) :
    pieces = pieces.dropLast ++ [piece] := by
  cases hpieces : pieces.getLast? with
  | none =>
    -- The empty piece stands for no name.
    obtain rfl : [] = piece := by simpa [hpieces] using hlast
    cases hpiece
  | some last =>
    obtain rfl : last = piece := by simpa [hpieces] using hlast
    obtain ⟨front, rfl⟩ := List.getLast?_eq_some_iff.mp hpieces
    rw [List.dropLast_concat]

/-- A piece of a path that can be followed is the name of something that can stand on a disk. -/
theorem isName_of_mem_pieces {path name : String} {piece : List Char} (hfault : pathFault? path = none)
    (hmem : piece ∈ Path.pieces path.toList) (hpiece : Path.pieceComponent? piece = some (.name name)) :
    Path.IsName name ∧ '\x00' ∉ name.toList := by
  have hchars : name.toList = piece := Path.text_of_pieceComponent? hpiece
  rw [Path.IsName, hchars]
  refine ⟨⟨hpiece, Path.slash_not_mem_of_mem_pieces hmem⟩, fun hzero => ?_⟩
  exact (pathFault?_eq_none_iff.mp hfault).1 (Path.mem_of_mem_pieces hmem hzero)

/-- Writing a file puts it at the place its path leads to from then on. -/
theorem write_eq_ok {disk after : Disk} {here : Place} {path : String} {content : ByteArray}
    (h : disk.write here path content = .ok after) :
    ∃ place, disk.Takes place (.file content) ∧ after = disk.put place (.file content) ∧
      after.find here path = .ok (place, .file content) := by
  unfold write at h
  dsimp only at h
  split at h
  · cases h
  rename_i hfault
  split at h
  · cases h
  rename_i folder piece hparent
  obtain ⟨hfollow, hfolder, hlast⟩ := parent_eq_ok hparent
  split at h
  · rename_i name hpiece
    split at h
    · cases h
    rename_i hlength
    split at h
    · cases h
    rename_i hsize
    split at h
    · cases h
    rename_i hfree
    cases h
    -- No slash stands at the end of the path, so that no piece was dropped there.
    have hnamed : ((Path.pieces path.toList).reverse.dropWhile List.isEmpty).reverse =
        Path.pieces path.toList := by
      refine List.IsPrefix.eq_of_length_le ?_ (Nat.le_of_not_lt hlength)
      rw [← List.reverse_suffix, List.reverse_reverse]
      exact List.dropWhile_suffix _
    rw [hnamed] at hfollow hlast
    have hpieces := eq_dropLast_append hlast hpiece
    have hmem : piece ∈ Path.pieces path.toList := by
      rw [hpieces]
      exact List.mem_append_right _ (List.mem_singleton_self piece)
    obtain ⟨hname, hzero⟩ := isName_of_mem_pieces hfault hmem hpiece
    have htakes : disk.Takes (folder ++ [name]) (.file content) := by
      refine ⟨fun other hother => ?_, by simpa using hfolder, fun htaken => absurd htaken hfree⟩
      rcases List.mem_append.mp hother with habove | hlast
      · exact named_of_item? hfolder other habove
      · rw [List.mem_singleton.mp hlast]
        exact ⟨hname, hzero, Nat.le_of_not_lt hsize⟩
    refine ⟨folder ++ [name], htakes, rfl, find_eq_ok_iff.mpr ⟨hfault, ?_, ?_⟩⟩
    · refine follow_put hfree _ ?_
      rw [hpieces, follow_append, hfollow]
      exact follow_name hfolder hpiece (Nat.le_of_not_lt hsize)
    · rw [item?_put htakes, if_pos rfl]
  · cases h

end CodeOutline.Disk
