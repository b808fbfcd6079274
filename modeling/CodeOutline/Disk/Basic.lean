import CodeOutline.Path

/-! # Disks

A disk is a tree of folders with files in them, kept as the list of all its places.  A place
is the list of names that lead to it from the top.  Every disk is sound: its names can be pieces
of a path, and everything on it stands in a folder.

There is nothing but files and folders: no links, no devices, and no permissions that would keep a
user from reading or writing them.  Names are texts, so that a name whose bytes are not UTF-8 is on
no disk here.
-/

namespace CodeOutline

/-- The names that lead to a place from the top of a disk. -/
abbrev Place := List String

inductive Item where
  | file (content : ByteArray)
  | folder

instance : DecidableEq Item
  | .folder, .folder => isTrue rfl
  | .file a, .file b =>
    if h : a.data = b.data then isTrue (by cases a; cases b; cases h; rfl)
    else isFalse fun eq => h (by cases eq; rfl)
  | .file _, .folder => isFalse fun eq => nomatch eq
  | .folder, .file _ => isFalse fun eq => nomatch eq

namespace Disk

/-! ## Soundness -/

def maxNameSize : Nat := 255

def Named (place : Place) : Prop :=
  ∀ name ∈ place, Path.IsName name ∧ '\x00' ∉ name.toList ∧ name.utf8ByteSize ≤ maxNameSize

instance (place : Place) : Decidable (Named place) :=
  inferInstanceAs (Decidable (∀ name ∈ place, _))

/-- What entries say about a place; the top is a folder. -/
def itemAt? (entries : List (Place × Item)) (place : Place) : Option Item :=
  if place = [] then some .folder else entries.lookup place

def Sound (entries : List (Place × Item)) : Prop :=
  ∀ entry ∈ entries, Named entry.1 ∧ itemAt? entries entry.1.dropLast = some .folder

instance (entries : List (Place × Item)) : Decidable (Sound entries) :=
  inferInstanceAs (Decidable (∀ entry ∈ entries, _))

theorem lookup_filter (keeps : Place → Bool) {place : Place} (h : keeps place)
    (entries : List (Place × Item)) :
    (entries.filter fun entry => keeps entry.1).lookup place = entries.lookup place := by
  induction entries with
  | nil => rfl
  | cons entry entries ih =>
    obtain ⟨key, item⟩ := entry
    rw [List.filter_cons]
    split
    · rw [List.lookup_cons, List.lookup_cons, ih]
    · rename_i hdropped
      have hkey : (place == key) = false := by
        rw [beq_eq_false_iff_ne]
        rintro rfl
        exact hdropped h
      rw [ih, List.lookup_cons, hkey]

theorem itemAt?_filter (keeps : Place → Bool) {place : Place} (h : keeps place)
    (entries : List (Place × Item)) :
    itemAt? (entries.filter fun entry => keeps entry.1) place = itemAt? entries place := by
  simp only [itemAt?, lookup_filter keeps h]

end Disk

structure Disk where
  entries : List (Place × Item)
  sound : Disk.Sound entries := by decide

namespace Disk

def empty : Disk := { entries := [] }

def item? (disk : Disk) (place : Place) : Option Item :=
  itemAt? disk.entries place

/-! ## Changes -/

/-- Something can be put at a place: in a folder, and not in the place of a folder unless it is one. -/
def Takes (disk : Disk) (place : Place) (item : Item) : Prop :=
  Named place ∧ disk.item? place.dropLast = some .folder ∧
    (disk.item? place = some .folder → item = .folder)

instance (disk : Disk) (place : Place) (item : Item) : Decidable (disk.Takes place item) :=
  inferInstanceAs (Decidable (_ ∧ _))

theorem itemAt?_put {place other : Place} (hother : other ≠ place) (entries : List (Place × Item))
    (item : Item) :
    itemAt? ((place, item) :: entries.filter (·.1 ≠ place)) other = itemAt? entries other := by
  have hkey : (other == place) = false := beq_eq_false_iff_ne.mpr hother
  have hkept : decide (other ≠ place) = true := decide_eq_true hother
  rw [← itemAt?_filter (fun key => decide (key ≠ place)) hkept entries]
  simp only [itemAt?, List.lookup_cons, hkey]

theorem Takes.sound {disk : Disk} {place : Place} {item : Item} (h : disk.Takes place item) :
    Sound ((place, item) :: disk.entries.filter (·.1 ≠ place)) := by
  obtain ⟨hnamed, hfolder, hkind⟩ := h
  -- The entries that are there keep their folder, be it the one that is put there again.
  have habove : ∀ other, itemAt? disk.entries other = some .folder →
      itemAt? ((place, item) :: disk.entries.filter (·.1 ≠ place)) other = some .folder := by
    intro other hother
    by_cases hsame : other = place
    · subst hsame
      simp [itemAt?, hkind hother]
    · rw [itemAt?_put hsame, hother]
  intro entry hentry
  rcases List.mem_cons.mp hentry with rfl | hold
  · exact ⟨hnamed, habove _ hfolder⟩
  · obtain ⟨hnames, hthere⟩ := disk.sound entry (List.mem_filter.mp hold).1
    exact ⟨hnames, habove _ hthere⟩

def put (disk : Disk) (place : Place) (item : Item) : Disk :=
  if h : disk.Takes place item then
    { entries := (place, item) :: disk.entries.filter (·.1 ≠ place), sound := h.sound }
  else disk

theorem sound_remove (disk : Disk) (place : Place) :
    Sound (disk.entries.filter fun entry => !place.isPrefixOf entry.1) := by
  intro entry hentry
  obtain ⟨hmem, hkept⟩ := List.mem_filter.mp hentry
  obtain ⟨hnames, hthere⟩ := disk.sound entry hmem
  refine ⟨hnames, ?_⟩
  rw [itemAt?_filter fun key => !place.isPrefixOf key, hthere]
  rw [Bool.not_eq_true', Bool.eq_false_iff] at hkept ⊢
  intro hprefix
  exact hkept (List.isPrefixOf_iff_prefix.mpr
    ((List.isPrefixOf_iff_prefix.mp hprefix).trans (List.dropLast_prefix _)))

def remove (disk : Disk) (place : Place) : Disk :=
  { entries := disk.entries.filter fun entry => !place.isPrefixOf entry.1
    sound := disk.sound_remove place }

/-! ## Folders -/

def nameIn? (folder : Place) : Place → Option String
  | [] => none
  | name :: rest =>
    match folder with
    | [] => if rest.isEmpty then some name else none
    | above :: below => if name = above then nameIn? below rest else none

def names (disk : Disk) (folder : Place) : List String :=
  (disk.entries.filterMap (nameIn? folder ·.1)).eraseDups.mergeSort (fun a b => !(compare a b == .gt))

def withFolder (disk : Disk) (place : Place) : Disk :=
  (List.range place.length).foldl
    (fun disk n =>
      let above := place.take (n + 1)
      if (disk.item? above).isNone then disk.put above .folder else disk)
    disk

def withFile (disk : Disk) (place : Place) (content : ByteArray) : Disk :=
  (disk.withFolder place.dropLast).put place (.file content)

end Disk

end CodeOutline
