import Mathlib.Data.List.Basic
import CodeOutline.Proofs.Folder.Blocks

/-! # The files of a folder outline

Files are fetched several at a time, and which of them is done first is left open.  None of this can
be seen in the result: for every way the fetching may go, the files in the folder outline are those of
the list that are small enough, are UTF-8 and have symbols, in the order of the list.

`Selection` says so without mentioning how files are fetched.  It goes through the list path by path,
so a file that is left out, wherever it stands, has no bearing on the others.
-/

namespace CodeOutline.Folder

variable {disk : Disk} {here : Place} {provider : Provider} {maxSize : Nat}

/-! ## Which files are kept -/

/-- The entry of a path: the file is within the size limit, its bytes are the UTF-8 form of the text,
    and the provider gives the symbols. -/
structure IsEntry (disk : Disk) (here : Place) (provider : Provider) (maxSize : Nat) (path : String)
    (entry : Entry) : Prop where
  path_eq : entry.path = path
  bytes : ∃ content, disk.readBytes here path = .ok content ∧ content.size ≤ maxSize ∧
    String.fromUTF8? content = some entry.text
  symbols : provider path entry.text = .ok (some entry.symbols)

/-- The entries of the paths that have one, in the order of the paths. -/
inductive Selection (disk : Disk) (here : Place) (provider : Provider) (maxSize : Nat) :
    List String → List Entry → Prop where
  | nil : Selection disk here provider maxSize [] []
  | keep {path : String} {paths : List String} {entry : Entry} {entries : List Entry} :
      IsEntry disk here provider maxSize path entry →
      Selection disk here provider maxSize paths entries →
      Selection disk here provider maxSize (path :: paths) (entry :: entries)
  | leaveOut {path : String} {paths : List String} {entries : List Entry} :
      (∀ entry, ¬ IsEntry disk here provider maxSize path entry) →
      Selection disk here provider maxSize paths entries →
      Selection disk here provider maxSize (path :: paths) entries

theorem decode_eq_ok_iff {content : ByteArray} {text : String} :
    Disk.decode content = .ok text ↔ String.fromUTF8? content = some text := by
  unfold Disk.decode
  cases String.fromUTF8? content <;> simp

theorem fetch_eq_some_iff_isEntry {path : String} {entry : Entry} :
    fetch disk here provider maxSize path = some entry ↔
      IsEntry disk here provider maxSize path entry := by
  rw [fetch_eq_some_iff]
  unfold isTooLarge Disk.readText
  constructor
  · rintro ⟨hsize, hpath, hread, hprovided⟩
    cases hbytes : disk.readBytes here path with
    | error fault => rw [hbytes] at hread; cases hread
    | ok content =>
      rw [hbytes] at hread hsize
      exact ⟨hpath, ⟨content, hbytes, by simpa using hsize, decode_eq_ok_iff.mp hread⟩, hprovided⟩
  · rintro ⟨hpath, ⟨content, hbytes, hsize, htext⟩, hprovided⟩
    rw [hbytes]
    exact ⟨by simpa using hsize, hpath, decode_eq_ok_iff.mpr htext, hprovided⟩

theorem fetch_eq_none_iff {path : String} :
    fetch disk here provider maxSize path = none ↔
      ∀ entry, ¬ IsEntry disk here provider maxSize path entry := by
  simp only [← fetch_eq_some_iff_isEntry, Option.eq_none_iff_forall_ne_some]

/-- There is one selection of a list, which is what fetching its paths one by one gives. -/
theorem selection_iff {paths : List String} {entries : List Entry} :
    Selection disk here provider maxSize paths entries ↔
      entries = paths.filterMap (fetch disk here provider maxSize) := by
  constructor
  · intro h
    induction h with
    | nil => rfl
    | keep hentry _ ih =>
      rw [List.filterMap_cons_some (fetch_eq_some_iff_isEntry.mpr hentry), ih]
    | leaveOut hnone _ ih => rw [List.filterMap_cons_none (fetch_eq_none_iff.mpr hnone), ih]
  · rintro rfl
    induction paths with
    | nil => exact .nil
    | cons path rest ih =>
      cases hfetch : fetch disk here provider maxSize path with
      | none =>
        rw [List.filterMap_cons_none hfetch]
        exact .leaveOut (fetch_eq_none_iff.mp hfetch) ih
      | some entry =>
        rw [List.filterMap_cons_some hfetch]
        exact .keep (fetch_eq_some_iff_isEntry.mp hfetch) ih

/-! ## No file has a bearing on another -/

/-- Fetching looks at the bytes of the file and at what the provider says about it. -/
theorem fetch_congr {disk' : Disk} {provider' : Provider} {path : String}
    (hbytes : disk'.readBytes here path = disk.readBytes here path)
    (hprovider : provider' path = provider path) :
    fetch disk' here provider' maxSize path = fetch disk here provider maxSize path := by
  have hsize : isTooLarge disk' here maxSize path = isTooLarge disk here maxSize path := by
    rw [isTooLarge, isTooLarge, hbytes]
  have hread : disk'.readText here path = disk.readText here path := by
    rw [Disk.readText, Disk.readText, hbytes]
  rw [fetch, fetch, hsize, hread, hprovider]

theorem filter_collect_congr {disk' : Disk} {provider' : Provider} (limits : Limits)
    {paths : List String} {path : String}
    (h : ∀ other ∈ paths, other ≠ path →
      disk'.readBytes here other = disk.readBytes here other ∧ provider' other = provider other) :
    (collect disk' here provider' limits paths).filter (·.path ≠ path) =
      (collect disk here provider limits paths).filter (·.path ≠ path) := by
  simp only [collect_eq_filterMap, List.filter_filterMap]
  refine List.filterMap_congr fun other hother => ?_
  by_cases hne : other = path
  · -- The two disks may differ here, but neither entry is looked at.
    have hdropped : ∀ (disk : Disk) (provider : Provider),
        (fetch disk here provider limits.maxSize other).filter (·.path ≠ path) = none := by
      intro disk provider
      rw [Option.filter_eq_none_iff]
      intro entry hentry
      simp [(fetch_eq_some_iff_isEntry.mp hentry).path_eq, hne]
    rw [hdropped, hdropped]
  · obtain ⟨hbytes, hprovider⟩ := h other hother hne
    rw [fetch_congr hbytes hprovider]

theorem collect_append_of_left_out {limits : Limits} {before after : List String} {path : String}
    (h : ∀ entry, ¬ IsEntry disk here provider limits.maxSize path entry) :
    collect disk here provider limits (before ++ path :: after) =
      collect disk here provider limits (before ++ after) := by
  simp only [collect_eq_filterMap, List.filterMap_append,
    List.filterMap_cons_none (fetch_eq_none_iff.mpr h)]

/-! ## Whatever the order -/

/-- However the fetching goes, with any number of files at the same time, it goes on until all files are
    done, it does not go on for ever, and it ends with the entries of the paths that have one.  A
    path without an entry may as well not be in the list, and a file that changes, whether it
    becomes unreadable or too large or anything else, leaves the entries of the others as they are. -/
theorem collect_for_every_schedule (disk : Disk) (here : Place) (provider : Provider)
    (limits : Limits) (paths : List String) :
    let work := fetch disk here provider limits.maxSize
    let width := max limits.width 1
    (∀ state, FanOut.Steps work width (.start paths) state →
      (state.isDone = false → ∃ next, FanOut.Step work width state next) ∧
      (state.isDone = true →
        state.delivered.filterMap id = collect disk here provider limits paths)) ∧
    (∀ states : Nat → FanOut String (Option Entry),
      ¬ ∀ i, FanOut.Step work width (states i) (states (i + 1))) ∧
    (∀ entries, Selection disk here provider limits.maxSize paths entries ↔
      entries = collect disk here provider limits paths) ∧
    (∀ several : Nat, collect disk here provider { limits with width := several } paths =
      collect disk here provider limits paths) ∧
    (∀ before path after, paths = before ++ path :: after →
      (∀ entry, ¬ IsEntry disk here provider limits.maxSize path entry) →
      collect disk here provider limits paths =
        collect disk here provider limits (before ++ after)) ∧
    (∀ (changed : Disk) (otherwise : Provider) (path : String),
      (∀ other ∈ paths, other ≠ path →
        changed.readBytes here other = disk.readBytes here other ∧
          otherwise other = provider other) →
      (collect changed here otherwise limits paths).filter (·.path ≠ path) =
        (collect disk here provider limits paths).filter (·.path ≠ path)) := by
  intro work width
  refine ⟨fun state hsteps => ⟨FanOut.exists_step (by omega), fun hdone => ?_⟩,
    FanOut.not_forall_step, ?_, ?_, ?_, ?_⟩
  · rw [FanOut.delivered_of_steps hsteps hdone, collect_eq_filterMap, List.filterMap_map,
      Function.id_comp]
  · intro entries
    rw [selection_iff, collect_eq_filterMap]
  · intro several
    rw [collect_eq_filterMap, collect_eq_filterMap]
  · rintro before path after rfl hnone
    exact collect_append_of_left_out hnone
  · intro changed otherwise path hsame
    exact filter_collect_congr limits hsame

/-- A file that is text and one that is not. -/
def textAndBytes : Disk :=
  { entries :=
      [(["w"], .folder), (["w", "a.ts"], .file "a".toUTF8), (["w", "b.ts"], .file ⟨#[255]⟩)] }

/-- A class in every file. -/
def classProvider : Provider := fun _ _ => .ok (some [⟨"A", .classDecl, 0, []⟩])

/-- The second file is done before the first, which cannot be read. -/
theorem collect_for_every_schedule_second_first :
    let work := fetch textAndBytes ["w"] classProvider 1
    let limits : Limits := ⟨2, 1⟩
    let kept : List Entry := [⟨"/w/a.ts", "a", [⟨"A", .classDecl, 0, []⟩]⟩]
    (∃ final, FanOut.Steps work 2 (.start ["/w/b.ts", "/w/a.ts"]) final ∧ final.isDone = true ∧
      final.delivered.filterMap id = kept) ∧
    Selection textAndBytes ["w"] classProvider 1 ["/w/b.ts", "/w/a.ts"] kept ∧
    collect textAndBytes ["w"] classProvider limits ["/w/b.ts", "/w/a.ts"] =
      collect textAndBytes ["w"] classProvider limits ["/w/a.ts"] ∧
    (collect (textAndBytes.put ["w", "b.ts"] (.file "b".toUTF8)) ["w"] classProvider limits
        ["/w/b.ts", "/w/a.ts"]).filter (·.path ≠ "/w/b.ts") =
      (collect textAndBytes ["w"] classProvider limits ["/w/b.ts", "/w/a.ts"]).filter
        (·.path ≠ "/w/b.ts") := by
  intro work limits kept
  obtain ⟨hevery, -, hselection, -, hleft, hothers⟩ :=
    collect_for_every_schedule textAndBytes ["w"] classProvider limits ["/w/b.ts", "/w/a.ts"]
  have hkept : collect textAndBytes ["w"] classProvider limits ["/w/b.ts", "/w/a.ts"] = kept := rfl
  have hsteps : FanOut.Steps work 2 (.start ["/w/b.ts", "/w/a.ts"])
      ⟨[], [], [work "/w/b.ts", work "/w/a.ts"]⟩ :=
    .step (.takeUp "/w/b.ts" ["/w/a.ts"] [] [] (by decide)) <|
    .step (.takeUp "/w/a.ts" [] [("/w/b.ts", none)] [] (by decide)) <|
    .step (.complete [] [("/w/b.ts", none)] [] "/w/a.ts" []) <|
    .step (.complete [] [] [("/w/a.ts", some (work "/w/a.ts"))] "/w/b.ts" []) <|
    .step (.deliver [] "/w/b.ts" _ _ []) <|
    .step (.deliver [] "/w/a.ts" _ [] _) <|
    .refl _
  have hnone : ∀ entry, ¬ IsEntry textAndBytes ["w"] classProvider 1 "/w/b.ts" entry :=
    fetch_eq_none_iff.mp rfl
  refine ⟨⟨_, hsteps, rfl, ((hevery _ hsteps).2 rfl).trans hkept⟩, (hselection kept).mpr hkept.symm,
    hleft [] "/w/b.ts" ["/w/a.ts"] rfl hnone, hothers _ classProvider "/w/b.ts" ?_⟩
  intro other hother hne
  obtain rfl : other = "/w/a.ts" := by simpa [hne] using hother
  exact ⟨rfl, rfl⟩

end CodeOutline.Folder
