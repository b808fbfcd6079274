import CodeOutline.Proofs.Listing.Found

/-! # Listed files

A file is listed if the walk finds it, the filter does not leave it out and it has one of the wanted
extensions.  Whatever ignore files and rules say, they are only asked once no name below the root is one
that is never listed, and what the walk finds is put to the filter again.  So a rule that keeps a file
brings the walk into folders it would have passed over, but adds nothing to the listing there.
-/

namespace CodeOutline

open Walk (Descent)

namespace Walk

variable {machine : Machine} {options : Filter.Options} {file : String}

/-- The files of a walk are the root itself or stand below it. -/
theorem exists_descent_of_mem_files (h : file ∈ files machine options) :
    ∃ place item names content, machine.disk.find machine.here options.root = .ok (place, item) ∧
      Descent machine.disk options.root place names file ∧
        machine.disk.item? (place ++ names) = some (.file content) := by
  unfold files at h
  split at h
  · cases h
  · rename_i place content hroot
    obtain rfl := List.mem_singleton.mp h
    have hitem := (Disk.find_eq_ok_iff.mp hroot).2.2
    exact ⟨place, _, [], content, hroot, .done _ _, by simpa using hitem⟩
  · rename_i place hroot
    obtain ⟨names, content, hdescent, hitem⟩ :=
      exists_descent_of_mem_filesBelow (Disk.find_eq_ok_iff.mp hroot).2.2 h
    exact ⟨place, _, names, content, hroot, hdescent, hitem⟩

theorem nodup_components_files :
    ((files machine options).map Path.components).Nodup := by
  unfold files
  split
  · exact List.nodup_nil
  · exact List.nodup_singleton _
  · rename_i place hroot
    obtain ⟨hfault, -, hfolder⟩ := Disk.find_eq_ok_iff.mp hroot
    exact nodup_components_filesBelow (Disk.pathFault?_eq_none_iff.mp hfault).2.1 hfolder

/-- From wherever the root was found, the path of a file leads to it, unless it is too long. -/
theorem Descent.find {disk : Disk} {here place : Place} {root : String} {item : Item}
    {names : List String} {content : ByteArray}
    (hroot : disk.find here root = .ok (place, item))
    (hdescent : Descent disk root place names file)
    (hitem : disk.item? (place ++ names) = some (.file content))
    (hsize : file.utf8ByteSize ≤ Disk.maxPathSize) :
    disk.find here file = .ok (place ++ names, .file content) := by
  obtain ⟨hfault, hfollow, -⟩ := Disk.find_eq_ok_iff.mp hroot
  obtain ⟨hzero, hne, -⟩ := Disk.pathFault?_eq_none_iff.mp hfault
  refine Disk.find_eq_ok_iff.mpr ⟨?_, hdescent.follow hne hfollow, hitem⟩
  exact Disk.pathFault?_eq_none_iff.mpr
    ⟨hdescent.zero_not_mem hzero, hdescent.ne_empty hne, hsize⟩

end Walk

namespace Filter

variable {filter : Filter} {machine : Machine} {extensions : List String} {file : String}

theorem mem_discover_iff :
    file ∈ filter.discover machine extensions ↔
      file ∈ Walk.files machine filter.options ∧ hasExtension extensions file = true ∧
        filter.isIgnored machine.disk machine.here file = false := by
  simp [discover, List.mem_mergeSort, List.mem_filter]

/-- A path that is not left out has no component below the root that is left out by its name. -/
theorem dropsName_of_not_isIgnored {disk : Disk} {here : Place} {cs : List Path.Component}
    (hcomponents : Path.components file = Path.components filter.options.root ++ cs)
    (h : filter.isIgnored disk here file = false) : ∀ c ∈ cs, filter.dropsName c = false := by
  obtain ⟨inner, hinner, rfl⟩ := Path.exists_stripBase? hcomponents
  simp only [isIgnored, hinner, Bool.or_eq_false_iff, List.any_eq_false] at h
  exact fun c hc => by simpa using h.1 c hc

theorem pairwise_lt_discover :
    (filter.discover machine extensions).Pairwise fun a b =>
      Path.compareComponents (Path.components a) (Path.components b) = .lt := by
  have hfound : (Walk.files machine filter.options).Pairwise fun a b =>
      Path.components a ≠ Path.components b :=
    List.pairwise_map.mp (Walk.nodup_components_files)
  have hdistinct : (filter.discover machine extensions).Pairwise fun a b =>
      Path.components a ≠ Path.components b :=
    ((List.mergeSort_perm _ _).pairwise_iff Ne.symm).mpr (hfound.filter _)
  refine ((Path.pairwise_mergeSort_le _).and hdistinct).imp fun h => ?_
  exact Path.lt_of_le_of_ne h.1 h.2

/-- A name is left out if it is UTF-8 and never listed, or hidden and hidden names are not wanted. -/
theorem dropsBytes_iff {name : ByteArray} :
    filter.dropsBytes name = true ↔ ∃ text : String, name = text.toUTF8 ∧
      (isNeverListed text = true ∨ filter.options.includeHidden = false ∧ isHiddenName text = true) := by
  unfold dropsBytes
  constructor
  · intro h
    split at h
    · cases h
    · rename_i text htext
      exact ⟨text, Text.fromUTF8?_eq_some_iff.mp htext, by simpa using h⟩
  · rintro ⟨text, rfl, h⟩
    rw [Text.fromUTF8?_toUTF8]
    simpa using h

theorem dropsName_name_eq_false_iff {name : String} :
    filter.dropsName (.name name) = false ↔
      isNeverListed name = false ∧ (filter.options.includeHidden = false → isHiddenName name = false) := by
  simp only [dropsName, dropsBytes, Text.fromUTF8?_toUTF8]
  simp

theorem hasExtension_iff :
    hasExtension extensions file = true ↔
      extensions = [] ∨ (∃ ext ∈ extensions, Path.extension? file = some ext) ∨
        "" ∈ extensions ∧ Path.extension? file = none := by
  unfold hasExtension
  cases Path.extension? file with
  | none => simp
  | some ext => simp

/-- Listed files are files at or below the root, in ascending order and each of them once.  No name below
    the root is one that is never listed, nor hidden unless hidden names are wanted, whatever the
    ignore files and the rules of the filter say; but of the names that a disk can have, only those in
    UTF-8 are looked at.  The files have one of the wanted extensions, but where the empty one is among
    these, a file without an extension passes for it. -/
theorem discover_obeys_exclusions (machine : Machine) (filter : Filter) (extensions : List String) :
    let files := filter.discover machine extensions
    (files.Pairwise fun a b =>
      Path.compareComponents (Path.components a) (Path.components b) = .lt) ∧
    files.Nodup ∧
    (∀ file ∈ files,
      (extensions = [] ∨ (∃ ext ∈ extensions, Path.extension? file = some ext) ∨
        "" ∈ extensions ∧ Path.extension? file = none) ∧
      ∃ place item names content,
        machine.disk.find machine.here filter.options.root = .ok (place, item) ∧
        machine.disk.item? (place ++ names) = some (.file content) ∧
        (file.utf8ByteSize ≤ Disk.maxPathSize →
          machine.disk.find machine.here file = .ok (place ++ names, .file content)) ∧
        Path.components file = Path.components filter.options.root ++ names.map .name ∧
        ∀ name ∈ names, isNeverListed name = false ∧
          (filter.options.includeHidden = false → isHiddenName name = false)) ∧
    ∀ name : ByteArray, filter.dropsBytes name = true ↔ ∃ text : String, name = text.toUTF8 ∧
      (isNeverListed text = true ∨ filter.options.includeHidden = false ∧ isHiddenName text = true) := by
  intro files
  have horder : files.Pairwise _ := pairwise_lt_discover
  refine ⟨horder, horder.imp fun hlt heq => ?_, fun file hfile => ?_, fun name => dropsBytes_iff⟩
  · -- No path comes before itself.
    subst heq
    rw [Path.compareComponents_self] at hlt
    cases hlt
  · obtain ⟨hfound, hextension, hkept⟩ := mem_discover_iff.mp hfile
    refine ⟨hasExtension_iff.mp hextension, ?_⟩
    obtain ⟨place, item, names, content, hroot, hdescent, hitem⟩ :=
      Walk.exists_descent_of_mem_files hfound
    have hne := (Disk.pathFault?_eq_none_iff.mp (Disk.find_eq_ok_iff.mp hroot).1).2.1
    have hcomponents := hdescent.components hne
    refine ⟨place, item, names, content, hroot, hitem, hdescent.find hroot hitem, hcomponents,
      fun name hname => ?_⟩
    exact dropsName_name_eq_false_iff.mp
      (dropsName_of_not_isIgnored hcomponents hkept (.name name) (List.mem_map_of_mem hname))

/-- A folder whose ignore file keeps a hidden file and a folder that is never listed. -/
def keepingMachine : Machine :=
  { disk := { entries := [(["work"], .folder),
      (["work", ".gitignore"], .file "!.env.js\n!node_modules\n".toUTF8),
      (["work", ".env.js"], .file ByteArray.empty), (["work", "app.js"], .file ByteArray.empty),
      (["work", "README"], .file ByteArray.empty), (["work", "node_modules"], .folder),
      (["work", "node_modules", "x.js"], .file ByteArray.empty)] }
    here := ["work"]
    environment := []
    input := ByteArray.empty }

/-- A filter for the folder of `keepingMachine` with a rule that keeps the hidden file. -/
def keepingFilter : Filter :=
  ofOptions keepingMachine.disk keepingMachine.here { root := "/work", excludes := ["!.env.js"] }

theorem mem_names_keepingMachine {name : String} (h : name ∈ [".env.js", "app.js", "README"]) :
    name ∈ keepingMachine.disk.names ["work"] := by
  refine List.mem_mergeSort.mpr (List.mem_eraseDups.mpr ?_)
  revert name
  decide

/-- The walk finds the hidden file, but only the other file of the folder is listed. -/
theorem discover_obeys_exclusions_kept_by_rules :
    let files := keepingFilter.discover keepingMachine ["js"]
    "/work/.env.js" ∈ Walk.files keepingMachine keepingFilter.options ∧
    "/work/app.js" ∈ files ∧ files.Nodup ∧
    ∀ file ∈ files, ∃ names : List String,
      Path.components file = [.root, .name "work"] ++ names.map .name ∧
        ∀ name ∈ names, isNeverListed name = false ∧ isHiddenName name = false := by
  intro files
  have hhidden : "/work/.env.js" ∈ Walk.files keepingMachine keepingFilter.options :=
    List.mem_flatMap.mpr ⟨".env.js", mem_names_keepingMachine (by simp), by decide +kernel⟩
  have hlisted : "/work/app.js" ∈ Walk.files keepingMachine keepingFilter.options :=
    List.mem_flatMap.mpr ⟨"app.js", mem_names_keepingMachine (by simp), by decide +kernel⟩
  obtain ⟨-, hnodup, hfiles, -⟩ := discover_obeys_exclusions keepingMachine keepingFilter ["js"]
  refine ⟨hhidden, mem_discover_iff.mpr ⟨hlisted, by decide +kernel, by decide +kernel⟩, hnodup,
    fun file hfile => ?_⟩
  obtain ⟨-, place, item, names, content, -, -, -, hcomponents, hnone⟩ := hfiles file hfile
  exact ⟨names, hcomponents, fun name hname => ⟨(hnone name hname).1, (hnone name hname).2 rfl⟩⟩

/-- A file without an extension is listed among those with the empty one.  A name that ends in `.log` and
    one with a dot at its front are not left out if their bytes are not UTF-8. -/
theorem discover_passes_exclusions :
    (Path.extension? "/work/README" = none ∧
      "/work/README" ∈ keepingFilter.discover keepingMachine [""]) ∧
    let log : ByteArray := ⟨#[0xff, 0x2e, 0x6c, 0x6f, 0x67]⟩
    let hidden : ByteArray := ⟨#[0x2e, 0xff, 0x2e, 0x6a, 0x73]⟩
    ".log".toUTF8.toList <:+ log.toList ∧ ".".toUTF8.toList <+: hidden.toList ∧
      keepingFilter.options.includeHidden = false ∧
      keepingFilter.dropsBytes log = false ∧ keepingFilter.dropsBytes hidden = false := by
  have hfound : "/work/README" ∈ Walk.files keepingMachine keepingFilter.options :=
    List.mem_flatMap.mpr ⟨"README", mem_names_keepingMachine (by simp), by decide +kernel⟩
  refine ⟨⟨by decide +kernel, mem_discover_iff.mpr ⟨hfound, by decide +kernel, by decide +kernel⟩⟩, ?_⟩
  decide +kernel

end Filter

end CodeOutline
