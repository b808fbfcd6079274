import CodeOutline.Proofs.Listing.Discovered

/-! # Listed files and their languages

Two tests look at the extension of a file.  The language of a file is told by its extension in any case,
while a listing compares extensions as they are written with those of the languages, which are all
written in small letters.  So every file that is listed has a language, but a file that has one is only
listed if its extension is written in small letters (`mem_discover_allExtensions_iff`).
-/

namespace CodeOutline

namespace Language

theorem ofExtension_ne_unknown_iff {ext : String} :
    ofExtension ext ≠ .unknown ↔ Text.foldCase ext ∈ allExtensions := by
  rw [ofExtension, allExtensions, List.mem_flatMap]
  cases hfind : all.find? fun language => language.extensions.contains (Text.foldCase ext) with
  | none =>
    have hnone := List.find?_eq_none.mp hfind
    simp only [Option.getD_none, ne_eq, not_true_eq_false, false_iff, not_exists, not_and]
    exact fun language hlanguage hext => hnone language hlanguage (List.contains_iff_mem.mpr hext)
  | some language =>
    have hmem := List.mem_of_find?_eq_some hfind
    have hext := List.find?_some hfind
    rw [List.contains_iff_mem] at hext
    have hknown : language ≠ .unknown := by
      rintro rfl
      exact absurd hmem (by decide)
    simp only [Option.getD_some, ne_eq, hknown, not_false_eq_true, true_iff]
    exact ⟨language, hmem, hext⟩

theorem foldCase_of_mem_allExtensions {ext : String} (h : ext ∈ allExtensions) :
    Text.foldCase ext = ext := by
  have hall : allExtensions.all (fun ext => Text.foldCase ext == ext) = true := rfl
  exact beq_iff_eq.mp (List.all_eq_true.mp hall ext h)

theorem mem_allExtensions_iff {ext : String} :
    ext ∈ allExtensions ↔ ofExtension ext ≠ .unknown ∧ Text.foldCase ext = ext := by
  constructor
  · intro hext
    have hfold := foldCase_of_mem_allExtensions hext
    exact ⟨ofExtension_ne_unknown_iff.mpr (hfold.symm ▸ hext), hfold⟩
  · rintro ⟨hknown, hfold⟩
    exact hfold ▸ ofExtension_ne_unknown_iff.mp hknown

end Language

namespace Filter

theorem hasExtension_allExtensions_iff {file : String} :
    hasExtension Language.allExtensions file ↔
      Language.ofPath file ≠ .unknown ∧
        (Path.extension? file).map Text.foldCase = Path.extension? file := by
  rw [hasExtension, Language.ofPath]
  cases Path.extension? file with
  | none => simp only [Option.getD_none]; decide
  | some ext =>
    have hnonempty : Language.allExtensions.isEmpty = false := rfl
    simp [hnonempty, Language.mem_allExtensions_iff]

/-- Of the files that are found and not left out, a listing for all languages has those whose language
    is known and whose extension is written in small letters. -/
theorem mem_discover_allExtensions_iff {filter : Filter} {machine : Machine} {file : String}
    (hfound : file ∈ Walk.files machine filter.options)
    (hkept : filter.isIgnored machine.disk machine.here file = false) :
    file ∈ filter.discover machine Language.allExtensions ↔
      Language.ofPath file ≠ .unknown ∧
        (Path.extension? file).map Text.foldCase = Path.extension? file := by
  rw [mem_discover_iff, ← hasExtension_allExtensions_iff]
  exact ⟨fun h => h.2.1, fun h => ⟨hfound, h, hkept⟩⟩

/-- A folder with two files that differ in the case of their extensions. -/
def shoutingMachine : Machine :=
  { disk := { entries := [(["work"], .folder), (["work", "B.TS"], .file ByteArray.empty),
      (["work", "c.ts"], .file ByteArray.empty)] }
    here := ["work"]
    environment := []
    input := ByteArray.empty }

/-- A filter for the folder of `shoutingMachine`. -/
def shoutingFilter : Filter :=
  ofOptions shoutingMachine.disk shoutingMachine.here { root := "/work" }

theorem mem_names_shoutingMachine {name : String} (h : name ∈ ["B.TS", "c.ts"]) :
    name ∈ shoutingMachine.disk.names ["work"] := by
  refine List.mem_mergeSort.mpr (List.mem_eraseDups.mpr ?_)
  revert name
  decide

theorem mem_discover_allExtensions_iff_small_letters :
    "/work/c.ts" ∈ shoutingFilter.discover shoutingMachine Language.allExtensions := by
  have hfound : "/work/c.ts" ∈ Walk.files shoutingMachine shoutingFilter.options :=
    List.mem_flatMap.mpr ⟨"c.ts", mem_names_shoutingMachine (by simp), by decide +kernel⟩
  exact (mem_discover_allExtensions_iff hfound (by decide +kernel)).mpr (by decide +kernel)

/-- A file whose extension is written in capitals has a language, but it is not listed. -/
theorem not_mem_discover_capitals :
    "/work/B.TS" ∈ Walk.files shoutingMachine shoutingFilter.options ∧
      shoutingFilter.isIgnored shoutingMachine.disk shoutingMachine.here "/work/B.TS" = false ∧
        Language.ofPath "/work/B.TS" = .typeScript ∧
          "/work/B.TS" ∉ shoutingFilter.discover shoutingMachine Language.allExtensions := by
  have hfound : "/work/B.TS" ∈ Walk.files shoutingMachine shoutingFilter.options :=
    List.mem_flatMap.mpr ⟨"B.TS", mem_names_shoutingMachine (by simp), by decide +kernel⟩
  refine ⟨hfound, by decide +kernel, by decide +kernel, fun hlisted => ?_⟩
  -- The extension is compared as it is written, and no language is written in capitals.
  have hextension := (mem_discover_iff.mp hlisted).2.1
  exact absurd hextension (by decide +kernel)

end Filter

end CodeOutline
