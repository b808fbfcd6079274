import CodeOutline.Program.Outlining
import CodeOutline.Proofs.Ignore.Verdicts
import CodeOutline.Proofs.Listing.Discovered
import CodeOutline.Settings.Basic

/-! # Patterns for files to leave out

The patterns given to a filter are asked last, behind the names that are never listed and the ignore file
of the root.  So a listing depends on them only by what their rules say about each path, and a further
pattern that ignores can only take files off the listing (`excludes_only_shrink`).

Where the settings of a user and of a project are merged, a pattern of the project that is there already is
dropped.  Patterns are asked from the last one on, so that this is harmless only as long as no pattern
that says the contrary stands between the two occurrences (`merged_excludes_say_the_same`).
-/

namespace CodeOutline

open scoped List

/-! ## More patterns, fewer files -/

namespace Filter

variable {disk : Disk} {here : Place} {options : Options} {patterns others : List String}

theorem isIgnored_of_stricter (h : Rule.Stricter (Rule.ofLines patterns) (Rule.ofLines others))
    {path : String}
    (hignored : (ofOptions disk here { options with excludes := patterns }).isIgnored disk here path = true) :
    (ofOptions disk here { options with excludes := others }).isIgnored disk here path = true := by
  unfold isIgnored at hignored ⊢
  simp only [ofOptions] at hignored ⊢
  split at hignored
  · cases hignored
  · rename_i inner hinner
    simp only [Bool.or_eq_true, beq_iff_eq, Option.or_eq_some_iff] at hignored ⊢
    -- The rules given to the filter only count where the others have no verdict.
    rcases hignored with hname | hown | ⟨hnone, hexcluded⟩
    · exact .inl hname
    · exact .inr (.inl hown)
    · exact .inr (.inr ⟨hnone, h.verdictUp? hexcluded⟩)

theorem discover_sublist_of_stricter (machine : Machine) (options : Options)
    (h : Rule.Stricter (Rule.ofLines patterns) (Rule.ofLines others)) (extensions : List String) :
    (ofOptions machine.disk machine.here { options with excludes := others }).discover machine
        extensions <+
      (ofOptions machine.disk machine.here { options with excludes := patterns }).discover machine
        extensions := by
  -- The walk does not ask the patterns, so that both listings are taken from the same files.
  have hfiles : Walk.files machine
      (ofOptions machine.disk machine.here { options with excludes := others }).options =
        Walk.files machine
          (ofOptions machine.disk machine.here { options with excludes := patterns }).options := rfl
  apply Path.mergeSort_sublist
  rw [hfiles]
  apply List.monotone_filter_right
  intro path
  simp only [Bool.and_eq_true, Bool.not_eq_true', Bool.eq_false_iff]
  rintro ⟨hextension, hkept⟩
  exact ⟨hextension, mt (isIgnored_of_stricter h) hkept⟩

end Filter

/-- A line that ignores, put in anywhere among others. -/
theorem Rule.stricter_ofLines_insert {line : String} (hline : ¬ Negated line)
    (before after : List String) (husable : Usable (before ++ line :: after)) :
    Stricter (ofLines (before ++ after)) (ofLines (before ++ line :: after)) := by
  have hfewer : before ++ after <+ before ++ line :: after :=
    (List.sublist_cons_self line after).append_left before
  have hadded : IgnoreOnly (written [line]) := ignoreOnly_written (by simpa using hline)
  rw [ofLines_of_usable husable, ofLines_of_usable (husable.sublist hfewer), List.append_cons]
  simp only [written_append, List.append_assoc]
  exact stricter_insert hadded _ _

namespace Filter

/-- A pattern that ignores only takes files off the listing: behind the patterns of a filter, and
    anywhere among those that are given for a folder besides the ones of the settings. -/
theorem excludes_only_shrink (machine : Machine) {pattern : String} (hpattern : ¬ Rule.Negated pattern) :
    (∀ (options : Options) (extensions : List String),
      Rule.Usable (options.excludes ++ [pattern]) →
      (ofOptions machine.disk machine.here
          { options with excludes := options.excludes ++ [pattern] }).discover machine extensions <+
        (ofOptions machine.disk machine.here options).discover machine extensions) ∧
    ∀ (session : Session) (path : String) (before after : List String) (hidden : Bool),
      Rule.Usable (session.settings.folder.exclude ++ (before ++ pattern :: after)) →
      (session.folderFilter machine path (before ++ pattern :: after) hidden).discover machine
          Language.allExtensions <+
        (session.folderFilter machine path (before ++ after) hidden).discover machine
          Language.allExtensions := by
  constructor
  · intro options extensions husable
    have hstricter := Rule.stricter_ofLines_insert hpattern options.excludes [] husable
    rw [List.append_nil] at hstricter
    exact discover_sublist_of_stricter machine options hstricter extensions
  · intro session path before after hidden husable
    have hstricter := Rule.stricter_ofLines_insert hpattern
      (session.settings.folder.exclude ++ before) after (by simpa using husable)
    rw [List.append_assoc, List.append_assoc] at hstricter
    let options : Options :=
      { root := path, useGit := session.settings.folder.respectGitignore
        includeHidden := hidden || session.settings.folder.includeHidden }
    exact discover_sublist_of_stricter machine options hstricter Language.allExtensions

/-- A folder with two files. -/
def twoFilesMachine : Machine :=
  { disk := { entries := [(["work"], .folder), (["work", "a.ts"], .file ByteArray.empty),
      (["work", "b.ts"], .file ByteArray.empty)] }
    here := ["work"]
    environment := []
    input := ByteArray.empty }

/-- A filter for the folder of `twoFilesMachine`. -/
def twoFilesFilter (excludes : List String) : Filter :=
  ofOptions twoFilesMachine.disk twoFilesMachine.here { root := "/work", excludes }

/-- A session whose settings leave out all files but those that are kept. -/
def keepingSession : Session :=
  { root := "/work", format := .text, destination := none
    settings := { folder := { exclude := ["*.ts", "!a.ts"] } } }

/-- Patterns that keep both files of `twoFilesMachine`. -/
def keptPatterns : List String := ["*.ts", "!a.ts", "!b.ts"]

/-- A pattern behind those that keep both files leaves out one of them after all. -/
theorem excludes_only_shrink_behind_kept :
    ¬ Rule.Negated "a*" ∧ Rule.Usable (keptPatterns ++ ["a*"]) ∧
    "/work/a.ts" ∈ (twoFilesFilter keptPatterns).discover twoFilesMachine [] ∧
    "/work/a.ts" ∉ (twoFilesFilter (keptPatterns ++ ["a*"])).discover twoFilesMachine [] ∧
    (twoFilesFilter (keptPatterns ++ ["a*"])).discover twoFilesMachine [] <+
      (twoFilesFilter keptPatterns).discover twoFilesMachine [] ∧
    (keepingSession.folderFilter twoFilesMachine "/work" ["a*", "!b.ts"] false).discover
        twoFilesMachine Language.allExtensions <+
      (keepingSession.folderFilter twoFilesMachine "/work" ["!b.ts"] false).discover
        twoFilesMachine Language.allExtensions := by
  have hpattern : ¬ Rule.Negated "a*" := by decide
  have husable : Rule.Usable (keptPatterns ++ ["a*"]) := by decide +kernel
  have hname : "a.ts" ∈ twoFilesMachine.disk.names ["work"] :=
    List.mem_mergeSort.mpr (List.mem_eraseDups.mpr (by decide))
  have hfound : "/work/a.ts" ∈ Walk.files twoFilesMachine (twoFilesFilter keptPatterns).options :=
    List.mem_flatMap.mpr ⟨"a.ts", hname, by decide +kernel⟩
  obtain ⟨hfilter, hsession⟩ := excludes_only_shrink twoFilesMachine hpattern
  refine ⟨hpattern, husable, mem_discover_iff.mpr ⟨hfound, rfl, by decide +kernel⟩, fun hlisted => ?_,
    hfilter { root := "/work", excludes := keptPatterns } [] husable,
    hsession keepingSession "/work" [] ["!b.ts"] false (by decide +kernel)⟩
  exact absurd (mem_discover_iff.mp hlisted).2.2 (by decide +kernel)

end Filter

/-! ## Patterns that are there already -/

namespace Settings

/-- A pattern of the project that is there already comes behind an occurrence with none but patterns of
    its kind in between. -/
def RepeatsAlike (user project : List String) : Prop :=
  ∀ done pattern rest, project = done ++ pattern :: rest → pattern ∈ user ++ done →
    ∃ before between, user ++ done = before ++ pattern :: between ∧
      ∀ other ∈ between, (Rule.Negated other ↔ Rule.Negated pattern)

theorem RepeatsAlike.tail {user rest : List String} {pattern : String}
    (h : RepeatsAlike user (pattern :: rest)) : RepeatsAlike (user ++ [pattern]) rest := by
  intro done other others hrest hmem
  have hfound := h (pattern :: done) other others (by rw [hrest, List.cons_append]) (by simpa using hmem)
  simpa using hfound

theorem addPatterns_sublist {patterns all : List String} (h : patterns <+ all) (others : List String) :
    addPatterns patterns others <+ all ++ others := by
  induction others generalizing patterns all with
  | nil => simpa [addPatterns] using h
  | cons pattern rest ih =>
    rw [addPatterns, List.append_cons all]
    apply ih
    split
    · exact h.trans (List.sublist_append_left all [pattern])
    · exact h.append (List.Sublist.refl [pattern])

/-- What is dropped because it is there already would say nothing new. -/
theorem verdict?_addPatterns {patterns all others : List String}
    (hmem : ∀ pattern, pattern ∈ patterns ↔ pattern ∈ all)
    (hsame : ∀ path isFolder, Rule.verdict? (Rule.written patterns) path isFolder =
      Rule.verdict? (Rule.written all) path isFolder)
    (hrepeats : RepeatsAlike all others) (path : String) (isFolder : Bool) :
    Rule.verdict? (Rule.written (addPatterns patterns others)) path isFolder =
      Rule.verdict? (Rule.written (all ++ others)) path isFolder := by
  induction others generalizing patterns all with
  | nil => simpa [addPatterns] using hsame path isFolder
  | cons pattern rest ih =>
    rw [addPatterns, List.append_cons all]
    split
    · rename_i hthere
      have hthere : pattern ∈ all := (hmem pattern).mp (by simpa using hthere)
      obtain ⟨before, between, hsplit, halike⟩ := hrepeats [] pattern rest rfl (by simpa using hthere)
      rw [List.append_nil] at hsplit
      refine ih (fun other => ?_) (fun path isFolder => ?_) hrepeats.tail
      · rw [hmem, List.mem_append, List.mem_singleton]
        exact ⟨.inl, fun h => h.elim id fun heq => heq ▸ hthere⟩
      · rw [hsame, hsplit, Rule.verdict?_written_repeated halike]
    · refine ih (fun other => ?_) (fun path isFolder => ?_) hrepeats.tail
      · simp only [List.mem_append, hmem]
      · simp only [Rule.written_append, Rule.verdict?_append, hsame]

theorem stricter_addPatterns {patterns all others : List String}
    (hothers : ∀ pattern ∈ others, ¬ Rule.Negated pattern)
    (h : Rule.Stricter (Rule.written patterns) (Rule.written all)) :
    Rule.Stricter (Rule.written (addPatterns patterns others)) (Rule.written (all ++ others)) := by
  induction others generalizing patterns all with
  | nil => simpa [addPatterns] using h
  | cons pattern rest ih =>
    obtain ⟨hpattern, hrest⟩ := List.forall_mem_cons.mp hothers
    rw [addPatterns, List.append_cons all]
    apply ih hrest
    split
    · have hadded : Rule.IgnoreOnly (Rule.written [pattern]) :=
        Rule.ignoreOnly_written (by simpa using hpattern)
      have hinsert := Rule.stricter_insert hadded (Rule.written all) []
      simp only [List.append_nil] at hinsert
      rw [Rule.written_append]
      exact h.trans hinsert
    · rw [Rule.written_append, Rule.written_append]
      exact h.append _

end Settings

namespace Filter

/-- The merged patterns of a user and a project leave out the same paths as all of them one behind the
    other, if no repeated pattern is separated from its last occurrence by one that says the contrary.
    If the project keeps nothing, the pattern that is dropped for it can only bring paths back. -/
theorem merged_excludes_say_the_same (disk : Disk) (here : Place) (options : Options)
    {user project : Settings}
    (husable : Rule.Usable (user.folder.exclude ++ project.folder.exclude)) :
    let filter := fun excludes => ofOptions disk here { options with excludes }
    let merged := filter (Settings.merge user project).folder.exclude
    let all := filter (user.folder.exclude ++ project.folder.exclude)
    (Settings.RepeatsAlike user.folder.exclude project.folder.exclude →
      ∀ path, merged.isIgnored disk here path = all.isIgnored disk here path) ∧
    ((∀ pattern ∈ project.folder.exclude, ¬ Rule.Negated pattern) →
      ∀ path, merged.isIgnored disk here path = true → all.isIgnored disk here path = true) := by
  intro filter merged all
  have hfewer := Settings.addPatterns_sublist (List.Sublist.refl user.folder.exclude) project.folder.exclude
  have hmerged := Rule.ofLines_of_usable (husable.sublist hfewer)
  have hall := Rule.ofLines_of_usable husable
  constructor
  · intro hrepeats path
    have hsame := Settings.verdict?_addPatterns (fun _ => Iff.rfl) (fun _ _ => rfl) hrepeats
    rw [← hmerged, ← hall] at hsame
    rw [Bool.eq_iff_iff]
    exact ⟨isIgnored_of_stricter fun path isFolder => .inl (hsame path isFolder).symm,
      isIgnored_of_stricter fun path isFolder => .inl (hsame path isFolder)⟩
  · intro hproject path
    have hstricter := Settings.stricter_addPatterns hproject (.refl (Rule.written user.folder.exclude))
    rw [← hmerged, ← hall] at hstricter
    exact isIgnored_of_stricter hstricter

/-- Settings with nothing but patterns. -/
def settingsOfPatterns (exclude : List String) : Settings :=
  { folder := { exclude } }

/-- Both patterns of the project are there already, and the one that keeps stands before them. -/
theorem merged_excludes_say_the_same_kept_before :
    let user := settingsOfPatterns ["!b*", "a.ts", "b.ts"]
    let project := settingsOfPatterns ["b.ts", "a.ts"]
    let merged := twoFilesFilter (Settings.merge user project).folder.exclude
    let all := twoFilesFilter (user.folder.exclude ++ project.folder.exclude)
    Rule.Usable (user.folder.exclude ++ project.folder.exclude) ∧
    Settings.RepeatsAlike user.folder.exclude project.folder.exclude ∧
    (Settings.merge user project).folder.exclude = user.folder.exclude ∧
    (∀ path, merged.isIgnored twoFilesMachine.disk twoFilesMachine.here path =
      all.isIgnored twoFilesMachine.disk twoFilesMachine.here path) ∧
    (∀ path, merged.isIgnored twoFilesMachine.disk twoFilesMachine.here path = true →
      all.isIgnored twoFilesMachine.disk twoFilesMachine.here path = true) ∧
    merged.isIgnored twoFilesMachine.disk twoFilesMachine.here "/work/b.ts" = true := by
  intro user project merged all
  have husable : Rule.Usable (user.folder.exclude ++ project.folder.exclude) := by decide +kernel
  have hrepeats : Settings.RepeatsAlike user.folder.exclude project.folder.exclude := by
    intro done pattern rest hproject _
    match done with
    | [] =>
      obtain ⟨rfl, -⟩ := List.cons.inj hproject
      exact ⟨["!b*", "a.ts"], [], rfl, by simp⟩
    | [first] =>
      obtain ⟨rfl, hrest⟩ := List.cons.inj hproject
      obtain ⟨rfl, -⟩ := List.cons.inj hrest
      exact ⟨["!b*"], ["b.ts", "b.ts"], rfl, by decide⟩
    | first :: second :: third =>
      simp [project, settingsOfPatterns] at hproject
  obtain ⟨hsame, hback⟩ := merged_excludes_say_the_same twoFilesMachine.disk twoFilesMachine.here
    { root := "/work" } husable
  exact ⟨husable, hrepeats, rfl, hsame hrepeats, hback (by decide), by decide +kernel⟩

/-- A pattern of the user that keeps stands between the two occurrences of a pattern that ignores.  The
    merged patterns keep the file, although the project leaves it out. -/
theorem merged_excludes_lose_repeated :
    let user := settingsOfPatterns ["a.ts", "!a.ts"]
    let project := settingsOfPatterns ["a.ts"]
    Rule.Usable (user.folder.exclude ++ project.folder.exclude) ∧
    (twoFilesFilter (Settings.merge user project).folder.exclude).isIgnored twoFilesMachine.disk
      twoFilesMachine.here "/work/a.ts" = false ∧
    (twoFilesFilter (user.folder.exclude ++ project.folder.exclude)).isIgnored twoFilesMachine.disk
      twoFilesMachine.here "/work/a.ts" = true := by
  decide +kernel

end Filter

end CodeOutline
