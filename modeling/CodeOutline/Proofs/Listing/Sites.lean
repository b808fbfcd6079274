import CodeOutline.Proofs.Ignore.Files
import CodeOutline.Proofs.Ignore.Verdicts
import CodeOutline.Proofs.Listing.Ways

/-! # Three ways to leave files out

Patterns for files to leave out can be given to a filter, written to the ignore file of the root, or written
to the ignore file of version control there.  The last one is read by the walk, which asks about every name on
its way down from the root, and the others by the filter, which asks about a file that was found and about
every folder above it.

What they ask about differs in one path only, if the root is absolute.  Seen from the root, the root is the
empty path, and the filter asks about it as well.  So a pattern that matches the empty path leaves out
everything below the root if it is given to the filter or stands in the ignore file of the root, and has no
such effect in the walk.  Without such a pattern all three ways give the same listing (`exclude_ways_agree`).

A root that is not absolute can be found at the front of a path that is already seen from the root.  The filter
drops it there once more and asks about another path than the walk (`exclude_ways_differ`).
-/

namespace CodeOutline

open scoped List

/-! ## Rules on the way to a file -/

namespace Rule

/-- A rule applies to the file that names lead to or to a folder on the way, the root not being one. -/
def HitsWay (rules : List Rule) (names : List String) : Prop :=
  ∃ front, front <+: names ∧ front ≠ [] ∧ Hits rules (Path.ofNames front) (decide (front ≠ names))

theorem hits_append {rules others : List Rule} {path : String} {isFolder : Bool} :
    Hits (rules ++ others) path isFolder ↔ Hits rules path isFolder ∨ Hits others path isFolder := by
  simp only [Hits, List.mem_append, or_and_right, exists_or]

theorem hitsWay_append {rules others : List Rule} {names : List String} :
    HitsWay (rules ++ others) names ↔ HitsWay rules names ∨ HitsWay others names := by
  simp only [HitsWay, hits_append, and_or_left, exists_or]

theorem ofLines_nil : ofLines [] = [] := by
  simp [ofLines]

theorem ignoreOnly_nil : IgnoreOnly [] := by
  simp [IgnoreOnly]

section IgnoreOnly

variable {rules : List Rule} (h : IgnoreOnly rules) {names : List String}
include h

theorem IgnoreOnly.verdictUp?_cases (path : String) (isFolder : Bool) :
    verdictUp? rules path isFolder = none ∨ verdictUp? rules path isFolder = some .ignore := by
  rw [verdictUp?_eq_findSome?]
  cases hfound : List.findSome? _ _ with
  | none => exact .inl rfl
  | some verdict =>
    obtain ⟨level, -, hverdict⟩ := List.exists_of_findSome?_eq_some hfound
    obtain ⟨rule, hrule, rfl⟩ := exists_mem_of_verdict? hverdict
    exact .inr (by rw [h rule hrule])

/-- The folders above a file are those on the way to it and the root. -/
theorem IgnoreOnly.verdictUp?_ofNames_iff (hnames : ∀ name ∈ names, Path.IsName name) (hne : names ≠ []) :
    verdictUp? rules (Path.ofNames names) false = some .ignore ↔
      HitsWay rules names ∨ Hits rules "" true := by
  rw [h.verdictUp?_eq_iff]
  constructor
  · rintro (hfile | ⟨folder, hfolder, hhits⟩)
    · exact .inl ⟨names, List.prefix_rfl, hne, by simpa using hfile⟩
    · obtain ⟨front, hfront, hshorter, rfl⟩ := (Path.mem_ancestors_ofNames_iff hnames).mp hfolder
      by_cases hnil : front = []
      · subst hnil
        exact .inr hhits
      · exact .inl ⟨front, hfront, hnil, by simpa [hshorter] using hhits⟩
  · rintro (⟨front, hfront, hnil, hhits⟩ | hroot)
    · by_cases hsame : front = names
      · subst hsame
        exact .inl (by simpa using hhits)
      · refine .inr ⟨_, (Path.mem_ancestors_ofNames_iff hnames).mpr ⟨front, hfront, hsame, rfl⟩, ?_⟩
        simpa [hsame] using hhits
    · refine .inr ⟨_, (Path.mem_ancestors_ofNames_iff hnames).mpr ⟨[], List.nil_prefix, hne.symm, rfl⟩, ?_⟩
      exact hroot

end IgnoreOnly

end Rule

/-! ## Sites -/

/-- The rules of an ignore file that may be there. -/
def rulesIn (content : Option ByteArray) : List Rule :=
  (content.map Rule.ofContent).getD []

/-- A folder to be listed with the content of its two ignore files, if they are there.  Nothing else that is
    asked about the files below has a rule: neither the other ignore files of this folder and of the folders
    above and below it, nor the files of the user. -/
structure Site (machine : Machine) (root : String) (place : Place) (own versioned : Option ByteArray) :
    Prop where
  absolute : Path.isAbsolute root
  found : machine.disk.find machine.here root = .ok (place, .folder)
  own : (machine.disk.readBytes machine.here (Path.join (Path.join root ".symlist") "ignore")).toOption = own
  versioned : machine.disk.item? (place ++ [".gitignore"]) = versioned.map .file
  general : Rule.ofPlace machine.disk (place ++ [".ignore"]) = []
  unversioned : unversionedRules machine.disk machine.here place = []
  others : ∀ folder, folder ≠ place → folder <+: place ∨ place <+: folder →
    Quiet machine.disk machine.here folder
  personal : (Personal.rules machine).rules = []

/-- What stands below a folder is the same on two disks, hidden names apart. -/
def SameVisible (place : Place) (disk other : Disk) : Prop :=
  ∀ names, (∀ name ∈ names, isHiddenName name = false) →
    disk.item? (place ++ names) = other.item? (place ++ names)

theorem SameVisible.below {place : Place} {disk other : Disk} {name : String}
    (h : SameVisible place disk other) (hname : isHiddenName name = false) :
    SameVisible (place ++ [name]) disk other := by
  intro names hnames
  simpa using h (name :: names) (List.forall_mem_cons.mpr ⟨hname, hnames⟩)

theorem SameVisible.leads_iff {place : Place} {disk other : Disk} {names : List String}
    (h : SameVisible place disk other) (hnames : ∀ name ∈ names, isHiddenName name = false) :
    disk.Leads place names ↔ other.Leads place names := by
  induction names generalizing place with
  | nil => exact Iff.rfl
  | cons name rest ih =>
    obtain ⟨hname, hrest⟩ := List.forall_mem_cons.mp hnames
    have hitem := h [name] (by simpa using hname)
    by_cases hne : rest = []
    · subst hne
      simp only [Disk.Leads, hitem]
    · rw [Disk.leads_cons hne, Disk.leads_cons hne, hitem, ih (h.below hname) hrest]

/-- Hidden entries that are added make no difference. -/
theorem sameVisible_append {place : Place} {disk other : Disk} (added : List (Place × Item))
    (hentries : other.entries = disk.entries ++ added)
    (h : ∀ entry ∈ added, ∃ hidden rest, entry.1 = place ++ hidden :: rest ∧ isHiddenName hidden = true) :
    SameVisible place disk other := by
  intro names hnames
  have hnone : added.lookup (place ++ names) = none := by
    rw [List.lookup_eq_none_iff]
    intro entry hentry
    obtain ⟨hidden, rest, hkey, hhidden⟩ := h entry hentry
    rw [bne_iff_ne, hkey]
    intro heq
    have hvisible := hnames hidden (by rw [List.append_cancel_left heq]; exact List.mem_cons_self)
    rw [hvisible] at hhidden
    cases hhidden
  simp only [Disk.item?, Disk.itemAt?, hentries, List.lookup_append, hnone, Option.or_none]

/-- The path of a file below a folder without a name that is never listed and with no rule in the way. -/
def Shown (disk : Disk) (root : String) (place : Place) (rules : List Rule) (file : String) : Prop :=
  ∃ names, file = Path.join root (Path.ofNames names) ∧ disk.Leads place names ∧
    (∀ name ∈ names, isNeverListed name = false ∧ isHiddenName name = false) ∧ ¬ Rule.HitsWay rules names

theorem SameVisible.shown_iff {place : Place} {disk other : Disk} (h : SameVisible place disk other)
    {root file : String} {rules : List Rule} :
    Shown disk root place rules file ↔ Shown other root place rules file := by
  refine exists_congr fun names => and_congr_right fun _ => ?_
  -- That the names are visible is needed to compare what they lead to.
  rw [and_left_comm, and_left_comm (a := Disk.Leads other place names)]
  exact and_congr_right fun hnames =>
    and_congr_left' (h.leads_iff fun name hname => (hnames name hname).2)

namespace Site

variable {machine : Machine} {root : String} {place : Place} {own versioned : Option ByteArray}
  (h : Site machine root place own versioned)
include h

theorem root_ne_empty : root ≠ "" :=
  (Disk.pathFault?_eq_none_iff.mp (Disk.find_eq_ok_iff.mp h.found).1).2.1

theorem readOwnRules_eq : Filter.readOwnRules machine.disk machine.here root = rulesIn own := by
  rw [← h.own]
  unfold Filter.readOwnRules
  cases machine.disk.readBytes machine.here (Path.join (Path.join root ".symlist") "ignore") <;> rfl

theorem ofPlace_versioned : Rule.ofPlace machine.disk (place ++ [".gitignore"]) = rulesIn versioned := by
  unfold Rule.ofPlace
  rw [h.versioned]
  cases versioned <;> rfl

theorem quiet_above {above : Place} (habove : above ∈ Walk.placesAbove place) :
    Quiet machine.disk machine.here above := by
  simp only [Walk.placesAbove, List.mem_reverse, List.mem_map, List.mem_range] at habove
  obtain ⟨n, hn, rfl⟩ := habove
  refine h.others _ (fun heq => ?_) (.inl (List.take_prefix n place))
  have := congrArg List.length heq
  rw [List.length_take] at this
  omega

theorem quiet_below (below : List String) (hne : below ≠ []) :
    Quiet machine.disk machine.here (place ++ below) :=
  h.others _ (by simpa using hne) (.inr (List.prefix_append place below))

/-- All that the walk is told stands in the ignore file of version control. -/
theorem verdict?_scopeAt {options : Filter.Options} (hgit : options.useGit = true) (path : String)
    (isFolder : Bool) :
    (Walk.scopeAt machine options place).verdict? path isFolder =
      RuleSet.verdict? ⟨options.root, rulesIn versioned⟩ (dropHere path) isFolder := by
  have houtside : ∀ {kind : Level → RuleSet},
      (∀ above ∈ Walk.placesAbove place, (kind (Level.ofFolder machine.disk machine.here true
        (Machine.pathOf above) above)).rules = []) →
      ∀ path, firstVerdict? (((Walk.placesAbove place).map fun above => Level.ofFolder machine.disk
        machine.here true (Machine.pathOf above) above).map kind) path isFolder = none := by
    intro kind hkind path
    refine firstVerdict?_of_nil (fun set hset => ?_) path isFolder
    simp only [List.map_map, List.mem_map, Function.comp_apply] at hset
    obtain ⟨above, habove, rfl⟩ := hset
    exact hkind above habove
  have hquiet := fun above (habove : above ∈ Walk.placesAbove place) =>
    (h.quiet_above habove).rules_eq_nil true (Machine.pathOf above)
  -- Of the four sources of rules only one says something, and that only at the root.
  simp only [Walk.Scope.verdict?, Walk.Scope.kindVerdict?, Walk.scopeAt, hgit, if_true]
  rw [houtside fun above habove => (hquiet above habove).1,
    houtside fun above habove => (hquiet above habove).2.1,
    houtside fun above habove => (hquiet above habove).2.2, RuleSet.verdict?_of_nil h.personal]
  simp [firstVerdict?, Level.ofFolder, h.general, h.unversioned, h.ofPlace_versioned,
    RuleSet.verdict?_of_nil]

/-! ## Listing a site -/

/-- The walk takes the ways on which the ignore file of version control ignores nothing. -/
theorem way_iff {options : Filter.Options} (hroot : options.root = root) (hgit : options.useGit = true)
    {names : List String} (hvisible : ∀ name ∈ names, isHiddenName name = false)
    (hrules : Rule.IgnoreOnly (rulesIn versioned)) :
    Walk.Way machine.disk machine.here (Walk.scopeAt machine options place) root place names ↔
      machine.disk.Leads place names ∧ ¬ Rule.HitsWay (rulesIn versioned) names := by
  rw [Walk.way_iff h.quiet_below hvisible]
  refine and_congr_right fun hleads => ?_
  -- Both sides go through the beginnings of the names; the walk knows them by their full paths.
  simp only [Rule.HitsWay, not_exists, not_and]
  refine forall_congr' fun front => forall_congr' fun hfront => forall_congr' fun _ => ?_
  have hrelative : ¬Path.isAbsolute (Path.ofNames front) :=
    Path.not_isAbsolute_ofNames fun name hname => hleads.isName name (hfront.subset hname)
  have hjoined := dropHere_of_isAbsolute (Path.isAbsolute_join h.absolute (Path.ofNames front))
  rw [h.verdict?_scopeAt hgit, hroot, hjoined, RuleSet.verdict?, innerFrom_join h.absolute hrelative, Ne,
    hrules.verdict?_eq_iff]

/-- The filter also asks about the root. -/
theorem isIgnored_eq_false_iff {names : List String} (hleads : machine.disk.Leads place names)
    (hown : Rule.IgnoreOnly (rulesIn own)) {excludes : List String}
    (hexcludes : Rule.IgnoreOnly (Rule.ofLines excludes)) :
    (Filter.ofOptions machine.disk machine.here { root, excludes }).isIgnored machine.disk machine.here
        (Path.join root (Path.ofNames names)) = false ↔
      (∀ name ∈ names, isNeverListed name = false ∧ isHiddenName name = false) ∧
        ¬ Rule.HitsWay (rulesIn own ++ Rule.ofLines excludes) names ∧
          ¬ Rule.Hits (rulesIn own ++ Rule.ofLines excludes) "" true := by
  have hnames := hleads.isName
  have hverdict : ((Rule.verdictUp? (rulesIn own) (Path.ofNames names) false).or
        (Rule.verdictUp? (Rule.ofLines excludes) (Path.ofNames names) false)) = some .ignore ↔
      Rule.HitsWay (rulesIn own ++ Rule.ofLines excludes) names ∨
        Rule.Hits (rulesIn own ++ Rule.ofLines excludes) "" true := by
    rw [Rule.hitsWay_append, Rule.hits_append, or_or_or_comm,
      ← hown.verdictUp?_ofNames_iff hnames hleads.ne_nil,
      ← hexcludes.verdictUp?_ofNames_iff hnames hleads.ne_nil]
    -- Rules that only ignore have this verdict or none.
    rcases hown.verdictUp?_cases (Path.ofNames names) false with hnone | hignore
    · simp [hnone]
    · simp [hignore]
  simp only [Filter.isIgnored, Filter.ofOptions, if_true, h.readOwnRules_eq, RuleSet.verdictUp?,
    innerFrom_of_front? h.absolute (Path.front?_ofNames hnames),
    Path.stripBase?_join_ofNames h.root_ne_empty hnames hleads.ne_nil, Path.components_ofNames hnames,
    Walk.isFolder_of_leads h.found hleads, Bool.or_eq_false_iff, List.any_map,
    List.any_eq_false, beq_eq_false_iff_ne, Ne, hverdict, not_or]
  simp [Filter.dropsName_name_eq_false_iff]

/-- All rules count on the way to a file, and those that the filter is asked about also at the root. -/
theorem mem_discover_iff (hown : Rule.IgnoreOnly (rulesIn own))
    (hversioned : Rule.IgnoreOnly (rulesIn versioned)) {excludes : List String}
    (hexcludes : Rule.IgnoreOnly (Rule.ofLines excludes)) {extensions : List String} {file : String} :
    file ∈ (Filter.ofOptions machine.disk machine.here { root, excludes }).discover machine extensions ↔
      Filter.hasExtension extensions file = true ∧
        Shown machine.disk root place (rulesIn versioned ++ (rulesIn own ++ Rule.ofLines excludes)) file ∧
          ¬ Rule.Hits (rulesIn own ++ Rule.ofLines excludes) "" true := by
  have hfound : file ∈ Walk.files machine { root, excludes } ↔ ∃ names,
      Walk.Way machine.disk machine.here (Walk.scopeAt machine { root, excludes } place) root place names ∧
        file = Path.join root (Path.ofNames names) := Walk.mem_files_iff h.found
  rw [Filter.mem_discover_iff]
  refine (and_congr_left' hfound).trans ?_
  constructor
  · rintro ⟨⟨names, hway, rfl⟩, hextension, hkept⟩
    obtain ⟨hnames, hasked, hroot⟩ := (h.isIgnored_eq_false_iff hway.leads hown hexcludes).mp hkept
    obtain ⟨hleads, hpasses⟩ := (h.way_iff rfl rfl (fun name hname => (hnames name hname).2) hversioned).mp hway
    -- The walk has asked about its rules, and the filter about the others.
    refine ⟨hextension, ⟨names, rfl, hleads, hnames, ?_⟩, hroot⟩
    rw [Rule.hitsWay_append, not_or]
    exact ⟨hpasses, hasked⟩
  · rintro ⟨hextension, ⟨names, rfl, hleads, hnames, hclear⟩, hroot⟩
    obtain ⟨hpasses, hasked⟩ := not_or.mp (mt Rule.hitsWay_append.mpr hclear)
    refine ⟨⟨names, ?_, rfl⟩, hextension, ?_⟩
    · exact (h.way_iff rfl rfl (fun name hname => (hnames name hname).2) hversioned).mpr ⟨hleads, hpasses⟩
    · exact (h.isIgnored_eq_false_iff hleads hown hexcludes).mpr ⟨hnames, hasked, hroot⟩

end Site

/-! ## The three ways -/

namespace Site

variable {machine : Machine} {root file : String} {place : Place} {content : ByteArray}
  {patterns extensions : List String}

theorem mem_discover_given_iff (h : Site machine root place none none)
    (hrules : Rule.IgnoreOnly (Rule.ofLines patterns)) :
    file ∈ (Filter.ofOptions machine.disk machine.here { root, excludes := patterns }).discover machine
        extensions ↔
      Filter.hasExtension extensions file = true ∧
        Shown machine.disk root place (Rule.ofLines patterns) file ∧
          ¬ Rule.Hits (Rule.ofLines patterns) "" true :=
  h.mem_discover_iff Rule.ignoreOnly_nil Rule.ignoreOnly_nil hrules

theorem mem_discover_own_iff (h : Site machine root place (some content) none)
    (hrules : Rule.IgnoreOnly (Rule.ofContent content)) :
    file ∈ (Filter.ofOptions machine.disk machine.here { root }).discover machine extensions ↔
      Filter.hasExtension extensions file = true ∧
        Shown machine.disk root place (Rule.ofContent content) file ∧
          ¬ Rule.Hits (Rule.ofContent content) "" true := by
  have hempty : Rule.IgnoreOnly (Rule.ofLines []) := Rule.ignoreOnly_ofLines (by simp)
  rw [h.mem_discover_iff hrules Rule.ignoreOnly_nil hempty, Rule.ofLines_nil, List.append_nil]
  exact Iff.rfl

theorem mem_discover_versioned_iff (h : Site machine root place none (some content))
    (hrules : Rule.IgnoreOnly (Rule.ofContent content)) :
    file ∈ (Filter.ofOptions machine.disk machine.here { root }).discover machine extensions ↔
      Filter.hasExtension extensions file = true ∧
        Shown machine.disk root place (Rule.ofContent content) file := by
  have hempty : Rule.IgnoreOnly (Rule.ofLines []) := Rule.ignoreOnly_ofLines (by simp)
  rw [h.mem_discover_iff Rule.ignoreOnly_nil hrules hempty, Rule.ofLines_nil]
  simp [rulesIn, Rule.Hits]

end Site

namespace Filter

/-- Listings are in order, so that they are the same if the same files are on them. -/
theorem discover_eq_of_mem_iff {machine second : Machine} {filter other : Filter} {extensions : List String}
    (h : ∀ file, file ∈ filter.discover machine extensions ↔ file ∈ other.discover second extensions) :
    filter.discover machine extensions = other.discover second extensions :=
  Path.eq_of_pairwise_lt pairwise_lt_discover pairwise_lt_discover h

variable {plain owned versioned : Machine} {root : String} {place : Place} {patterns : List String}

/-- Patterns that ignore say the same whether they are given to the filter or stand in the ignore file of
    the root.  In the ignore file of version control they say the same as well, unless one of them matches
    the empty path: then it leaves out everything, but not from there. -/
theorem exclude_ways_agree
    (hpatterns : ∀ pattern ∈ patterns, Rule.Writable pattern ∧ ¬ Rule.Negated pattern)
    (hplain : Site plain root place none none)
    (howned : Site owned root place (some (Rule.fileOf patterns)) none)
    (hversioned : Site versioned root place none (some (Rule.fileOf patterns)))
    (hownedSame : SameVisible place plain.disk owned.disk)
    (hversionedSame : SameVisible place plain.disk versioned.disk) (extensions : List String) :
    let given := (ofOptions plain.disk plain.here { root, excludes := patterns }).discover plain extensions
    let byOwn := (ofOptions owned.disk owned.here { root }).discover owned extensions
    let byVersioned := (ofOptions versioned.disk versioned.here { root }).discover versioned extensions
    given = byOwn ∧
    given = if Rule.verdict? (Rule.ofLines patterns) "" true = some .ignore then [] else byVersioned := by
  intro given byOwn byVersioned
  have hread : Rule.ofContent (Rule.fileOf patterns) = Rule.ofLines patterns :=
    Rule.ofContent_fileOf fun pattern hpattern => (hpatterns pattern hpattern).1
  have hrules : Rule.IgnoreOnly (Rule.ofLines patterns) :=
    Rule.ignoreOnly_ofLines fun pattern hpattern => (hpatterns pattern hpattern).2
  have hgiven : ∀ file, file ∈ given ↔ _ := fun file => hplain.mem_discover_given_iff hrules
  constructor
  · refine discover_eq_of_mem_iff fun file => ?_
    rw [howned.mem_discover_own_iff (hread ▸ hrules), hread, ← hownedSame.shown_iff]
    exact hgiven file
  · split
    · rename_i hverdict
      have hroot := hrules.verdict?_eq_iff.mp hverdict
      exact List.eq_nil_iff_forall_not_mem.mpr fun file hfile => ((hgiven file).mp hfile).2.2 hroot
    · rename_i hverdict
      have hroot := mt hrules.verdict?_eq_iff.mpr hverdict
      refine discover_eq_of_mem_iff fun file => ?_
      rw [hversioned.mem_discover_versioned_iff (hread ▸ hrules), hread, ← hversionedSame.shown_iff]
      exact (hgiven file).trans (and_congr_right fun _ => and_iff_left hroot)

/-! ## A site -/

/-- Names of ignore files and of what they are kept in. -/
def ignoreNames : List String :=
  [".ignore", ".gitignore", ".git", "exclude"]

/-- A folder with three files in it and below it. -/
def sampleEntries : List (Place × Item) :=
  [(["work"], .folder), (["work", "a.ts"], .file ByteArray.empty), (["work", "src"], .folder),
   (["work", "src", "b.ts"], .file ByteArray.empty), (["work", "src", "gen"], .folder),
   (["work", "src", "gen", "c.ts"], .file ByteArray.empty)]

/-- The two ignore files of the folder, if they are there. -/
def sampleIgnoreFiles (own versioned : Option ByteArray) : List (Place × Item) :=
  (own.toList.flatMap fun content =>
    [(["work", ".symlist"], .folder), (["work", ".symlist", "ignore"], .file content)]) ++
  versioned.toList.map fun content => (["work", ".gitignore"], .file content)

/-- A machine with the folder and its ignore files. -/
def sampleMachine (own versioned : Option ByteArray) : Machine :=
  { disk :=
      { entries := sampleEntries ++ sampleIgnoreFiles own versioned
        sound := by cases own <;> cases versioned <;> exact of_decide_eq_true rfl }
    here := ["work"]
    environment := []
    input := ByteArray.empty }

theorem site_sampleMachine (own versioned : Option ByteArray) :
    Site (sampleMachine own versioned) "/work" ["work"] own versioned := by
  have hlast : ∀ entry ∈ (sampleMachine own versioned).disk.entries, ∀ name ∈ entry.1.getLast?,
      name ∈ ignoreNames → entry.1 = ["work"] ++ [".gitignore"] := by
    cases own <;> cases versioned <;> exact of_decide_eq_true rfl
  have hnone : ∀ (folder : Place) (name : String), name ∈ ignoreNames →
      (name = ".gitignore" → folder ≠ ["work"]) →
        (sampleMachine own versioned).disk.item? (folder ++ [name]) = none := by
    intro folder name hname hne
    rw [Disk.item?, Disk.itemAt?, if_neg (by simp), List.lookup_eq_none_iff]
    intro entry hentry
    rw [bne_iff_ne]
    intro hkey
    have hplace := hlast entry hentry name (by simp [← hkey]) hname
    obtain ⟨hfolder, hsame⟩ := List.append_inj' (hkey.trans hplace) rfl
    exact hne (List.cons.inj hsame).1 hfolder
  refine ⟨rfl, ?_, ?_, ?_, ?_, ?_, fun folder hfolder _ => ?_, rfl⟩
  · cases own <;> cases versioned <;> rfl
  · cases own <;> cases versioned <;> rfl
  · cases own <;> cases versioned <;> rfl
  · cases own <;> cases versioned <;> rfl
  · cases own <;> cases versioned <;> rfl
  · have hexclude := hnone (folder ++ [".git", "info"]) "exclude" (by decide) (by simp)
    rw [List.append_assoc] at hexclude
    exact .of_item? (hnone folder _ (by decide) fun _ => hfolder) (hnone folder _ (by decide) fun _ => hfolder)
      (hnone folder _ (by decide) fun _ => hfolder) hexclude

theorem sameVisible_sampleMachine (own versioned : Option ByteArray) :
    SameVisible ["work"] (sampleMachine none none).disk (sampleMachine own versioned).disk := by
  apply sameVisible_append (sampleIgnoreFiles own versioned)
  · simp [sampleMachine, sampleIgnoreFiles]
  intro entry hentry
  simp only [sampleIgnoreFiles, List.mem_append, List.mem_flatMap, List.mem_map, List.mem_cons,
    List.not_mem_nil, or_false] at hentry
  rcases hentry with ⟨content, -, rfl | rfl⟩ | ⟨content, -, rfl⟩
  · exact ⟨".symlist", [], rfl, rfl⟩
  · exact ⟨".symlist", ["ignore"], rfl, rfl⟩
  · exact ⟨".gitignore", [], rfl, rfl⟩

/-- The filter for the folder, with patterns given to it. -/
def sampleFilter (excludes : List String) (own versioned : Option ByteArray) : Filter :=
  ofOptions (sampleMachine own versioned).disk (sampleMachine own versioned).here { root := "/work", excludes }

/-- The listing of the folder. -/
def sampleListing (excludes : List String) (own versioned : Option ByteArray) : List String :=
  (sampleFilter excludes own versioned).discover (sampleMachine own versioned) []

theorem mem_sampleListing_iff {excludes : List String} {own versioned : Option ByteArray} {file : String} :
    file ∈ sampleListing excludes own versioned ↔
      (∃ names, Walk.Way (sampleMachine own versioned).disk ["work"]
        (Walk.scopeAt (sampleMachine own versioned) { root := "/work", excludes } ["work"]) "/work" ["work"]
          names ∧ file = Path.join "/work" (Path.ofNames names)) ∧
      (sampleFilter excludes own versioned).isIgnored (sampleMachine own versioned).disk ["work"] file =
        false := by
  have hsite := site_sampleMachine own versioned
  have hfound : file ∈ Walk.files (sampleMachine own versioned) { root := "/work", excludes } ↔ _ :=
    Walk.mem_files_iff hsite.found
  rw [sampleListing, mem_discover_iff]
  refine (and_congr_left' hfound).trans (and_congr_right fun _ => ?_)
  exact and_iff_right rfl

/-- A pattern for folders, which leaves out the last file, and one for files that are not there. -/
theorem exclude_ways_agree_sample :
    let patterns := ["gen/", "*.md"]
    let content := some (Rule.fileOf patterns)
    (∀ pattern ∈ patterns, Rule.Writable pattern ∧ ¬ Rule.Negated pattern) ∧
    Site (sampleMachine none none) "/work" ["work"] none none ∧
    Site (sampleMachine content none) "/work" ["work"] content none ∧
    Site (sampleMachine none content) "/work" ["work"] none content ∧
    SameVisible ["work"] (sampleMachine none none).disk (sampleMachine content none).disk ∧
    SameVisible ["work"] (sampleMachine none none).disk (sampleMachine none content).disk ∧
    "/work/src/b.ts" ∈ sampleListing patterns none none ∧
    "/work/src/gen/c.ts" ∉ sampleListing patterns none none ∧
    sampleListing patterns none none = sampleListing [] content none ∧
    sampleListing patterns none none = sampleListing [] none content := by
  intro patterns content
  have hpatterns : ∀ pattern ∈ patterns, Rule.Writable pattern ∧ ¬ Rule.Negated pattern := by decide
  have hroot : Rule.verdict? (Rule.ofLines patterns) "" true ≠ some .ignore := by decide +kernel
  obtain ⟨hown, hversioned⟩ := exclude_ways_agree hpatterns (site_sampleMachine none none)
    (site_sampleMachine content none) (site_sampleMachine none content)
    (sameVisible_sampleMachine content none) (sameVisible_sampleMachine none content) []
  rw [if_neg hroot] at hversioned
  refine ⟨hpatterns, site_sampleMachine _ _, site_sampleMachine _ _, site_sampleMachine _ _,
    sameVisible_sampleMachine _ _, sameVisible_sampleMachine _ _, ?_, fun hlisted => ?_, hown, hversioned⟩
  · refine mem_sampleListing_iff.mpr ⟨⟨["src", "b.ts"], .folder rfl ?_ (.file rfl ?_), rfl⟩, ?_⟩
    · decide +kernel
    · decide +kernel
    · decide +kernel
  · exact absurd (mem_sampleListing_iff.mp hlisted).2 (by decide +kernel)

/-- A folder whose name starts like that of the folder around it, which may have an ignore file of version
    control. -/
def nestedMachine (versioned : Option ByteArray) : Machine :=
  { disk :=
      { entries := [(["a"], .folder), (["a", "ab"], .folder), (["a", "ab", "c.ts"], .file ByteArray.empty)] ++
          versioned.toList.map fun content => (["a", ".gitignore"], .file content)
        sound := by cases versioned <;> exact of_decide_eq_true rfl }
    here := []
    environment := []
    input := ByteArray.empty }

/-- The listing of the outer folder by its path from the working folder. -/
def nestedListing (excludes : List String) (versioned : Option ByteArray) : List String :=
  (ofOptions (nestedMachine versioned).disk (nestedMachine versioned).here { root := "a", excludes }).discover
    (nestedMachine versioned) []

theorem mem_nestedListing_iff {excludes : List String} {versioned : Option ByteArray} :
    "a/ab/c.ts" ∈ nestedListing excludes versioned ↔
      Walk.Way (nestedMachine versioned).disk []
        (Walk.scopeAt (nestedMachine versioned) { root := "a", excludes } ["a"]) "a" ["a"] ["ab", "c.ts"] ∧
      (ofOptions (nestedMachine versioned).disk [] { root := "a", excludes }).isIgnored
        (nestedMachine versioned).disk [] "a/ab/c.ts" = false := by
  have hfound : (nestedMachine versioned).disk.find (nestedMachine versioned).here "a" =
      .ok (["a"], .folder) := by
    cases versioned <;> rfl
  have hfiles : "a/ab/c.ts" ∈ Walk.files (nestedMachine versioned) { root := "a", excludes } ↔ _ :=
    Walk.mem_files_iff hfound
  have hpath : "a/ab/c.ts" = Path.join "a" (Path.ofNames ["ab", "c.ts"]) := by decide
  rw [nestedListing, mem_discover_iff]
  refine (and_congr_left' hfiles).trans ⟨?_, fun ⟨hway, hkept⟩ => ⟨⟨_, hway, hpath⟩, rfl, hkept⟩⟩
  rintro ⟨⟨names, hway, hfile⟩, -, hkept⟩
  -- No other names have this path.
  have hdescent : Walk.Descent (nestedMachine versioned).disk "a" ["a"] names _ :=
    Walk.descent_of_leads (Disk.find_eq_ok_iff.mp hfound).2.2 hway.leads
  have hcomponents := hdescent.components (by decide)
  rw [← hfile] at hcomponents
  have hnames : ["ab", "c.ts"].map Path.Component.name = names.map .name :=
    (List.cons.inj hcomponents).2
  obtain rfl := List.map_injective_iff.mpr (fun _ _ => Path.Component.name.inj) hnames
  exact ⟨hway, hkept⟩

/-- A pattern for all folders matches the empty path.  In the ignore file of version control it leaves the
    file in the root alone, and given to the filter it leaves it out.  With a root that is not absolute, the
    filter asks about `b/c.ts` instead of `ab/c.ts`, and does not leave out what the walk passes over. -/
theorem exclude_ways_differ :
    (let patterns := ["*/"]
    let content := some (Rule.fileOf patterns)
    (∀ pattern ∈ patterns, Rule.Writable pattern ∧ ¬ Rule.Negated pattern) ∧
    Site (sampleMachine none none) "/work" ["work"] none none ∧
    Site (sampleMachine none content) "/work" ["work"] none content ∧
    SameVisible ["work"] (sampleMachine none none).disk (sampleMachine none content).disk ∧
    "/work/a.ts" ∈ sampleListing [] none content ∧ "/work/a.ts" ∉ sampleListing patterns none none) ∧
    "a/ab/c.ts" ∈ nestedListing ["ab/"] none ∧
    "a/ab/c.ts" ∉ nestedListing [] (some (Rule.fileOf ["ab/"])) := by
  refine ⟨⟨by decide, site_sampleMachine _ _, site_sampleMachine _ _, sameVisible_sampleMachine _ _, ?_,
    fun hlisted => ?_⟩, ?_, fun hlisted => ?_⟩
  · exact mem_sampleListing_iff.mpr ⟨⟨["a.ts"], .file rfl (by decide +kernel), rfl⟩, by decide +kernel⟩
  · exact absurd (mem_sampleListing_iff.mp hlisted).2 (by decide +kernel)
  · exact mem_nestedListing_iff.mpr
      ⟨.folder rfl (by decide +kernel) (.file rfl (by decide +kernel)), by decide +kernel⟩
  · cases (mem_nestedListing_iff.mp hlisted).1 with
    | folder _ hpasses _ => exact absurd hpasses (by decide +kernel)

end Filter

end CodeOutline
