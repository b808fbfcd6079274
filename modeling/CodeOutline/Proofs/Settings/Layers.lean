import CodeOutline.Proofs.Disk.Changes
import CodeOutline.Settings.Store

/-! # The layers of settings

Settings are laid over each other: the defaults, the user's file, the project's file and two variables of
the environment.  Each layer that is there has to make sense, even if a later one hides what it says
(`Loadable`), and then every setting is what the last layer says that sets it (`InForce`).  The patterns
for files to leave out are the exception, since those of the project are added to the user's.

The two files never stand at the same place, as the folders they stand in have different names.  So a
change of one of them does not touch what is read from the other.
-/

namespace CodeOutline

namespace Settings

/-! ## Counts -/

/-- A text stands for a number that a word of 64 bits can hold: decimal digits, with a plus sign before
    them if need be. -/
def Counts (text : String) (count : Nat) : Prop :=
  ∃ digits, digits ≠ [] ∧ (∀ c ∈ digits, c.isDigit) ∧
    (text.toList = digits ∨ text.toList = '+' :: digits) ∧
    count = Nat.ofDigitChars 10 digits 0 ∧ count ≤ Word.max64

theorem readCount?_eq_some_iff {text : String} {count : Nat} :
    readCount? text = some count ↔ Counts text count := by
  have hvalue : ∀ digits : List Char,
      digits.foldl (fun n c => n * 10 + (c.toNat - '0'.toNat)) 0 = Nat.ofDigitChars 10 digits 0 := by
    intro digits
    simp only [Nat.ofDigitChars, Nat.mul_comm]
  have hplus : Char.isDigit '+' = false := rfl
  unfold readCount? Counts
  split
  · rename_i rest htext
    simp only [hvalue, htext, Option.ite_none_right_eq_some, Option.some.injEq, Bool.and_eq_true,
      Bool.not_eq_true', List.isEmpty_eq_false_iff, List.all_eq_true, decide_eq_true_eq]
    constructor
    · rintro ⟨⟨⟨hne, hdigits⟩, hmax⟩, rfl⟩
      exact ⟨rest, hne, hdigits, .inr rfl, rfl, hmax⟩
    · rintro ⟨digits, hne, hdigits, rfl | hrest, rfl, hmax⟩
      · simp [hdigits '+' List.mem_cons_self] at hplus
      · obtain rfl : rest = digits := List.tail_eq_of_cons_eq hrest
        exact ⟨⟨⟨hne, hdigits⟩, hmax⟩, rfl⟩
  · rename_i chars hchars
    simp only [hvalue, Option.ite_none_right_eq_some, Option.some.injEq, Bool.and_eq_true,
      Bool.not_eq_true', List.isEmpty_eq_false_iff, List.all_eq_true, decide_eq_true_eq]
    constructor
    · rintro ⟨⟨⟨hne, hdigits⟩, hmax⟩, rfl⟩
      exact ⟨text.toList, hne, hdigits, .inl rfl, rfl, hmax⟩
    · rintro ⟨digits, hne, hdigits, rfl | hrest, rfl, hmax⟩
      · exact ⟨⟨⟨hne, hdigits⟩, hmax⟩, rfl⟩
      · exact absurd hrest (hchars digits)

/-! ## Patterns -/

theorem addPatterns_eq (patterns others : List String) :
    addPatterns patterns others = patterns ++ (others.filter (· ∉ patterns)).eraseDups := by
  induction others generalizing patterns with
  | nil => simp [addPatterns]
  | cons pattern rest ih =>
    rw [addPatterns, ih]
    by_cases hthere : pattern ∈ patterns
    · simp [hthere]
    · -- The pattern is there from now on, which keeps out its further occurrences.
      have hfilter : rest.filter (· ∉ patterns ++ [pattern]) =
          (rest.filter (· ∉ patterns)).filter (fun other => !other == pattern) := by
        rw [List.filter_filter]
        apply List.filter_congr
        intro other _
        by_cases hother : other = pattern <;> simp [hother]
      rw [if_neg (by simpa using hthere), hfilter, List.filter_cons_of_pos (by simpa using hthere),
        List.eraseDups_cons, List.append_assoc, List.singleton_append]

/-! ## Files -/

/-- The settings in the file a path leads to, if it can be read. -/
def decoded? (machine : Machine) (path : String) : Option Settings :=
  (machine.readText path).toOption.bind ofText?

theorem exists?_of_readText {machine : Machine} {path text : String}
    (h : machine.readText path = .ok text) : machine.disk.exists? machine.here path := by
  unfold Machine.readText Disk.readText Disk.readBytes at h
  rw [Disk.exists?]
  cases hfind : machine.disk.find machine.here path with
  | error fault => rw [hfind] at h; cases h
  | ok found => rfl

theorem read_eq_ok_iff {machine : Machine} {path : String} {found : Option Settings} :
    read machine path = .ok found ↔
      (machine.disk.exists? machine.here path →
        ∃ text settings, machine.readText path = .ok text ∧ ofText? text = some settings) ∧
      found = decoded? machine path := by
  unfold read decoded?
  by_cases hthere : machine.disk.exists? machine.here path
  · simp only [hthere, if_true, true_implies]
    cases hread : machine.readText path with
    | error fault => simp
    | ok text => cases hsettings : ofText? text <;> simp [hsettings, Except.toOption, eq_comm]
  · cases hread : machine.readText path with
    | error fault => simp [hthere, Except.toOption, eq_comm]
    | ok text => exact absurd (exists?_of_readText hread) hthere

/-! ## Variables -/

theorem withVariables_eq_ok_iff {machine : Machine} {settings found : Settings} :
    withVariables machine settings = .ok found ↔
      (∀ text, machine.valueOf? "SYMLIST_CONCURRENCY" = some text → ∃ count, Counts text count) ∧
      found = { settings with
        output.format := (machine.valueOf? "SYMLIST_OUTPUT_FORMAT").getD settings.output.format
        folder.concurrency := ((machine.valueOf? "SYMLIST_CONCURRENCY").bind readCount?).getD
          settings.folder.concurrency } := by
  simp only [withVariables, ← readCount?_eq_some_iff, ← Option.isSome_iff_exists]
  cases machine.valueOf? "SYMLIST_CONCURRENCY" with
  | none => cases machine.valueOf? "SYMLIST_OUTPUT_FORMAT" <;> simpa using eq_comm
  | some text =>
    cases hcount : readCount? text with
    | none => simp [hcount]
    | some count =>
      cases machine.valueOf? "SYMLIST_OUTPUT_FORMAT" <;> simpa [hcount] using eq_comm

/-! ## All layers -/

/-- A setting as the files give it: the project's, else the user's, else the default. -/
def fromFiles {α : Type} (get : Settings → α) (user project : Option Settings) : α :=
  ((project.map get).or (user.map get)).getD (get {})

/-- The patterns as the files give them: where both are there, those of the user and then those of the
    project that are new, each once. -/
def patternsFromFiles : Option Settings → Option Settings → List String
  | some user, some project => user.folder.exclude ++
    (project.folder.exclude.filter (· ∉ user.folder.exclude)).eraseDups
  | user, project => fromFiles (·.folder.exclude) user project

/-- Every layer that is there makes sense: the files are texts that hold settings, and the variable that
    has to be a number is one. -/
structure Loadable (machine : Machine) (root : String) : Prop where
  files : ∀ scope, machine.disk.exists? machine.here (path machine root scope) →
    ∃ text settings, machine.readText (path machine root scope) = .ok text ∧
      ofText? text = some settings
  concurrency : ∀ text, machine.valueOf? "SYMLIST_CONCURRENCY" = some text →
    ∃ count, Counts text count

/-- Settings with each one taken from the last layer that sets it. -/
structure InForce (machine : Machine) (user project : Option Settings) (settings : Settings) : Prop where
  format : settings.output.format = (machine.valueOf? "SYMLIST_OUTPUT_FORMAT").getD
    (fromFiles (·.output.format) user project)
  concurrency : (machine.valueOf? "SYMLIST_CONCURRENCY").elim
    (settings.folder.concurrency = fromFiles (·.folder.concurrency) user project)
    (Counts · settings.folder.concurrency)
  maxFileSizeMb : settings.folder.maxFileSizeMb = fromFiles (·.folder.maxFileSizeMb) user project
  includeHidden : settings.folder.includeHidden = fromFiles (·.folder.includeHidden) user project
  respectGitignore :
    settings.folder.respectGitignore = fromFiles (·.folder.respectGitignore) user project
  exclude : settings.folder.exclude = patternsFromFiles user project

theorem exclude_combine (user project : Option Settings) :
    (combine user project).folder.exclude = patternsFromFiles user project := by
  cases user <;> cases project <;>
    simp [combine, merge, patternsFromFiles, fromFiles, addPatterns_eq]

/-- All that `merge` takes from the project comes from the last file there is. -/
theorem combine_of_merge {α : Type} (get : Settings → α)
    (hget : ∀ user project, get (merge user project) = get project) (user project : Option Settings) :
    get (combine user project) = fromFiles get user project := by
  cases user <;> cases project <;> simp [combine, fromFiles, hget]

theorem load_eq_ok_iff {machine : Machine} {root : String} {found : Settings} :
    load machine root = .ok found ↔ ∃ user project, read machine (userPath machine) = .ok user ∧
      read machine (projectPath root) = .ok project ∧
      withVariables machine (combine user project) = .ok found := by
  unfold load
  cases read machine (userPath machine) with
  | error e => simp [bind, Except.bind]
  | ok user => cases read machine (projectPath root) <;> simp [bind, Except.bind]

theorem Loadable.of_load {machine : Machine} {root : String} {found : Settings}
    (h : load machine root = .ok found) : Loadable machine root := by
  obtain ⟨user, project, huser, hproject, hfound⟩ := load_eq_ok_iff.mp h
  refine ⟨fun scope => ?_, (withVariables_eq_ok_iff.mp hfound).1⟩
  cases scope with
  | user => exact (read_eq_ok_iff.mp huser).1
  | project => exact (read_eq_ok_iff.mp hproject).1

theorem Loadable.exists_load {machine : Machine} {root : String} (h : Loadable machine root) :
    ∃ settings, load machine root = .ok settings :=
  ⟨_, load_eq_ok_iff.mpr ⟨_, _, read_eq_ok_iff.mpr ⟨h.files .user, rfl⟩,
    read_eq_ok_iff.mpr ⟨h.files .project, rfl⟩, withVariables_eq_ok_iff.mpr ⟨h.concurrency, rfl⟩⟩⟩

theorem inForce_of_load {machine : Machine} {root : String} {settings : Settings}
    (h : load machine root = .ok settings) :
    InForce machine (decoded? machine (userPath machine)) (decoded? machine (projectPath root))
      settings := by
  obtain ⟨user, project, huser, hproject, hfound⟩ := load_eq_ok_iff.mp h
  rw [← (read_eq_ok_iff.mp huser).2, ← (read_eq_ok_iff.mp hproject).2]
  obtain ⟨hcount, rfl⟩ := withVariables_eq_ok_iff.mp hfound
  -- The variables change two settings and leave the others as the files give them.
  refine ⟨?_, ?_, combine_of_merge (·.folder.maxFileSizeMb) (fun _ _ => rfl) user project,
    combine_of_merge (·.folder.includeHidden) (fun _ _ => rfl) user project,
    combine_of_merge (·.folder.respectGitignore) (fun _ _ => rfl) user project,
    exclude_combine user project⟩
  · rw [← combine_of_merge (·.output.format) (fun _ _ => rfl)]
  · rw [← combine_of_merge (·.folder.concurrency) (fun _ _ => rfl)]
    cases hvariable : machine.valueOf? "SYMLIST_CONCURRENCY" with
    | none => rfl
    | some text =>
      obtain ⟨count, hread⟩ := hcount text hvariable
      simpa [readCount?_eq_some_iff.mpr hread] using hread

/-! ## One file apart from the other -/

theorem not_leadsTo_projectPath {disk : Disk} {here place : Place} {machine : Machine} {root : String}
    (h : disk.LeadsTo here (userPath machine) place) : ¬disk.LeadsTo here (projectPath root) place := by
  intro hproject
  obtain ⟨folder, hplace⟩ := h.of_join_join (by decide) (by decide)
  obtain ⟨other, hother⟩ := Disk.LeadsTo.of_join_join (by decide) (by decide) hproject
  have hsame : (folder ++ ["symlist"]) ++ ["config.toml"] = (other ++ [".symlist"]) ++ ["config.toml"] := by
    simpa using hplace.symm.trans hother
  have hnames := List.append_inj_right' (List.append_inj_left' hsame rfl) rfl
  exact absurd hnames (by decide)

/-- What is read from a file depends on nothing but what its path leads to. -/
theorem read_congr {machine other : Machine} {path : String}
    (h : (machine.disk.find machine.here path).toOption = (other.disk.find other.here path).toOption) :
    read machine path = read other path := by
  have hthere : machine.disk.exists? machine.here path = other.disk.exists? other.here path := by
    rw [Disk.exists?, Disk.exists?, h]
  unfold read
  rw [hthere]
  split
  · rename_i hfound
    -- Something is found, so it is the same on both sides.
    obtain ⟨found, hother⟩ := Option.isSome_iff_exists.mp hfound
    rw [hother] at h
    rw [toOption_eq_some_iff] at h hother
    simp only [Machine.readText, Disk.readText, Disk.readBytes, h, hother]
  · rfl

theorem read_eq_some {machine : Machine} {path : String} {settings : Settings}
    (h : decoded? machine path = some settings) : read machine path = .ok (some settings) := by
  refine read_eq_ok_iff.mpr ⟨fun _ => ?_, h.symm⟩
  obtain ⟨text, htext, hsettings⟩ := Option.bind_eq_some_iff.mp h
  exact ⟨text, settings, toOption_eq_some_iff.mp htext, hsettings⟩

theorem load_of_same_patterns {machine : Machine} {root : String} {disk : Disk} {user other : Settings}
    (hdisk : Disk.SameButFor machine.here (userPath machine) machine.disk disk)
    (hproject : machine.disk.exists? machine.here (projectPath root))
    (huser : decoded? machine (userPath machine) = some user)
    (hother : decoded? { machine with disk } (userPath machine) = some other)
    (hpatterns : user.folder.exclude = other.folder.exclude) :
    load { machine with disk } root = load machine root := by
  have hsame : read machine (projectPath root) = read { machine with disk } (projectPath root) :=
    read_congr (hdisk.toOption_find fun _ hplace huser => not_leadsTo_projectPath huser hplace)
  unfold load
  rw [← hsame, read_eq_some huser]
  rw [show userPath { machine with disk } = userPath machine from rfl, read_eq_some hother]
  cases hread : read machine (projectPath root) with
  | error e => rfl
  | ok project =>
    cases project with
    | none =>
      -- A file that is there does not count as missing.
      obtain ⟨hfound, hnone⟩ := read_eq_ok_iff.mp hread
      obtain ⟨text, settings, htext, hsettings⟩ := hfound hproject
      simp [decoded?, htext, hsettings, Except.toOption] at hnone
    | some project =>
      have hmerge : merge other project = merge user project := by simp [merge, hpatterns]
      simp only [bind, Except.bind, combine, hmerge]
      rfl

theorem loadUser_congr {machine : Machine} {root : String} {disk : Disk}
    {environment : List (String × String)}
    (hdisk : Disk.SameButFor machine.here (projectPath root) machine.disk disk)
    (hvalues : ∀ name, name ≠ "SYMLIST_OUTPUT_FORMAT" → name ≠ "SYMLIST_CONCURRENCY" →
      environment.lookup name = machine.environment.lookup name) :
    loadUser { machine with disk, environment } = loadUser machine := by
  have hpath : userPath { machine with disk, environment } = userPath machine := by
    simp only [userPath, Machine.home?, Machine.valueOf?, hvalues "XDG_CONFIG_HOME" (by decide) (by decide),
      hvalues "HOME" (by decide) (by decide)]
  have hread : read machine (userPath machine) = read { machine with disk, environment } (userPath machine) :=
    read_congr (hdisk.toOption_find fun _ => not_leadsTo_projectPath)
  unfold loadUser
  rw [hpath, hread]

/-- Settings can be loaded if every layer that is there makes sense, and then each of them comes from the
    last layer that sets it.  So a project's file hides all of the user's but the patterns, and the
    user's settings alone depend neither on the project's file nor on the variables. -/
theorem load_by_layers (machine : Machine) (root : String) :
    ((∃ settings, load machine root = .ok settings) ↔ Loadable machine root) ∧
    (∀ settings, load machine root = .ok settings →
      InForce machine (decoded? machine (userPath machine)) (decoded? machine (projectPath root))
        settings) ∧
    (∀ disk user other, Disk.SameButFor machine.here (userPath machine) machine.disk disk →
      machine.disk.exists? machine.here (projectPath root) →
      decoded? machine (userPath machine) = some user →
      decoded? { machine with disk } (userPath machine) = some other →
      user.folder.exclude = other.folder.exclude →
      load { machine with disk } root = load machine root) ∧
    (∀ disk environment, Disk.SameButFor machine.here (projectPath root) machine.disk disk →
      (∀ name, name ≠ "SYMLIST_OUTPUT_FORMAT" → name ≠ "SYMLIST_CONCURRENCY" →
        environment.lookup name = machine.environment.lookup name) →
      loadUser { machine with disk, environment } = loadUser machine) :=
  ⟨⟨fun ⟨_, h⟩ => .of_load h, fun h => h.exists_load⟩, fun _ => inForce_of_load,
    fun _ _ _ => load_of_same_patterns, fun _ _ => loadUser_congr⟩

/-- A machine with settings of its user and of a project, and a variable that comes before both. -/
def layeredMachine : Machine :=
  { disk := { entries := [(["home"], .folder), (["home", ".config"], .folder),
      (["home", ".config", "symlist"], .folder),
      (["home", ".config", "symlist", "config.toml"],
        .file "[folder]\nconcurrency = 3\nexclude = [\"a\", \"b\"]\n".toUTF8),
      (["work"], .folder), (["work", ".symlist"], .folder),
      (["work", ".symlist", "config.toml"],
        .file "[folder]\nexclude = [\"b\", \"c\", \"c\"]\n[output]\nformat = \"json\"\n".toUTF8)] }
    here := ["work"]
    environment := [("HOME", "/home"), ("SYMLIST_CONCURRENCY", "+7")]
    input := ByteArray.empty }

/-- The place of the user's settings on `layeredMachine`. -/
def layeredUserPlace : Place :=
  ["home", ".config", "symlist", "config.toml"]

/-- The place of the project's settings on `layeredMachine`. -/
def layeredProjectPlace : Place :=
  ["work", ".symlist", "config.toml"]

theorem load_by_layers_both_files :
    load layeredMachine "/work" =
        .ok ⟨{ concurrency := 7, exclude := ["a", "b", "c"] }, ⟨"json"⟩⟩ ∧
      Loadable layeredMachine "/work" ∧
      InForce layeredMachine (some ⟨{ concurrency := 3, exclude := ["a", "b"] }, {}⟩)
        (some ⟨{ exclude := ["b", "c", "c"] }, ⟨"json"⟩⟩)
        ⟨{ concurrency := 7, exclude := ["a", "b", "c"] }, ⟨"json"⟩⟩ ∧
      (let disk := layeredMachine.disk.put layeredUserPlace
        (.file "[folder]\nmax_file_size_mb = 1\nexclude = [\"a\", \"b\"]\n".toUTF8)
      load { layeredMachine with disk } "/work" = load layeredMachine "/work") ∧
      (let disk := layeredMachine.disk.put layeredProjectPlace (.file "?".toUTF8)
      let environment := [("SYMLIST_OUTPUT_FORMAT", "json"), ("HOME", "/home")]
      loadUser { layeredMachine with disk, environment } = loadUser layeredMachine) := by
  obtain ⟨hloadable, hinForce, hsame, huser⟩ := load_by_layers layeredMachine "/work"
  have hload : load layeredMachine "/work" =
      .ok ⟨{ concurrency := 7, exclude := ["a", "b", "c"] }, ⟨"json"⟩⟩ :=
    toOption_eq_some_iff.mp (by decide +kernel)
  have hlayers := hinForce _ hload
  rw [show decoded? layeredMachine (userPath layeredMachine) =
      some ⟨{ concurrency := 3, exclude := ["a", "b"] }, {}⟩ by decide +kernel,
    show decoded? layeredMachine (projectPath "/work") =
      some ⟨{ exclude := ["b", "c", "c"] }, ⟨"json"⟩⟩ by decide +kernel] at hlayers
  refine ⟨hload, hloadable.mp ⟨_, hload⟩, hlayers, ?_, ?_⟩
  · apply hsame _ ⟨{ concurrency := 3, exclude := ["a", "b"] }, {}⟩
      ⟨{ maxFileSizeMb := 1, exclude := ["a", "b"] }, {}⟩
    · exact .put_file (toOption_eq_some_iff.mp (by decide +kernel)) (by decide) _
    · decide +kernel
    · decide +kernel
    · decide +kernel
    · rfl
  · apply huser
    · exact .put_file (toOption_eq_some_iff.mp (by decide +kernel)) (by decide) _
    · intro name hformat hconcurrency
      rw [← beq_eq_false_iff_ne] at hformat hconcurrency
      simp [layeredMachine, List.lookup_cons, hformat, hconcurrency]

end Settings

end CodeOutline
