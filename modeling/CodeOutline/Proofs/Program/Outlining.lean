import CodeOutline.Program.Run
import CodeOutline.Proofs.Folder.Blocks
import CodeOutline.Proofs.Listing.Paths

/-! # Outlining folders and files

The outline of a folder and that of a file are made along different ways.  A file that is listed by
itself may be missing, unreadable or in an unknown language, and the run then fails; in a folder
such files are left out.  `outlineFile_eq_ok_iff` and `isSome_fetch_iff` say for both ways what it
takes for a file to be outlined: it is the same but for the limit on its size.

So the outline of a folder is put together from the outlines that its files have when they are listed
one by one.
-/

namespace CodeOutline

open CommandLine (Invocation)

namespace Disk

/-- The size of the file a path leads to. -/
def size? (disk : Disk) (here : Place) (path : String) : Option Nat :=
  (disk.readBytes here path).toOption.map ByteArray.size

theorem readBytes_of_readText {disk : Disk} {here : Place} {path text : String}
    (h : disk.readText here path = .ok text) : ∃ content, disk.readBytes here path = .ok content := by
  unfold readText at h
  cases hbytes : disk.readBytes here path with
  | error fault => rw [hbytes] at h; cases h
  | ok content => exact ⟨content, rfl⟩

/-- What can be read is a file. -/
theorem isFile_of_readBytes {disk : Disk} {here : Place} {path : String} {content : ByteArray}
    (h : disk.readBytes here path = .ok content) : disk.isFile here path := by
  unfold readBytes at h
  split at h
  · cases h
  · cases h
  · rename_i hfind
    rw [isFile, hfind]

end Disk

/-! ## Files in a folder -/

namespace Folder

theorem isTooLarge_eq_false_iff {disk : Disk} {here : Place} {maxSize : Nat} {path : String}
    {content : ByteArray} (h : disk.readBytes here path = .ok content) :
    isTooLarge disk here maxSize path = false ↔ (disk.size? here path).any (· ≤ maxSize) := by
  simp [isTooLarge, Disk.size?, h, Except.toOption]

/-- A file is fetched if it is not too large, can be read and has symbols. -/
theorem isSome_fetch_iff {disk : Disk} {here : Place} {provider : Provider} {maxSize : Nat}
    {path : String} :
    (fetch disk here provider maxSize path).isSome ↔
      (disk.size? here path).any (· ≤ maxSize) ∧ ∃ text symbols,
        disk.readText here path = .ok text ∧ provider path text = .ok (some symbols) := by
  rw [Option.isSome_iff_exists]
  constructor
  · rintro ⟨entry, hentry⟩
    obtain ⟨hsize, -, hread, hprovided⟩ := fetch_eq_some_iff.mp hentry
    obtain ⟨content, hcontent⟩ := Disk.readBytes_of_readText hread
    exact ⟨(isTooLarge_eq_false_iff hcontent).mp hsize, _, _, hread, hprovided⟩
  · rintro ⟨hsize, text, symbols, hread, hprovided⟩
    obtain ⟨content, hcontent⟩ := Disk.readBytes_of_readText hread
    exact ⟨⟨path, text, symbols⟩, fetch_eq_some_iff.mpr
      ⟨(isTooLarge_eq_false_iff hcontent).mpr hsize, rfl, hread, hprovided⟩⟩

end Folder

/-! ## Files by themselves -/

namespace Session

theorem outlineFile_eq_ok_iff {grammars : Grammars} {machine : Machine} {session : Session}
    {file : String} (habsolute : Path.isAbsolute file) {answer : OutlineAnswer} :
    session.outlineFile grammars machine file none = .ok answer ↔
      ∃ text symbols outline, machine.readText file = .ok text ∧
        Provider.ofGrammars grammars file text = .ok (some symbols) ∧
        Outline.render (.ofText text) symbols = .ok outline ∧
        answer = ⟨Path.shownFrom session.root file, 1, Symbol.countAll symbols, outline⟩ := by
  unfold outlineFile fileProvider
  simp only [Path.join_of_isAbsolute session.root habsolute]
  constructor
  · intro h
    -- Each step either ends with a failure or gives what the next one needs.
    split at h
    · cases h
    split at h
    · cases h
    rename_i text hread
    split at h
    · cases h
    · cases h
    rename_i symbols hprovided
    split at h
    · cases h
    rename_i outline hrender
    exact ⟨text, symbols, outline, hread, hprovided, hrender, (Except.ok.inj h).symm⟩
  · rintro ⟨text, symbols, outline, hread, hprovided, hrender, rfl⟩
    obtain ⟨content, hcontent⟩ := Disk.readBytes_of_readText hread
    rw [if_neg (by simp [Disk.isFile_of_readBytes hcontent])]
    simp only [hread, hprovided, hrender]

theorem outlineFolder_eq_ok {grammars : Grammars} {machine : Machine} {session : Session}
    {dir outline : String} {excludes : List String} {hidden : Bool}
    (hdir : machine.disk.isFolder machine.here (Path.join session.root dir))
    (hblocks : Folder.renderBlocks session.root (session.folderEntries grammars machine
      (Path.join session.root dir) excludes hidden) = .ok outline) :
    ∃ answer, session.outlineFolder grammars machine dir excludes hidden = .ok answer ∧
      answer.outline = outline := by
  unfold outlineFolder
  rw [if_neg (by simp [hdir])]
  simp only [hblocks]
  exact ⟨_, rfl, rfl⟩

/-- What a session takes over from how it is started. -/
theorem fields_of_start {machine : Machine} {root : String} {format destination : Option String}
    {session : Session} (h : start machine root format destination = .ok session) :
    session.root = root ∧ session.destination = destination := by
  unfold start at h
  dsimp only at h
  split at h
  · cases h
  · cases h
    exact ⟨rfl, rfl⟩

end Session

/-! ## Runs -/

theorem Failure.status_ne_zero (failure : Failure) : failure.status ≠ 0 := by
  unfold status
  split <;> decide

/-- How a run ends that prints an outline as text, if there is one. -/
def Outcome.ofOutline (disk : Disk) (errors : Format) : Except Failure OutlineAnswer → Outcome
  | .ok answer => ⟨0, { out := answer.outline }, disk⟩
  | .error failure => .ofFailure disk .text errors failure

theorem run_eq_ofOutline (grammars : Grammars) {machine : Machine} (invocation : Invocation)
    {session : Session} {result : Except Failure OutlineAnswer}
    (hstart : Session.start machine machine.herePath invocation.format none = .ok session)
    (htext : session.format = .text) (hprinted : invocation.output = none)
    (hperform : session.perform grammars machine invocation.task =
      OutlineAnswer.deliverResult machine session result) :
    invocation.run grammars machine =
      .ofOutline machine.disk (Session.errorFormat machine invocation.format) result := by
  have hdestination := (Session.fields_of_start hstart).2
  unfold Invocation.run
  simp only [hprinted, hstart, hperform]
  cases result with
  | error failure => simp only [OutlineAnswer.deliverResult, Outcome.ofOutline, htext]
  | ok answer =>
    simp only [OutlineAnswer.deliverResult, OutlineAnswer.deliver, hdestination,
      OutlineAnswer.content, Outcome.ofOutline, htext]

section Lists

variable {grammars : Grammars} {machine : Machine} {format : Option String} (verbose : Bool)
  {session : Session}
  (hstart : Session.start machine machine.herePath format none = .ok session)
  (htext : session.format = .text)
include hstart htext

/-- Listing a file that can be read prints the outline of its symbols. -/
theorem list_run_eq {file text out : String} {symbols : List Symbol}
    (habsolute : Path.isAbsolute file) (hread : machine.readText file = .ok text)
    (hprovided : Provider.ofGrammars grammars file text = .ok (some symbols))
    (hrender : Outline.render (.ofText text) symbols = .ok out) :
    Invocation.run grammars machine { task := .list file none, format, verbose } =
      ⟨0, { out }, machine.disk⟩ := by
  have hresult : session.outlineFile grammars machine file none = .ok _ :=
    (Session.outlineFile_eq_ok_iff habsolute).mpr
      ⟨text, symbols, out, hread, hprovided, hrender, rfl⟩
  rw [run_eq_ofOutline grammars { task := .list file none, format, verbose } hstart htext rfl rfl,
    hresult]
  rfl

/-- A file that can be listed can be read and has symbols. -/
theorem exists_symbols_of_list_run {file : String} (habsolute : Path.isAbsolute file)
    (h : (Invocation.run grammars machine { task := .list file none, format, verbose }).status = 0) :
    ∃ text symbols, machine.readText file = .ok text ∧
      Provider.ofGrammars grammars file text = .ok (some symbols) := by
  rw [run_eq_ofOutline grammars { task := .list file none, format, verbose } hstart htext rfl
    rfl] at h
  cases hresult : session.outlineFile grammars machine file none with
  | error failure =>
    rw [hresult] at h
    exact absurd h failure.status_ne_zero
  | ok answer =>
    obtain ⟨text, symbols, -, hread, hprovided, -⟩ :=
      (Session.outlineFile_eq_ok_iff habsolute).mp hresult
    exact ⟨text, symbols, hread, hprovided⟩

/-! ## Folders and lists -/

variable (hcount : CountRows grammars)
include hcount

/-- A file is fetched for the outline of a folder exactly if it is not too large and can be listed by
    itself. -/
theorem isSome_fetch_iff_list_run {file : String} (habsolute : Path.isAbsolute file)
    (maxSize : Nat) :
    (Folder.fetch machine.disk machine.here (.ofGrammars grammars) maxSize file).isSome ↔
      (machine.disk.size? machine.here file).any (· ≤ maxSize) ∧
        (Invocation.run grammars machine { task := .list file none, format, verbose }).status = 0 := by
  rw [Folder.isSome_fetch_iff]
  refine and_congr_right fun _ => ⟨?_, exists_symbols_of_list_run verbose hstart htext habsolute⟩
  rintro ⟨text, symbols, hread, hprovided⟩
  obtain ⟨out, hrender⟩ := Provider.exists_render_of_provided hcount hprovided
  rw [list_run_eq verbose hstart htext habsolute hread hprovided hrender]

/-- A fetched file has the outline that is printed when it is listed by itself. -/
theorem render_eq_of_fetch {file : String} (habsolute : Path.isAbsolute file) {maxSize : Nat}
    {entry : Folder.Entry}
    (h : Folder.fetch machine.disk machine.here (.ofGrammars grammars) maxSize file = some entry) :
    Outline.render (.ofText entry.text) entry.symbols =
      .ok (Invocation.run grammars machine
        { task := .list entry.path none, format, verbose }).report.out := by
  obtain ⟨-, rfl, hread, hprovided⟩ := Folder.fetch_eq_some_iff.mp h
  obtain ⟨out, hrender⟩ := Provider.exists_render_of_provided hcount hprovided
  rw [list_run_eq verbose hstart htext habsolute hread hprovided hrender, hrender]

/-- The blocks of files with absolute paths have the outlines that listing the files prints. -/
theorem renderBlocks_collect_eq {files : List String}
    (habsolute : ∀ file ∈ files, Path.isAbsolute file) (limits : Folder.Limits) (root : String) :
    Folder.renderBlocks root
        (Folder.collect machine.disk machine.here (.ofGrammars grammars) limits files) =
      .ok (String.join ((files.filter fun file =>
        (machine.disk.size? machine.here file).any (· ≤ limits.maxSize) &&
          (Invocation.run grammars machine
            { task := .list file none, format, verbose }).status == 0).map
        fun file => Folder.blockText root file
          (Invocation.run grammars machine
            { task := .list file none, format, verbose }).report.out)) := by
  have hrender : ∀ entry ∈ Folder.collect machine.disk machine.here (.ofGrammars grammars) limits
      files,
      Outline.render (.ofText entry.text) entry.symbols =
        .ok (Invocation.run grammars machine
          { task := .list entry.path none, format, verbose }).report.out := by
    intro entry hentry
    rw [Folder.collect_eq_filterMap] at hentry
    obtain ⟨file, hfile, hfetch⟩ := List.mem_filterMap.mp hentry
    exact render_eq_of_fetch verbose hstart htext hcount (habsolute file hfile) hfetch
  rw [Folder.renderBlocks_eq_ok _ hrender, Folder.map_path_collect fun path =>
    Folder.blockText root path (Invocation.run grammars machine
      { task := .list path none, format, verbose }).report.out]
  congr 3
  -- What is left is which files have a block at all.
  refine List.filter_congr fun file hfile => ?_
  rw [Bool.eq_iff_iff, Bool.and_eq_true, beq_iff_eq]
  exact isSome_fetch_iff_list_run verbose hstart htext hcount (habsolute file hfile) limits.maxSize

end Lists

/-- The outline of a folder is put together from the outlines of its files when they are listed one
    by one: of those that are not too large and can be listed, in the order in which they are
    found. -/
theorem folder_run_concatenates_list_runs {grammars : Grammars} (hcount : CountRows grammars)
    {machine : Machine} {format listFormat : Option String} (verbose listVerbose : Bool)
    {session listSession : Session}
    (hstart : Session.start machine machine.herePath format none = .ok session)
    (htext : session.format = .text)
    (hlistStart : Session.start machine machine.herePath listFormat none = .ok listSession)
    (hlistText : listSession.format = .text)
    (dir : String) (excludes : List String) (hidden : Bool)
    (hdir : machine.disk.isFolder machine.here (Path.join session.root dir)) :
    let outcome := Invocation.run grammars machine
      { task := .folder dir excludes hidden, format, verbose }
    let listed := fun file => Invocation.run grammars machine
      { task := .list file none, format := listFormat, verbose := listVerbose }
    let files := (session.folderFilter machine (Path.join session.root dir) excludes hidden).discover
      machine Language.allExtensions
    outcome.status = 0 ∧ outcome.disk = machine.disk ∧
      outcome.report.out = String.join ((files.filter fun file =>
        (machine.disk.size? machine.here file).any (· ≤ session.settings.folder.maxFileSize) &&
          (listed file).status == 0).map fun file =>
        Path.relativeTo session.root file ++ "\n---\n" ++ (listed file).report.out ++ "\n") := by
  intro outcome listed files
  have hroot : Path.isAbsolute session.root :=
    (Session.fields_of_start hstart).1 ▸ machine.isAbsolute_herePath
  -- The files are found below an absolute path, so it does not matter where they are listed from.
  have habsolute : ∀ file ∈ files, Path.isAbsolute file := by
    intro file hfile
    refine Filter.isAbsolute_of_mem_discover ?_ hfile
    exact Path.isAbsolute_join hroot dir
  have hblocks := renderBlocks_collect_eq listVerbose hlistStart hlistText hcount habsolute
    ⟨session.settings.folder.concurrency, session.settings.folder.maxFileSize⟩ session.root
  obtain ⟨answer, hresult, houtline⟩ := Session.outlineFolder_eq_ok hdir hblocks
  have hrun : outcome = _ := run_eq_ofOutline grammars
    { task := .folder dir excludes hidden, format, verbose } hstart htext rfl rfl
  rw [hresult] at hrun
  rw [hrun]
  exact ⟨rfl, rfl, houtline⟩

/-- A folder with a class in it and with a file that is no text. -/
def classMachine : Machine :=
  { disk := { entries := [(["work"], .folder), (["work", "bad.js"], .file ⟨#[255]⟩),
      (["work", "c.js"], .file Node.classText.toUTF8)] }
    here := ["work"]
    environment := []
    input := ByteArray.empty }

/-- A session in the folder of `classMachine`. -/
def classSession : Session :=
  { root := "/work", format := .text, destination := none, settings := {} }

theorem class_mem_discover :
    "/work/c.js" ∈ (classSession.folderFilter classMachine "/work" [] false).discover classMachine
      Language.allExtensions := by
  refine List.mem_mergeSort.mpr (List.mem_filter.mpr ⟨?_, by rfl⟩)
  have hname : "c.js" ∈ classMachine.disk.names ["work"] :=
    List.mem_mergeSort.mpr (List.mem_eraseDups.mpr (by decide))
  exact List.mem_flatMap.mpr ⟨"c.js", hname, List.mem_singleton.mpr rfl⟩

/-- The class has a block in the outline of the folder, and the file that is no text has none. -/
theorem folder_run_concatenates_list_runs_class :
    let outcome := Invocation.run classGrammars classMachine { task := .folder "/work" [] false }
    let listed := fun file => Invocation.run classGrammars classMachine { task := .list file none }
    let files := (classSession.folderFilter classMachine "/work" [] false).discover classMachine
      Language.allExtensions
    Session.start classMachine classMachine.herePath none none = .ok classSession ∧
      "/work/c.js" ∈ files ∧
      (listed "/work/c.js").report.out = "Class C\n\tConstructor constructor\n" ∧
      (listed "/work/bad.js").status = 2 ∧
      outcome.status = 0 ∧ outcome.disk = classMachine.disk ∧
      outcome.report.out = String.join ((files.filter fun file =>
        (classMachine.disk.size? classMachine.here file).any
            (· ≤ classSession.settings.folder.maxFileSize) &&
          (listed file).status == 0).map fun file =>
        Path.relativeTo classSession.root file ++ "\n---\n" ++ (listed file).report.out ++ "\n") := by
  have hstart : Session.start classMachine classMachine.herePath none none = .ok classSession := rfl
  exact ⟨hstart, class_mem_discover, rfl, rfl, folder_run_concatenates_list_runs
    countRows_classGrammars false false hstart rfl hstart rfl "/work" [] false (by decide)⟩

end CodeOutline
