import CodeOutline.Proofs.Disk.Access
import CodeOutline.Proofs.Program.Outlining

/-! # What a run leaves behind

A run that is to outline a file or a folder has four ways to end (`Ending`), and everything about its
status, its output and the disk follows from them.  Nothing is written before the whole outline is there,
and the outline is written in one go, so that a run that fails leaves the disk as it was.
-/

namespace CodeOutline

open CommandLine (Invocation Task)

/-! ## What is outlined -/

/-- Whether a task is to outline a file or a folder. -/
def CommandLine.Task.isOutlining : Task → Bool
  | list _ _ | folder _ _ _ => true
  | _ => false

namespace Session

/-- Whether a task has something to work on: a file to list, or a folder. -/
def hasTarget (machine : Machine) (session : Session) : Task → Bool
  | .list file _ => machine.disk.isFile machine.here (Path.join session.root file)
  | .folder dir _ _ => machine.disk.isFolder machine.here (Path.join session.root dir)
  | _ => true

/-- What a task outlines: files with their texts and symbols, and the outline of all of them. -/
inductive Outlined (grammars : Grammars) (machine : Machine) (session : Session) :
    Task → List Folder.Entry → String → Prop where
  | file {file text outline : String} {saved : Option String} {symbols : List Symbol} :
      machine.readText (Path.join session.root file) = .ok text →
      fileProvider grammars machine saved (Path.join session.root file) text = .ok (some symbols) →
      Outline.render (.ofText text) symbols = .ok outline →
      Outlined grammars machine session (.list file saved)
        [⟨Path.join session.root file, text, symbols⟩] outline
  | folder {dir outline : String} {excludes : List String} {hidden : Bool} :
      machine.disk.isFolder machine.here (Path.join session.root dir) →
      Folder.renderBlocks session.root (session.folderEntries grammars machine
        (Path.join session.root dir) excludes hidden) = .ok outline →
      Outlined grammars machine session (.folder dir excludes hidden)
        (session.folderEntries grammars machine (Path.join session.root dir) excludes hidden) outline

/-- An answer is right for a task if it tells what the task outlines. -/
def Answers (grammars : Grammars) (machine : Machine) (session : Session) (task : Task)
    (answer : OutlineAnswer) : Prop :=
  ∃ entries, session.Outlined grammars machine task entries answer.outline ∧
    answer.files = entries.length ∧ answer.symbols = Folder.countSymbols entries

/-- What comes of a task: a right answer, or a failure where there is none, which says whether the
    target is missing. -/
def Accurate (grammars : Grammars) (machine : Machine) (session : Session) (task : Task) :
    Except Failure OutlineAnswer → Prop
  | .error failure => failure.isMissing = !session.hasTarget machine task ∧
    ∀ answer, ¬session.Answers grammars machine task answer
  | .ok answer => session.hasTarget machine task ∧ session.Answers grammars machine task answer

variable (grammars : Grammars) (machine : Machine) (session : Session)

theorem outlineFile_cases (file : String) (saved : Option String) :
    (∃ failure, session.outlineFile grammars machine file saved = .error failure ∧
      failure.isMissing = !session.hasTarget machine (.list file saved)) ∨
    ∃ answer, session.outlineFile grammars machine file saved = .ok answer ∧
      session.hasTarget machine (.list file saved) ∧
      session.Answers grammars machine (.list file saved) answer := by
  unfold outlineFile hasTarget
  by_cases hfile : machine.disk.isFile machine.here (Path.join session.root file)
  · simp only [hfile, Bool.not_true, Bool.false_eq_true, if_false]
    -- Past the first test, no failure is about a missing target.
    split
    · exact .inl ⟨_, rfl, rfl⟩
    rename_i text hread
    split
    · exact .inl ⟨_, rfl, rfl⟩
    · exact .inl ⟨_, rfl, rfl⟩
    rename_i symbols hprovided
    split
    · exact .inl ⟨_, rfl, rfl⟩
    rename_i outline hrender
    exact .inr ⟨_, rfl, trivial, _, .file hread hprovided hrender, rfl, rfl⟩
  · simp [hfile, Failure.isMissing]

theorem outlineFolder_cases (dir : String) (excludes : List String) (hidden : Bool) :
    (∃ failure, session.outlineFolder grammars machine dir excludes hidden = .error failure ∧
      failure.isMissing = !session.hasTarget machine (.folder dir excludes hidden)) ∨
    ∃ answer, session.outlineFolder grammars machine dir excludes hidden = .ok answer ∧
      session.hasTarget machine (.folder dir excludes hidden) ∧
      session.Answers grammars machine (.folder dir excludes hidden) answer := by
  unfold outlineFolder hasTarget
  by_cases hfolder : machine.disk.isFolder machine.here (Path.join session.root dir)
  · simp only [hfolder, Bool.not_true, Bool.false_eq_true, if_false]
    split
    · exact .inl ⟨_, rfl, rfl⟩
    rename_i outline hrender
    exact .inr ⟨_, rfl, trivial, _, .folder hfolder hrender, rfl, rfl⟩
  · simp [hfolder, Failure.isMissing]

/-- What can be outlined is outlined. -/
theorem outlineFile_of_outlined {file outline : String} {saved : Option String}
    {entries : List Folder.Entry}
    (h : session.Outlined grammars machine (.list file saved) entries outline) :
    ∃ answer, session.outlineFile grammars machine file saved = .ok answer := by
  cases h with
  | file hread hprovided hrender =>
    obtain ⟨content, hcontent⟩ := Disk.readBytes_of_readText hread
    unfold outlineFile
    rw [if_neg (by simp [Disk.isFile_of_readBytes hcontent])]
    simp only [hread, hprovided, hrender]
    exact ⟨_, rfl⟩

theorem outlineFolder_of_outlined {dir outline : String} {excludes : List String} {hidden : Bool}
    {entries : List Folder.Entry}
    (h : session.Outlined grammars machine (.folder dir excludes hidden) entries outline) :
    ∃ answer, session.outlineFolder grammars machine dir excludes hidden = .ok answer := by
  cases h with
  | folder hdir hblocks =>
    obtain ⟨answer, hanswer, -⟩ := outlineFolder_eq_ok hdir hblocks
    exact ⟨answer, hanswer⟩

theorem accurate_of_cases {task : Task} {result : Except Failure OutlineAnswer}
    (hcases : (∃ failure, result = .error failure ∧
        failure.isMissing = !session.hasTarget machine task) ∨
      ∃ answer, result = .ok answer ∧ session.hasTarget machine task ∧
        session.Answers grammars machine task answer)
    (houtlined : ∀ entries outline, session.Outlined grammars machine task entries outline →
      ∃ answer, result = .ok answer) : session.Accurate grammars machine task result := by
  obtain ⟨failure, rfl, hmissing⟩ | ⟨answer, rfl, hanswer⟩ := hcases
  · refine ⟨hmissing, fun answer ⟨entries, hentries, _⟩ => ?_⟩
    obtain ⟨_, hfound⟩ := houtlined entries _ hentries
    cases hfound
  · exact hanswer

/-- The format and the destination only matter once there is an answer. -/
theorem exists_accurate_result {task : Task} (h : task.isOutlining) :
    ∃ result, session.Accurate grammars machine task result ∧ ∀ format destination,
      Session.perform grammars machine { session with format, destination } task =
        OutlineAnswer.deliverResult machine { session with format, destination } result := by
  cases task with
  | list file saved =>
    refine ⟨_, session.accurate_of_cases grammars machine
      (session.outlineFile_cases grammars machine file saved) fun entries outline => ?_, fun _ _ => rfl⟩
    exact session.outlineFile_of_outlined grammars machine
  | folder dir excludes hidden =>
    refine ⟨_, session.accurate_of_cases grammars machine
      (session.outlineFolder_cases grammars machine dir excludes hidden) fun entries outline => ?_,
      fun _ _ => rfl⟩
    exact session.outlineFolder_of_outlined grammars machine
  | kinds | configInit | configShow | configPath => cases h

end Session

/-! ## How a run ends -/

variable {grammars : Grammars} {machine : Machine} {invocation : Invocation} {outcome : Outcome}

/-- A session can always be started with a format that is given, which is then also that of errors. -/
theorem Session.start_of_given {name : String} {format : Format} (h : Format.ofName? name = some format)
    (machine : Machine) (root : String) (destination : Option String) :
    start machine root (some name) destination =
        .ok { root, format, destination, settings := settingsOf machine root } ∧
      errorFormat machine (some name) = format := by
  simp [start, Format.parse, errorFormat, h]

namespace Ending

end Ending

theorem run_of_parse (grammars : Grammars) (machine : Machine) {words : List String}
    (h : CommandLine.parse words = .ok invocation) :
    run grammars machine words = .ok (invocation.run grammars machine) := by
  rw [run, h]
  rfl

end CodeOutline
