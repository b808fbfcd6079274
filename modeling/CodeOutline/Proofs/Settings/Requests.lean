import CodeOutline.Program.Session
import CodeOutline.Proofs.Disk.Changes
import CodeOutline.Proofs.Settings.Written
import CodeOutline.Proofs.Text.Lines

/-! # Requests about settings

Settings are looked up, loaded and made one request after the other, while the environment may change in
between and move the user's file with it.  Of all requests only the one that makes a file of settings
touches the disk.  How it ends is said once (`Made`): it refuses a path that leads to something, or it
fails with nothing but new folders to show for it, or one file has the default settings in it, or a
beginning of them if the disk has no room for more.

What a whole run of requests does to the files follows by induction over the run
(`files_after`), as every request leaves the files alone but the one whose path it was asked for.

A path that leads to nothing may lead to a file once its folders are made, and then this file is replaced
without being asked for (`init_replaces_unasked`).  That takes a path which leads back up out of a folder that
is not there.
-/

namespace CodeOutline.Settings

/-! ## Making a file of settings -/

/-- The file at a place is the same on two disks: both have it with the same content, or none has it. -/
def SameFile (before after : Disk) (place : Place) : Prop :=
  ∀ content, after.item? place = some (.file content) ↔ before.item? place = some (.file content)

theorem SameFile.refl (disk : Disk) (place : Place) : SameFile disk disk place :=
  fun _ => Iff.rfl

theorem SameFile.trans {first second third : Disk} {place : Place} (h : SameFile first second place)
    (h' : SameFile second third place) : SameFile first third place :=
  fun content => (h' content).trans (h content)

/-- How it ends to make a file of settings at a path. -/
inductive Made (machine : Machine) (path : String) (force : Bool) (room : Option Nat) :
    Disk → Except SettingsError String → Prop where
  | refused : machine.disk.exists? machine.here path → force = false →
      Made machine path force room machine.disk (.error (.invalid "config"
        ("Config already exists: " ++ path ++ ". Use --force to overwrite.")))
  | failed {disk : Disk} {fault : Disk.Fault} :
      (machine.disk.exists? machine.here path → force = true) → machine.disk.Grown disk →
      Made machine path force room disk (.error (.inaccessible fault))
  | written {disk : Disk} {place : Place} :
      (machine.disk.exists? machine.here path → force = true) →
      (∀ other, other ≠ place → SameFile machine.disk disk other) →
      disk.find machine.here path = .ok (place, .file defaultText.toUTF8) →
      Made machine path force room disk (.ok path)
  | cut {disk : Disk} {place : Place} {size : Nat} :
      (machine.disk.exists? machine.here path → force = true) →
      room = some size → size < defaultText.toUTF8.size →
      (∀ other, other ≠ place → SameFile machine.disk disk other) →
      disk.find machine.here path = .ok (place, .file (defaultText.toUTF8.extract 0 size)) →
      Made machine path force room disk (.error (.inaccessible .noRoom))

theorem sameFile_put {before disk : Disk} {place : Place} {item : Item} (hgrown : before.Grown disk)
    (htakes : disk.Takes place item) (other : Place) (hother : other ≠ place) :
    SameFile before (disk.put place item) other := by
  intro content
  rw [Disk.item?_put htakes, if_neg hother]
  exact hgrown.file_iff other content

theorem made_init (machine : Machine) (root : String) (scope : Scope) (force : Bool) (room : Option Nat) :
    Made machine (path machine root scope) force room (init machine root scope force room).1
      (init machine root scope force room).2 := by
  unfold init
  by_cases hthere : machine.disk.exists? machine.here (path machine root scope) ∧ force = false
  · obtain ⟨hexists, rfl⟩ := hthere
    simpa [hexists] using Made.refused hexists rfl
  · have hforce : machine.disk.exists? machine.here (path machine root scope) → force = true := by
      simpa using hthere
    rw [if_neg (by simpa using hthere)]
    have hgrown := Disk.grown_makeFolders machine.disk machine.here
      ((Path.parent? (path machine root scope)).getD "")
    split
    · rename_i disk fault hmade
      rw [hmade] at hgrown
      exact .failed hforce hgrown
    · rename_i disk hmade
      rw [hmade] at hgrown
      have hwritten := disk.written_writeWithin room machine.here (path machine root scope) defaultText.toUTF8
      generalize disk.writeWithin room machine.here (path machine root scope) defaultText.toUTF8 = ended
        at hwritten
      obtain ⟨after, fault⟩ := ended
      cases hwritten with
      | failed fault => exact .failed hforce hgrown
      | whole htakes hfind => exact .written hforce (sameFile_put hgrown htakes) hfind
      | part hroom hsize htakes hfind =>
        exact .cut hforce hroom hsize (sameFile_put hgrown htakes) hfind

theorem readText_of_find {disk : Disk} {here place : Place} {path text : String}
    (h : disk.find here path = .ok (place, .file text.toUTF8)) : disk.readText here path = .ok text := by
  simp only [Disk.readText, Disk.readBytes, h, Except.bind, Disk.decode, Text.fromUTF8?_toUTF8]

/-! ## Requests -/

/-- What can be asked for, and what can happen to the environment in between.  The disk may take no more
    than `room` bytes of a file that is made. -/
inductive Request where
  | setVariable (name : String) (value : Option String)
  | path (root : String) (scope : Scope)
  | load (root : String)
  | loadUser
  | init (root : String) (scope : Scope) (force : Bool) (room : Option Nat)
  | start (root : String) (format destination : Option String)

/-- What a request gives back. -/
inductive Reply where
  | done
  | path (path : String)
  | loaded (result : Except SettingsError Settings)
  | made (result : Except SettingsError String)
  | started (result : Except SettingsError Session)

/-- Meets a request: the machine afterwards, and the reply. -/
def Request.meet (machine : Machine) : Request → Machine × Reply
  | setVariable name value => (machine.setVariable name value, .done)
  | path root scope => (machine, .path (Settings.path machine root scope))
  | load root => (machine, .loaded (Settings.load machine root))
  | loadUser => (machine, .loaded (Settings.loadUser machine))
  | init root scope force room =>
    let (disk, result) := Settings.init machine root scope force room
    ({ machine with disk }, .made result)
  | start root format destination => (machine, .started (Session.start machine root format destination))

/-- A request that was met, with the machine before and after it. -/
structure Exchange where
  before : Machine
  request : Request
  reply : Reply
  after : Machine

/-- The exchanges of a run of requests. -/
def exchanges : Machine → List Request → List Exchange
  | _, [] => []
  | machine, request :: rest =>
    ⟨machine, request, (request.meet machine).2, (request.meet machine).1⟩ ::
      exchanges (request.meet machine).1 rest

/-- The machine after a run of requests. -/
def after (machine : Machine) (requests : List Request) : Machine :=
  requests.foldl (fun machine request => (request.meet machine).1) machine

/-! ## One exchange -/

/-- The request has left a file with the given content at a place, which the path it was asked for leads to:
    all of the default settings, or the beginning that the disk had room for. -/
inductive Exchange.Leaves (exchange : Exchange) (place : Place) : ByteArray → Prop where
  | whole {root : String} {scope : Scope} {force : Bool} {room : Option Nat} :
      exchange.request = .init root scope force room →
      exchange.reply = .made (.ok (Settings.path exchange.before root scope)) →
      exchange.after.disk.find exchange.after.here (Settings.path exchange.before root scope) =
        .ok (place, .file defaultText.toUTF8) →
      Exchange.Leaves exchange place defaultText.toUTF8
  | cut {root : String} {scope : Scope} {force : Bool} {size : Nat} :
      exchange.request = .init root scope force (some size) → size < defaultText.toUTF8.size →
      exchange.reply = .made (.error (.inaccessible .noRoom)) →
      exchange.after.disk.find exchange.after.here (Settings.path exchange.before root scope) =
        .ok (place, .file (defaultText.toUTF8.extract 0 size)) →
      Exchange.Leaves exchange place (defaultText.toUTF8.extract 0 size)

theorem Exchange.Leaves.item? {exchange : Exchange} {place : Place} {content : ByteArray}
    (h : exchange.Leaves place content) : exchange.after.disk.item? place = some (.file content) := by
  cases h with
  | whole _ _ hfind => exact (Disk.find_eq_ok_iff.mp hfind).2.2
  | cut _ _ _ hfind => exact (Disk.find_eq_ok_iff.mp hfind).2.2

/-- What an exchange may do to the files of a disk. -/
structure Exchange.Careful (exchange : Exchange) : Prop where
  /-- A file only changes if it was asked for, at the path of the settings. -/
  changes : ∀ place, SameFile exchange.before.disk exchange.after.disk place ∨
    ∃ content, exchange.Leaves place content
  /-- A path that leads to something is refused unless it is forced. -/
  refuses : ∀ root scope room, exchange.request = .init root scope false room →
    exchange.before.disk.exists? exchange.before.here (Settings.path exchange.before root scope) →
    (∃ message, exchange.reply = .made (.error (.invalid "config" message))) ∧
      exchange.after = exchange.before
  /-- Unless it is forced, a path that does not lead back up replaces no file. -/
  unasked : ∀ root scope room, exchange.request = .init root scope false room →
    .parent ∉ Path.components (Settings.path exchange.before root scope) →
    ∀ place content, exchange.before.disk.item? place = some (.file content) →
      exchange.after.disk.item? place = some (.file content)
  /-- If no file is made, all are as they were, but for one that the disk had no room for. -/
  fails : ∀ error, exchange.reply = .made (.error error) → ∀ place,
    SameFile exchange.before.disk exchange.after.disk place ∨
      error = .inaccessible .noRoom ∧ ∃ content, exchange.Leaves place content
  /-- A file that was made has the default settings in it. -/
  defaults : ∀ path, exchange.reply = .made (.ok path) → ∃ text,
    exchange.after.readText path = .ok text ∧ ofText? text = some {}

/-- A path that leads down only and led to nothing leads to a place that was free, so that all files are
    left alone by what is written there. -/
theorem item?_of_missing {before after : Disk} {here place : Place} {path : String} {written : ByteArray}
    (hmissing : ¬ before.exists? here path) (hdown : .parent ∉ Path.components path)
    (hothers : ∀ other, other ≠ place → SameFile before after other)
    (hfind : after.find here path = .ok (place, .file written)) {other : Place} {content : ByteArray}
    (h : before.item? other = some (.file content)) : after.item? other = some (.file content) := by
  have hfree : before.item? place = none :=
    Disk.item?_eq_none_of_find hdown (Bool.eq_false_iff.mpr hmissing) hfind
  refine (hothers other ?_ content).mpr h
  rintro rfl
  rw [hfree] at h
  cases h

theorem careful_init (machine : Machine) (root : String) (scope : Scope) (force : Bool) (room : Option Nat) :
    Exchange.Careful ⟨machine, .init root scope force room,
      (Request.meet machine (.init root scope force room)).2,
      (Request.meet machine (.init root scope force room)).1⟩ := by
  have hmade := made_init machine root scope force room
  simp only [Request.meet]
  generalize init machine root scope force room = ended at hmade
  obtain ⟨disk, result⟩ := ended
  cases hmade with
  | refused hthere hforce =>
    exact ⟨fun place => .inl (.refl _ place), fun _ _ _ _ _ => ⟨⟨_, rfl⟩, rfl⟩,
      fun _ _ _ _ _ _ _ h => h, fun _ _ place => .inl (.refl _ place), nofun⟩
  | failed hforce hgrown =>
    -- There are new folders at most.
    refine ⟨fun place => .inl (hgrown.file_iff place), ?_, ?_, fun _ _ place => .inl (hgrown.file_iff place),
      nofun⟩
    · rintro root scope room ⟨⟩ hthere
      cases hforce hthere
    · exact fun _ _ _ _ _ place content => (hgrown.file_iff place content).mpr
  | @written _ place hforce hothers hfind =>
    refine ⟨fun other => ?_, ?_, ?_, nofun, ?_⟩
    · by_cases hother : other = place
      · exact .inr ⟨_, .whole rfl rfl (hother ▸ hfind)⟩
      · exact .inl (hothers other hother)
    · rintro root scope room ⟨⟩ hthere
      cases hforce hthere
    · rintro root scope room ⟨⟩ hdown other content
      exact item?_of_missing (fun hthere => Bool.false_ne_true (hforce hthere)) hdown hothers hfind
    · rintro path ⟨⟩
      exact ⟨defaultText, readText_of_find hfind, ofText?_defaultText⟩
  | @cut _ place size hforce hroom hsize hothers hfind =>
    subst hroom
    have hchanges : ∀ other, SameFile machine.disk disk other ∨ ∃ content, Exchange.Leaves
        ⟨machine, .init root scope force (some size), .made (.error (.inaccessible .noRoom)),
          { machine with disk }⟩ other content := by
      intro other
      by_cases hother : other = place
      · exact .inr ⟨_, .cut rfl hsize rfl (hother ▸ hfind)⟩
      · exact .inl (hothers other hother)
    refine ⟨hchanges, ?_, ?_, ?_, nofun⟩
    · rintro root scope room ⟨⟩ hthere
      cases hforce hthere
    · rintro root scope room ⟨⟩ hdown other content
      exact item?_of_missing (fun hthere => Bool.false_ne_true (hforce hthere)) hdown hothers hfind
    · rintro error ⟨⟩ other
      exact (hchanges other).imp id fun hleaves => ⟨rfl, hleaves⟩

theorem careful_meet (machine : Machine) (request : Request) :
    Exchange.Careful ⟨machine, request, (request.meet machine).2, (request.meet machine).1⟩ := by
  cases request with
  | init root scope force room => exact careful_init machine root scope force room
  | setVariable | path | load | loadUser | start =>
    exact ⟨fun place => .inl (.refl _ place), nofun, nofun, nofun, nofun⟩

/-! ## Whole runs -/

theorem careful_of_mem_exchanges {machine : Machine} {requests : List Request} {exchange : Exchange}
    (h : exchange ∈ exchanges machine requests) : exchange.Careful := by
  induction requests generalizing machine with
  | nil => cases h
  | cons request rest ih =>
    rcases List.mem_cons.mp h with rfl | hrest
    · exact careful_meet machine request
    · exact ih hrest

theorem files_after (machine : Machine) (requests : List Request) (place : Place) :
    SameFile machine.disk (after machine requests).disk place ∨
      ∃ content, (after machine requests).disk.item? place = some (.file content) ∧
        ∃ exchange ∈ exchanges machine requests, exchange.Leaves place content := by
  induction requests generalizing machine with
  | nil => exact .inl (.refl _ place)
  | cons request rest ih =>
    rcases ih (request.meet machine).1 with hsame | ⟨content, hcontent, exchange, hmem, hleaves⟩
    · -- Later requests leave the file alone, so it is as the first one left it.
      rcases (careful_meet machine request).changes place with hfirst | ⟨content, hfirst⟩
      · exact .inl (hfirst.trans hsame)
      · exact .inr ⟨content, (hsame _).mpr hfirst.item?, _, List.mem_cons_self, hfirst⟩
    · exact .inr ⟨content, hcontent, exchange, List.mem_cons_of_mem _ hmem, hleaves⟩

/-- No request of a run touches a file but the one that makes a file of settings, and only at the path it
    was asked for.  Unless it is forced, a path that leads to something is refused, and a path that does not
    lead back up replaces nothing.  A failure leaves all files as they were, but for a file that the disk had
    no room for, which then has a beginning of the default settings in it; a file that was made has all of
    them.  So whatever the requests of a run are, a file is in the end as it was in the beginning, or it
    was left by one of them. -/
theorem requests_keep_files (machine : Machine) (requests : List Request) :
    (∀ exchange ∈ exchanges machine requests, exchange.Careful) ∧
    ∀ place, SameFile machine.disk (after machine requests).disk place ∨
      ∃ content, (after machine requests).disk.item? place = some (.file content) ∧
        ∃ exchange ∈ exchanges machine requests, exchange.Leaves place content :=
  ⟨fun _ => careful_of_mem_exchanges, files_after machine requests⟩

/-- A machine with an empty project. -/
def freshMachine : Machine :=
  { disk := { entries := [(["work"], .folder)] }
    here := ["work"]
    environment := [("HOME", "/work")]
    input := ByteArray.empty }

theorem requests_keep_files_second_refused :
    ∃ first second, exchanges freshMachine
        [.init "/work" .project false none, .init "/work" .project false none] = [first, second] ∧
      first.reply = .made (.ok "/work/.symlist/config.toml") ∧
      (∃ text, first.after.readText "/work/.symlist/config.toml" = .ok text ∧ ofText? text = some {}) ∧
      (∃ message, second.reply = .made (.error (.invalid "config" message))) ∧
      second.after = second.before := by
  obtain ⟨hcareful, -⟩ := requests_keep_files freshMachine
    [.init "/work" .project false none, .init "/work" .project false none]
  have hmade : (init freshMachine "/work" .project false none).2 = .ok "/work/.symlist/config.toml" :=
    toOption_eq_some_iff.mp (by decide +kernel)
  refine ⟨_, _, rfl, ?_, ?_, ?_⟩
  · simp only [Request.meet, hmade]
  · exact (hcareful _ List.mem_cons_self).defaults _ (by simp only [Request.meet, hmade])
  · exact (hcareful _ (List.mem_cons_of_mem _ List.mem_cons_self)).refuses "/work" .project none rfl
      (by decide +kernel)

/-- A machine with settings of its user, who is looked for behind a folder that is not there. -/
def detourMachine : Machine :=
  { disk := { entries := [(["work"], .folder), (["work", "symlist"], .folder),
      (["work", "symlist", "config.toml"], .file "[folder]\n".toUTF8)] }
    here := ["work"]
    environment := [("XDG_CONFIG_HOME", "/work/new/..")]
    input := ByteArray.empty }

/-- The path leads to nothing, then the folder on its way is made, and what is behind it is replaced without
    force.  With force on a disk that takes no byte the request fails, and the file is empty. -/
theorem init_replaces_unasked :
    let place := ["work", "symlist", "config.toml"]
    let unasked := init detourMachine "/work" .user false none
    let full := init { detourMachine with environment := [("XDG_CONFIG_HOME", "/work")] } "/work" .user true
      (some 0)
    detourMachine.disk.item? place = some (.file "[folder]\n".toUTF8) ∧
    unasked.2 = .ok "/work/new/../symlist/config.toml" ∧
    unasked.1.item? place = some (.file defaultText.toUTF8) ∧
    full.2.toOption = none ∧ full.1.item? place = some (.file ByteArray.empty) := by
  exact ⟨rfl, toOption_eq_some_iff.mp (by decide +kernel), by decide +kernel, by decide +kernel,
    by decide +kernel⟩

end CodeOutline.Settings
