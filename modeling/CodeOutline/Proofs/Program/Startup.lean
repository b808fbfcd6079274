import CodeOutline.Program.Session
import CodeOutline.Proofs.Settings.Layers

/-! # The format of a session

Two functions work out a format from the command line and the environment: one for the answers of a
session, which looks at the settings as well, and one for errors, which does not.  Both take what the
command line says, and settings that can be loaded have the format of the environment in them, if there is
one.  But settings that cannot be loaded give way to the defaults, and the environment is lost with
them.  So the two formats differ exactly if the environment asks for JSON and a layer of the settings makes
no sense (`session_format_agrees_iff`).
-/

namespace CodeOutline.Session

variable {machine : Machine} {root : String} {flag destination : Option String} {session : Session}

theorem start_eq_ok_iff :
    start machine root flag destination = .ok session ↔
      ∃ format, Format.ofName? (flag.getD (settingsOf machine root).output.format) = some format ∧
        session = ⟨root, format, destination, settingsOf machine root⟩ := by
  simp only [start, Format.parse]
  cases Format.ofName? (flag.getD (settingsOf machine root).output.format) with
  | none => simp
  | some format => simpa using eq_comm

theorem settingsOf_of_load {settings : Settings} (h : Settings.load machine root = .ok settings) :
    settingsOf machine root = settings := by
  unfold settingsOf
  rw [h]

theorem format_settingsOf_of_loadable (h : Settings.Loadable machine root) {name : String}
    (hname : machine.valueOf? "SYMLIST_OUTPUT_FORMAT" = some name) :
    (settingsOf machine root).output.format = name := by
  obtain ⟨settings, hload⟩ := h.exists_load
  rw [settingsOf_of_load hload, (Settings.inForce_of_load hload).format, hname]
  rfl

theorem settingsOf_of_not_loadable (h : ¬Settings.Loadable machine root) :
    settingsOf machine root = {} := by
  unfold settingsOf
  split
  · rename_i settings hload
    exact absurd (Settings.Loadable.of_load hload) h
  · rfl

/-- The format of a session is the one that the command line or else the environment names, provided that
    it comes from the command line or the settings can be loaded. -/
theorem ofName?_of_start (h : start machine root flag destination = .ok session)
    (hset : flag.isSome ∨ (machine.valueOf? "SYMLIST_OUTPUT_FORMAT").isSome)
    (hkept : flag.isSome ∨ Settings.Loadable machine root) :
    (flag.or (machine.valueOf? "SYMLIST_OUTPUT_FORMAT")).bind Format.ofName? = some session.format := by
  obtain ⟨format, hformat, rfl⟩ := start_eq_ok_iff.mp h
  cases flag with
  | some name => exact hformat
  | none =>
    obtain ⟨name, hname⟩ := Option.isSome_iff_exists.mp (hset.resolve_left (by simp))
    rw [Option.getD_none, format_settingsOf_of_loadable (hkept.resolve_left (by simp)) hname] at hformat
    rw [Option.none_or, hname, Option.bind_some, hformat]

theorem format_of_not_loadable (h : start machine root none destination = .ok session)
    (hlost : ¬Settings.Loadable machine root) : session.format = .text := by
  obtain ⟨format, hformat, rfl⟩ := start_eq_ok_iff.mp h
  rw [settingsOf_of_not_loadable hlost] at hformat
  exact (Option.some.inj hformat).symm

/-- If the command line or the environment names a format, a session that can be started has the format
    that errors are printed in, unless the environment names it, the settings cannot be loaded and it is
    not that of the defaults. -/
theorem session_format_agrees_iff (h : start machine root flag destination = .ok session)
    (hset : flag.isSome ∨ (machine.valueOf? "SYMLIST_OUTPUT_FORMAT").isSome) :
    (session.format = errorFormat machine flag ↔
      flag.isSome ∨ Settings.Loadable machine root ∨ errorFormat machine flag = .text) ∧
    (flag.isSome ∨ Settings.Loadable machine root →
      (flag.or (machine.valueOf? "SYMLIST_OUTPUT_FORMAT")).bind Format.ofName? = some session.format) := by
  refine ⟨?_, ofName?_of_start h hset⟩
  by_cases hkept : flag.isSome ∨ Settings.Loadable machine root
  · have hformat := ofName?_of_start h hset hkept
    simp only [errorFormat, hformat, Option.getD_some, true_iff]
    exact hkept.imp_right .inl
  · rw [not_or] at hkept
    obtain rfl : flag = none := by simpa using hkept.1
    rw [format_of_not_loadable h hkept.2]
    simp [hkept.2, eq_comm]

/-- A machine whose environment asks for JSON, with a project that has the given file of settings. -/
def askingMachine (settings : String) : Machine :=
  { disk :=
      { entries := [(["work"], .folder), (["work", ".symlist"], .folder),
          (["work", ".symlist", "config.toml"], .file settings.toUTF8)]
        sound := of_decide_eq_true rfl }
    here := ["work"]
    environment := [("SYMLIST_OUTPUT_FORMAT", "json")]
    input := ByteArray.empty }

theorem session_format_agrees_iff_valid_settings :
    ∃ session, start (askingMachine "[output]\nformat = \"text\"\n") "/work" none none = .ok session ∧
      session.format = errorFormat (askingMachine "[output]\nformat = \"text\"\n") none ∧
      session.format = .json := by
  have hload : Settings.load (askingMachine "[output]\nformat = \"text\"\n") "/work" =
      .ok ⟨{}, ⟨"json"⟩⟩ := toOption_eq_some_iff.mp (by decide +kernel)
  have hstart : start (askingMachine "[output]\nformat = \"text\"\n") "/work" none none =
      .ok ⟨"/work", .json, none, ⟨{}, ⟨"json"⟩⟩⟩ :=
    start_eq_ok_iff.mpr (by rw [settingsOf_of_load hload]; exact ⟨.json, rfl, rfl⟩)
  have hvariable : (askingMachine "[output]\nformat = \"text\"\n").valueOf? "SYMLIST_OUTPUT_FORMAT" =
      some "json" := rfl
  have hagrees := (session_format_agrees_iff hstart (.inr (by rw [hvariable]; rfl))).1.mpr
  exact ⟨_, hstart, hagrees (.inr (.inl (.of_load hload))), rfl⟩

/-- Next to a file of settings that is not TOML, the format that the environment asks for is lost to the
    answers, but not to the errors. -/
theorem session_format_loses_variable :
    (askingMachine "[folder\n").valueOf? "SYMLIST_OUTPUT_FORMAT" = some "json" ∧
    ∃ session, start (askingMachine "[folder\n") "/work" none none = .ok session ∧
      session.format = .text ∧ errorFormat (askingMachine "[folder\n") none = .json := by
  have hlost : settingsOf (askingMachine "[folder\n") "/work" = {} := by decide +kernel
  have hstart : start (askingMachine "[folder\n") "/work" none none =
      .ok ⟨"/work", .text, none, {}⟩ :=
    start_eq_ok_iff.mpr (by rw [hlost]; exact ⟨.text, rfl, rfl⟩)
  exact ⟨rfl, _, hstart, rfl, rfl⟩

end CodeOutline.Session
