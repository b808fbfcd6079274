import CodeOutline.CommandLine.Invocation

/-! # Options in front of a command line

An option that a command line does not give can be put in front of it: everything else is read as before,
and the value of the option is found besides (`parse_cons_format`).  The reader goes from word to word, so
this is first said for each of its steps (`Steady`): a step forgets no parameter that was read before it,
and does not mind one that it does not read itself.
-/

namespace CodeOutline.CommandLine

theorem bind_eq_ok_iff {α β : Type} {result : Except UsageError α} {next : α → Except UsageError β}
    {b : β} : (result >>= next) = .ok b ↔ ∃ a, result = .ok a ∧ next a = .ok b := by
  cases result with
  | error reason => exact ⟨nofun, fun ⟨_, h, _⟩ => nomatch h⟩
  | ok a => exact ⟨fun h => ⟨a, rfl, h⟩, fun ⟨_, h, hnext⟩ => Except.ok.inj h ▸ hnext⟩

/-- Only options of the command that take no values are found without one. -/
def Found.Filled (command : Command) (found : Found) : Prop :=
  ∀ name, (name, []) ∈ found →
    ∃ option ∈ command.options, option.name = name ∧ option.takesValue = false

namespace Progress

/-- The names of the parameters that were read so far. -/
def names (progress : Progress) : List String :=
  (progress.pending.map fun pending => pending.1.name).toList ++ progress.found.map Prod.fst

/-- What is pending takes values, and only options that take none are found without one. -/
def Filled (command : Command) (progress : Progress) : Prop :=
  (∀ pending ∈ progress.pending, pending.1.takesValue = true) ∧ progress.found.Filled command

/-- The same progress with one more parameter that was found before. -/
def adding (name value : String) (progress : Progress) : Progress :=
  { progress with found := progress.found ++ [(name, [value])] }

theorem awaitsValue_adding (name value : String) (progress : Progress) :
    (progress.adding name value).awaitsValue = progress.awaitsValue :=
  rfl

/-! ## Steady steps -/

/-- Reading that leads from one progress to another forgets nothing, and does not mind a parameter that
    it does not read.  What is read depends on the progress in the end. -/
structure SteadyAt {α : Type} (command : Command) (read : Progress → Except UsageError α)
    (result : Progress → α) (progress after : Progress) : Prop where
  names : progress.names ⊆ after.names
  filled : progress.Filled command → after.Filled command
  adding : ∀ name value, name ∉ after.names →
    read (progress.adding name value) = .ok (result (after.adding name value))

/-- A step is steady wherever it succeeds. -/
def Steady (command : Command) (step : Progress → Except UsageError Progress) : Prop :=
  ∀ progress after, step progress = .ok after → SteadyAt command step id progress after

variable {command : Command}

theorem SteadyAt.bind {α : Type} {first : Progress → Except UsageError Progress}
    {next : Progress → Except UsageError α} {result : Progress → α} {progress mid after : Progress}
    (hfirst : SteadyAt command first id progress mid)
    (hnext : SteadyAt command next result mid after) :
    SteadyAt command (fun progress => first progress >>= next) result progress after := by
  refine ⟨List.Subset.trans hfirst.names hnext.names, fun hfilled => hnext.filled (hfirst.filled hfilled),
    fun name value hname => bind_eq_ok_iff.mpr ?_⟩
  have hmid : name ∉ mid.names := fun hmem => hname (hnext.names hmem)
  exact ⟨_, hfirst.adding name value hmid, hnext.adding name value hname⟩

theorem Steady.bind {first next : Progress → Except UsageError Progress} (hfirst : Steady command first)
    (hnext : ∀ progress mid, first progress = .ok mid →
      ∀ after, next mid = .ok after → SteadyAt command next id mid after) :
    Steady command fun progress => first progress >>= next := by
  intro progress after h
  obtain ⟨mid, hmid, hafter⟩ := bind_eq_ok_iff.mp h
  exact (hfirst progress mid hmid).bind (hnext progress mid hmid after hafter)

theorem steady_error (reason : UsageError) : Steady command fun _ => .error reason := nofun

/-! ## Single parameters -/

theorem lookup_adding {found : Found} {key name : String} (value : String) (h : key ≠ name) :
    (found ++ [(name, [value])]).lookup key = found.lookup key := by
  have hlast : [(name, [value])].lookup key = none := by
    rw [List.lookup_eq_none_iff]
    simpa using h
  rw [List.lookup_append, hlast, Option.or_none]

section Take

variable {found after : Found} {parameter : Parameter} {values : List String}

theorem take_eq_ok (h : take found parameter values = .ok after) :
    ¬(parameter.takesValue && values.isEmpty) ∧
      ¬(!parameter.repeats && (found.lookup parameter.name).isSome) ∧
      ¬(!parameter.allowsEmpty && values.contains "") ∧
      after = (parameter.name, (found.lookup parameter.name).getD [] ++ values) ::
        found.filter (·.1 ≠ parameter.name) := by
  unfold take at h
  dsimp only at h
  split at h
  · cases h
  split at h
  · cases h
  split at h
  · cases h
  cases h
  exact ⟨‹_›, ‹_›, ‹_›, rfl⟩

theorem names_take (h : take found parameter values = .ok after) :
    parameter.name :: found.map Prod.fst ⊆ after.map Prod.fst := by
  obtain ⟨-, -, -, rfl⟩ := take_eq_ok h
  intro name hname
  by_cases hparameter : name = parameter.name
  · simp [hparameter]
  · have hfound : name ∈ found.map Prod.fst := by simpa [hparameter] using hname
    obtain ⟨entry, hentry, rfl⟩ := List.mem_map.mp hfound
    exact List.mem_cons_of_mem _
      (List.mem_map_of_mem (List.mem_filter.mpr ⟨hentry, by simpa using hparameter⟩))

theorem filled_take (h : take found parameter values = .ok after) (hfound : found.Filled command)
    (hparameter : parameter.takesValue = true ∨ parameter ∈ command.options) :
    after.Filled command := by
  obtain ⟨hvalues, -, -, rfl⟩ := take_eq_ok h
  intro name hname
  obtain heq | hold := List.mem_cons.mp hname
  · obtain ⟨rfl, hempty⟩ := Prod.mk.inj heq
    -- The parameter has no values, so that it takes none.
    have hnone : values = [] := (List.append_eq_nil_iff.mp hempty.symm).2
    have hflag : parameter.takesValue = false := by simpa [hnone] using hvalues
    rw [hflag] at hparameter
    exact ⟨parameter, by simpa using hparameter, rfl, hflag⟩
  · exact hfound name (List.mem_filter.mp hold).1

theorem take_adding (h : take found parameter values = .ok after) {name : String} (value : String)
    (hname : name ∉ after.map Prod.fst) :
    take (found ++ [(name, [value])]) parameter values = .ok (after ++ [(name, [value])]) := by
  have hne : name ≠ parameter.name := by
    rintro rfl
    exact hname (names_take h List.mem_cons_self)
  obtain ⟨hvalues, hrepeated, hempty, rfl⟩ := take_eq_ok h
  unfold take
  simp only [lookup_adding value hne.symm]
  rw [if_neg hvalues, if_neg hrepeated, if_neg hempty]
  simp [List.filter_append, hne]

end Take

theorem steady_settle : Steady command settle := by
  intro progress after h
  unfold settle at h
  cases hpending : progress.pending with
  | none =>
    simp only [hpending, Except.ok.injEq] at h
    subst h
    exact ⟨List.Subset.refl _, id, fun name value _ => by simp [settle, adding, hpending]⟩
  | some pending =>
    obtain ⟨parameter, values⟩ := pending
    simp only [hpending, bind_eq_ok_iff] at h
    obtain ⟨found, htake, h⟩ := h
    cases h
    refine ⟨by simpa [names, hpending] using names_take htake, fun hfilled => ⟨nofun, ?_⟩, ?_⟩
    · exact filled_take htake hfilled.2 (.inl (hfilled.1 _ hpending))
    · intro name value hname
      simp only [settle, adding, hpending]
      rw [take_adding htake value hname]
      rfl

theorem pending_of_settle {progress after : Progress} (h : progress.settle = .ok after) :
    after.pending = none := by
  unfold settle at h
  split at h
  · cases h
    assumption
  · obtain ⟨found, -, h⟩ := bind_eq_ok_iff.mp h
    cases h
    rfl

theorem names_of_pending_eq_none {progress : Progress} (h : progress.pending = none) :
    progress.names = progress.found.map Prod.fst := by
  simp [names, h]

theorem steady_accept {parameter : Parameter} (hparameter : parameter ∈ command.options)
    (values : List String) : Steady command fun progress => progress.accept parameter values := by
  refine steady_settle.bind fun progress settled hsettle after h => ?_
  have hnames := names_of_pending_eq_none (pending_of_settle hsettle)
  obtain ⟨found, htake, h⟩ := bind_eq_ok_iff.mp h
  cases h
  refine ⟨?_, fun hfilled => ⟨nofun, filled_take htake hfilled.2 (.inr hparameter)⟩, ?_⟩
  · rw [hnames]
    exact fun name hname => names_take htake (List.mem_cons_of_mem _ hname)
  · exact fun name value hname => bind_eq_ok_iff.mpr ⟨_, take_adding htake value hname, rfl⟩

theorem steady_await {parameter : Parameter} (hparameter : parameter.takesValue = true)
    (values : List String) : Steady command fun progress => progress.await parameter values := by
  refine steady_settle.bind fun progress settled hsettle after h => ?_
  have hnames := names_of_pending_eq_none (pending_of_settle hsettle)
  cases h
  refine ⟨?_, fun hfilled => ⟨?_, hfilled.2⟩, fun _ _ _ => rfl⟩
  · rw [hnames]
    exact List.subset_cons_self _ _
  · rintro _ ⟨⟩
    exact hparameter

theorem steady_stop (reason : UsageError) : Steady command fun progress => progress.stop reason :=
  steady_settle.bind fun _ _ _ => nofun

end Progress

/-! ## Words -/

open Progress (Steady)

variable {command : Command}

theorem steady_readNamed (name : String) (value : Option String) :
    Steady command fun progress => readNamed command progress name value := by
  unfold readNamed
  split
  · rename_i option hfind
    have hoption := List.mem_of_find?_eq_some hfind
    split
    · exact Progress.steady_accept hoption _
    · exact Progress.steady_await ‹_› []
    · exact Progress.steady_error _
    · exact Progress.steady_accept hoption []
  · split
    · split
      · exact Progress.steady_error _
      · exact Progress.steady_stop _
    · exact Progress.steady_error _

theorem steady_readLetters (letters : List Char) :
    Steady command fun progress => readLetters command progress letters := by
  induction letters with
  | nil =>
    rintro progress _ ⟨⟩
    exact ⟨List.Subset.refl _, id, fun _ _ _ => rfl⟩
  | cons c letters ih =>
    unfold readLetters
    split
    · rename_i option hfind
      have hoption := List.mem_of_find?_eq_some hfind
      split
      · split
        · exact Progress.steady_accept hoption _
        · exact Progress.steady_await ‹_› []
      · exact (Progress.steady_accept hoption []).bind fun _ progress _ => ih progress
    · split
      · exact Progress.steady_stop _
      · split
        · exact Progress.steady_stop _
        · exact Progress.steady_error _

theorem steady_readWord (hword : ∀ parameter ∈ command.word, parameter.takesValue = true)
    (trailing : Bool) (text : String) :
    Steady command fun progress => readWord command progress trailing text := by
  unfold readWord
  cases hcommand : command.word with
  | none =>
    dsimp only
    split
    · exact Progress.steady_error _
    · split
      · exact Progress.steady_error _
      · exact Progress.steady_error _
  | some parameter =>
    intro progress after h
    dsimp only at h ⊢
    split at h
    · cases h
    rename_i hfresh
    have hstep : Progress.SteadyAt command _ id progress after :=
      Progress.steady_await (hword parameter hcommand) [text] progress after h
    refine ⟨hstep.names, hstep.filled, fun name value hname => ?_⟩
    have hparameter : parameter.name ∈ after.names := by
      obtain ⟨settled, -, h⟩ := bind_eq_ok_iff.mp h
      cases h
      exact List.mem_cons_self
    have hne : parameter.name ≠ name := fun heq => hname (heq ▸ hparameter)
    rw [if_neg]
    · exact hstep.adding name value hname
    · simpa only [Progress.adding, Progress.lookup_adding value hne] using hfresh

theorem steady_readArgument (hword : ∀ parameter ∈ command.word, parameter.takesValue = true)
    (text : String) : Steady command fun progress => readArgument command progress text := by
  unfold readArgument
  split
  · exact steady_readNamed _ _
  · exact steady_readLetters _
  · intro progress after h
    dsimp only at h ⊢
    split at h
    · rename_i parameter hpending
      cases h
      refine ⟨by simp [Progress.names, hpending], fun hfilled => ⟨?_, hfilled.2⟩, fun name value _ => ?_⟩
      · rintro _ ⟨⟩
        exact hfilled.1 (parameter, []) hpending
      · simp [Progress.adding, hpending]
    · rename_i hpending
      have hstep := steady_readWord hword false text progress after h
      refine ⟨hstep.names, hstep.filled, fun name value hname => ?_⟩
      split
      · exact absurd ‹_› (hpending _)
      · exact hstep.adding name value hname

/-! ## Whole commands -/

theorem steady_readArguments (hword : ∀ parameter ∈ command.word, parameter.takesValue = true)
    {trailing : Bool} {progress after : Progress} {words : List String}
    {next : Option (Command × List String)}
    (h : readArguments command trailing progress words = .ok (after, next)) :
    Progress.SteadyAt command (fun progress => readArguments command trailing progress words)
      (fun progress => (progress, next)) progress after := by
  induction words generalizing trailing progress with
  | nil =>
    cases trailing <;>
    · cases h
      exact ⟨List.Subset.refl _, id, fun _ _ _ => rfl⟩
  | cons text rest ih =>
    cases trailing with
    | true =>
      obtain ⟨mid, hmid, hrest⟩ := bind_eq_ok_iff.mp h
      exact (steady_readWord hword true text progress mid hmid).bind (ih hrest)
    | false =>
      unfold readArguments at h
      split at h
      · cases h
      rename_i hhelp
      split at h
      · rename_i inner hfind
        cases h
        refine ⟨List.Subset.refl _, id, fun name value _ => ?_⟩
        rw [readArguments, Progress.awaitsValue_adding, if_neg hhelp, hfind]
      · rename_i hfind
        split at h
        · rename_i hdashes
          have hrest := ih h
          refine ⟨hrest.names, hrest.filled, fun name value hname => ?_⟩
          rw [readArguments, Progress.awaitsValue_adding, if_neg hhelp, hfind]
          dsimp only
          rw [if_pos hdashes]
          exact hrest.adding name value hname
        · rename_i hdashes
          obtain ⟨mid, hmid, hrest⟩ := bind_eq_ok_iff.mp h
          have hstep := (steady_readArgument hword text progress mid hmid).bind (ih hrest)
          refine ⟨hstep.names, hstep.filled, fun name value hname => ?_⟩
          rw [readArguments, Progress.awaitsValue_adding, if_neg hhelp, hfind]
          dsimp only
          rw [if_neg hdashes]
          exact hstep.adding name value hname

theorem steady_conclude {progress : Progress} {goesOn : Bool} {found : Found}
    (h : conclude command progress goesOn = .ok found) :
    Progress.SteadyAt command (fun progress => conclude command progress goesOn) Progress.found progress
      { found } := by
  obtain ⟨settled, hsettle, h⟩ := bind_eq_ok_iff.mp h
  refine (Progress.steady_settle progress settled hsettle).bind ?_
  have hnames := Progress.names_of_pending_eq_none (Progress.pending_of_settle hsettle)
  split at h
  · cases h
  rename_i hgoes
  have hfound : settled.found = found ∧
      ∀ parameter ∈ command.word, (settled.found.lookup parameter.name).isSome := by
    split at h
    · rename_i parameter hword
      split at h
      · cases h
        simp_all
      · cases h
    · rename_i hword
      cases h
      simp [hword]
  obtain ⟨rfl, hword⟩ := hfound
  refine ⟨hnames ▸ List.Subset.refl _, fun hfilled => ⟨nofun, hfilled.2⟩, fun name value _ => ?_⟩
  rw [if_neg hgoes]
  cases hcommand : command.word with
  | none => rfl
  | some parameter =>
    have := hword parameter hcommand
    simp [Progress.adding, List.lookup_append, this]

/-! ## What is pending -/

section Pending

-- What is pending may as well have been looked at before the next word.
variable {progress settled : Progress} (hsettle : progress.settle = .ok settled)
include hsettle

theorem settle_settled : settled.settle = .ok settled := by
  rw [Progress.settle, Progress.pending_of_settle hsettle]

theorem settle_bind {α : Type} (next : Progress → Except UsageError α) :
    (progress.settle >>= next) = (settled.settle >>= next) := by
  rw [hsettle, settle_settled hsettle]

theorem readNamed_settled (name : String) (value : Option String) :
    readNamed command progress name value = readNamed command settled name value := by
  simp only [readNamed, Progress.accept, Progress.await, Progress.stop, settle_bind hsettle]

theorem readLetters_settled (c : Char) (letters : List Char) :
    readLetters command progress (c :: letters) = readLetters command settled (c :: letters) := by
  simp only [readLetters, Progress.accept, Progress.await, Progress.stop, settle_bind hsettle]

theorem readArgument_settled (hword : command.word = none) (hawaits : progress.awaitsValue = false)
    (text : String) : readArgument command progress text = readArgument command settled text := by
  unfold readArgument
  split
  · exact readNamed_settled hsettle _ _
  · exact readLetters_settled hsettle _ _
  · rw [Progress.pending_of_settle hsettle]
    split
    · rename_i parameter hpending
      simp [Progress.awaitsValue, hpending] at hawaits
    · simp only [readWord, hword]

/-- What is pending need not be looked at before the last word of a command without words. -/
theorem readArguments_settled (hword : command.word = none) (hawaits : progress.awaitsValue = false)
    {trailing : Bool} {words : List String} {after : Progress} {next : Option (Command × List String)}
    (h : readArguments command trailing settled words = .ok (after, next)) :
    ∃ unsettled, readArguments command trailing progress words = .ok (unsettled, next) ∧
      unsettled.settle = after.settle := by
  have hidle : settled.awaitsValue = false := by
    simp [Progress.awaitsValue, Progress.pending_of_settle hsettle]
  induction words generalizing trailing with
  | nil =>
    cases trailing <;>
    · cases h
      exact ⟨progress, rfl, hsettle.trans (settle_settled hsettle).symm⟩
  | cons text rest ih =>
    cases trailing with
    | true =>
      -- There is no word that could stand for itself.
      simp only [readArguments, readWord, hword] at h ⊢
      exact ⟨after, h, rfl⟩
    | false =>
      rw [readArguments, hidle] at h
      rw [readArguments, hawaits]
      split at h
      · cases h
      rename_i hhelp
      rw [if_neg hhelp]
      split at h
      · cases h
        exact ⟨progress, rfl, hsettle.trans (settle_settled hsettle).symm⟩
      · split at h
        · rename_i hdashes
          rw [if_pos hdashes]
          exact ih h
        · rename_i hdashes
          rw [if_neg hdashes, readArgument_settled hsettle hword hawaits]
          exact ⟨after, h, rfl⟩

end Pending

/-! ## The format in front -/

theorem readArguments_cons_format {value : String} (hvalue : value.toList.head? ≠ some '-')
    (words : List String) :
    readArguments program false {} ("--format" :: value :: words) =
      readArguments program false { pending := some ({ name := "format" }, [value]) } words := by
  have hdashes : value ≠ "--" := by
    rintro rfl
    exact hvalue rfl
  have hread : readArgument program { pending := some ({ name := "format" }, []) } value =
      .ok { pending := some ({ name := "format" }, [value]) } := by
    unfold readArgument
    split
    · simp_all
    · simp_all
    · rfl
  -- The value is awaited, so that it names no command and asks for no help.
  calc readArguments program false {} ("--format" :: value :: words)
      = readArguments program false { pending := some ({ name := "format" }, []) } (value :: words) := rfl
    _ = (readArgument program { pending := some ({ name := "format" }, []) } value >>= fun progress =>
          readArguments program false progress words) := if_neg hdashes
    _ = _ := by rw [hread]; rfl

theorem value?_adding {found : Found} {key name : String} (value : String) (h : key ≠ name) :
    value? (found ++ [(name, [value])]) key = value? found key := by
  rw [value?, values, Progress.lookup_adding value h, value?, values]

/-- A parameter that takes values is found only with a value. -/
theorem lookup_of_value?_eq_none {found : Found} (hfilled : found.Filled command) {name : String}
    (hname : ∀ option ∈ command.options, option.name = name → option.takesValue = true)
    (h : value? found name = none) : found.lookup name = none := by
  cases hlookup : found.lookup name with
  | none => rfl
  | some given =>
    obtain rfl : given = [] := by simpa [value?, values, hlookup] using h
    obtain ⟨before, behind, hfound, -⟩ := List.lookup_eq_some_iff.mp hlookup
    obtain ⟨option, hoption, heq, hflag⟩ := hfilled name (by simp [hfound])
    rw [hname option hoption heq] at hflag
    cases hflag

theorem readCommand_ne_nil {depth : Nat} {words : List String} {commands : List (String × Found)}
    (h : readCommand depth command words = .ok commands) : commands ≠ [] := by
  cases depth with
  | zero => cases h
  | succ depth =>
    obtain ⟨⟨progress, next⟩, -, h⟩ := bind_eq_ok_iff.mp h
    cases next with
    | none =>
      obtain ⟨found, -, h⟩ := bind_eq_ok_iff.mp h
      cases h
      simp
    | some inner =>
      obtain ⟨lower, -, h⟩ := bind_eq_ok_iff.mp h
      obtain ⟨found, -, h⟩ := bind_eq_ok_iff.mp h
      cases h
      simp

/-- What is read of a line that gives no format, with a format in front of it. -/
theorem readCommand_cons_format {depth : Nat} {words : List String} {commands : List (String × Found)}
    (h : readCommand (depth + 1) program words = .ok commands)
    (hnone : ∀ entry ∈ commands, value? entry.2 "format" = none)
    {value : String} (hvalue : value.toList.head? ≠ some '-') :
    ∃ found lower, commands = (program.name, found) :: lower ∧ found.lookup "format" = none ∧
      lower ≠ [] ∧ readCommand (depth + 1) program ("--format" :: value :: words) =
        .ok ((program.name, found ++ [("format", [value])]) :: lower) := by
  obtain ⟨⟨after, next⟩, hwords, h⟩ := bind_eq_ok_iff.mp h
  cases next with
  | none =>
    -- The program does nothing by itself.
    obtain ⟨found, hfound, -⟩ := bind_eq_ok_iff.mp h
    obtain ⟨settled, -, h⟩ := bind_eq_ok_iff.mp hfound
    cases h
  | some inner =>
    obtain ⟨inner, rest⟩ := inner
    obtain ⟨lower, hlower, h⟩ := bind_eq_ok_iff.mp h
    obtain ⟨found, hfound, h⟩ := bind_eq_ok_iff.mp h
    cases h
    have hreads := steady_readArguments (by simp [program, groupCommand]) hwords
    have hends := steady_conclude hfound
    have hfilled : found.Filled program := (hends.filled (hreads.filled ⟨nofun, nofun⟩)).2
    have hlookup := lookup_of_value?_eq_none hfilled (by decide) (hnone _ List.mem_cons_self)
    have hnew : "format" ∉ found.map Prod.fst := by
      intro hmem
      obtain ⟨entry, hentry, heq⟩ := List.mem_map.mp hmem
      have hne := List.lookup_eq_none_iff.mp hlookup entry hentry
      simp [heq] at hne
    have hnewAfter : "format" ∉ after.names := fun hmem => hnew (hends.names hmem)
    -- In front of all other words, the format is still pending when these are read.
    have hpending : Progress.settle { pending := some ({ name := "format" }, [value]) } =
        .ok (Progress.adding "format" value {}) := rfl
    obtain ⟨unsettled, hunsettled, hsettle⟩ :=
      readArguments_settled hpending rfl rfl (hreads.adding "format" value hnewAfter)
    refine ⟨found, lower, rfl, hlookup, readCommand_ne_nil hlower, ?_⟩
    refine bind_eq_ok_iff.mpr ⟨_, (readArguments_cons_format hvalue words).trans hunsettled, ?_⟩
    refine bind_eq_ok_iff.mpr ⟨lower, hlower, bind_eq_ok_iff.mpr ⟨_, ?_, rfl⟩⟩
    rw [conclude, hsettle]
    exact hends.adding "format" value hnew

/-- Of a common option the value given to the lowest command counts. -/
theorem findSome?_reverse_cons {β : Type} (value? : String × Found → Option β) (entry : String × Found)
    (lower : List (String × Found)) :
    (entry :: lower).reverse.findSome? value? = (lower.reverse.findSome? value?).or (value? entry) := by
  simp [List.findSome?_append]

/-- A format can be put in front of a line that gives none. -/
theorem parse_cons_format {words : List String} {invocation : Invocation}
    (h : parse words = .ok invocation) (hnone : invocation.format = none) {value : String}
    (hvalue : value.toList.head? ≠ some '-') :
    parse ("--format" :: value :: words) = .ok { invocation with format := some value } := by
  obtain ⟨commands, hread, h⟩ := bind_eq_ok_iff.mp h
  dsimp only at h
  split at h
  · cases h
  rename_i task htask
  cases h
  have hall : ∀ entry ∈ commands, value? entry.2 "format" = none := by
    simpa [List.findSome?_eq_none_iff] using hnone
  obtain ⟨found, lower, rfl, hlookup, hlower, hread⟩ := readCommand_cons_format hread hall hvalue
  refine bind_eq_ok_iff.mpr ⟨_, hread, ?_⟩
  obtain ⟨inner, lower, rfl⟩ := List.exists_cons_of_ne_nil hlower
  simp only [List.getLast?_cons_cons, List.drop_one, List.tail_cons] at htask ⊢
  rw [htask]
  have hformat : value? (found ++ [("format", [value])]) "format" = some value := by
    simp [value?, values, List.lookup_append, hlookup]
  have houtput : value? (found ++ [("format", [value])]) "output" = value? found "output" :=
    value?_adding value (by decide)
  have hverbose : given (found ++ [("format", [value])]) "verbose" = given found "verbose" := by
    rw [given, Progress.lookup_adding value (by decide), given]
  have hlowest : (inner :: lower).reverse.findSome? (fun entry => value? entry.2 "format") = none := by
    rw [List.findSome?_eq_none_iff]
    exact fun entry hentry => hall entry (List.mem_cons_of_mem _ (List.mem_reverse.mp hentry))
  simp only [findSome?_reverse_cons _ _ (inner :: lower), List.any_cons, hformat, houtput, hverbose,
    hlowest, Option.none_or]
  rfl

end CodeOutline.CommandLine
