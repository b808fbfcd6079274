import CodeOutline.Proofs.CommandLine.Adding
import CodeOutline.Proofs.Json.Lines
import CodeOutline.Proofs.Program.Delivery

/-! # The two formats

What is outlined does not depend on the format of the answer, and a run fails in both formats or in none.
If it succeeds, the document that is printed as JSON can be read, and it holds the very text that is
printed otherwise (`formats_carry_same_outline`).
-/

namespace CodeOutline

open CommandLine (Invocation Task)

/-- How a run ends that prints an answer in a format, if there is one. -/
def Outcome.ofAnswer (disk : Disk) (format : Format) : Except Failure OutlineAnswer → Outcome
  | .ok answer => ⟨0, { out := answer.content format }, disk⟩
  | .error failure => .ofFailure disk format format failure

theorem Outcome.status_ofAnswer (disk : Disk) (format other : Format)
    (result : Except Failure OutlineAnswer) :
    (ofAnswer disk format result).status = (ofAnswer disk other result).status := by
  cases result <;> rfl

theorem Outcome.status_ofAnswer_eq_zero_iff {grammars : Grammars} {machine : Machine} {session : Session}
    {task : Task} {result : Except Failure OutlineAnswer}
    (h : session.Accurate grammars machine task result) (disk : Disk) (format : Format) :
    (ofAnswer disk format result).status = 0 ↔
      ∃ entries outline, session.Outlined grammars machine task entries outline := by
  cases result with
  | error failure =>
    have hstatus : (ofAnswer disk format (.error failure)).status ≠ 0 := failure.status_ne_zero
    refine ⟨fun hzero => absurd hzero hstatus, ?_⟩
    rintro ⟨entries, outline, houtlined⟩
    exact absurd ⟨entries, houtlined, rfl, rfl⟩
      (h.2 ⟨"", entries.length, Folder.countSymbols entries, outline⟩)
  | ok answer =>
    obtain ⟨-, entries, houtlined, -⟩ := h
    exact ⟨fun _ => ⟨entries, answer.outline, houtlined⟩, fun _ => rfl⟩

/-- Whatever format is given, a run comes to the same result. -/
theorem exists_result_of_given (grammars : Grammars) (machine : Machine) {invocation : Invocation}
    (htask : invocation.task.isOutlining) (houtput : invocation.output = none) :
    ∃ session result, Session.start machine machine.herePath (some "text") none = .ok session ∧
      session.Accurate grammars machine invocation.task result ∧
      ∀ name format, Format.ofName? name = some format →
        Invocation.run grammars machine { invocation with format := some name } =
          .ofAnswer machine.disk format result := by
  have htext : Format.ofName? "text" = some .text := rfl
  obtain ⟨hstart, -⟩ := Session.start_of_given htext machine machine.herePath none
  obtain ⟨result, hresult, hperform⟩ := Session.exists_accurate_result grammars machine _ htask
  refine ⟨_, result, hstart, hresult, fun name format hname => ?_⟩
  obtain ⟨hgiven, herrors⟩ := Session.start_of_given hname machine machine.herePath none
  unfold Invocation.run
  simp only [houtput, hgiven, herrors, hperform]
  cases result <;> rfl

/-- The document of an answer can be read. -/
theorem onText_content_json {answer : OutlineAnswer} (hfiles : answer.files ≤ Word.max64)
    (hsymbols : answer.symbols ≤ Word.max64) :
    (Json.Reader.value Json.nestingLimit).onText (answer.content .json) =
      .ok (Report.envelope answer.toJson) := by
  apply Json.Reader.onText_pretty
  simp [Json.nestingLimit, Report.envelope, OutlineAnswer.toJson, Json.fits, hfiles, hsymbols]

/-- A run prints the same outline as text and as JSON.  The counts in the document are read as they are
    as long as they have no more than 64 bits. -/
theorem formats_carry_same_outline (grammars : Grammars) (machine : Machine) {words : List String}
    {invocation : Invocation} (hparse : CommandLine.parse words = .ok invocation)
    (htask : invocation.task.isOutlining) (hformat : invocation.format = none)
    (houtput : invocation.output = none) :
    (∀ name ∈ ["text", "json"], CommandLine.parse ("--format" :: name :: words) =
      .ok { invocation with format := some name }) ∧
    ∀ textWords jsonWords,
      CommandLine.parse textWords = .ok { invocation with format := some "text" } →
      CommandLine.parse jsonWords = .ok { invocation with format := some "json" } →
      ∃ text json, run grammars machine textWords = .ok text ∧
        run grammars machine jsonWords = .ok json ∧ text.status = json.status ∧
        (text.status = 0 ↔ ∃ session entries outline,
          Session.start machine machine.herePath (some "text") none = .ok session ∧
          session.Outlined grammars machine invocation.task entries outline) ∧
        (text.status = 0 → ∃ session entries target,
          Session.start machine machine.herePath (some "text") none = .ok session ∧
          session.Outlined grammars machine invocation.task entries text.report.out ∧
          (entries.length ≤ Word.max64 → Folder.countSymbols entries ≤ Word.max64 →
            (Json.Reader.value Json.nestingLimit).onText json.report.out = .ok (.object
              [("data", .object
                [("files", .natural entries.length), ("outline", .string text.report.out),
                  ("symbols", .natural (Folder.countSymbols entries)), ("target", .string target)]),
                ("success", .bool true)]))) := by
  constructor
  · intro name hname
    have hall : ∀ name ∈ ["text", "json"], name.toList.head? ≠ some '-' := by decide
    exact CommandLine.parse_cons_format hparse hformat (hall name hname)
  intro textWords jsonWords htext hjson
  obtain ⟨session, result, hstart, hresult, hrun⟩ :=
    exists_result_of_given grammars machine htask houtput
  refine ⟨.ofAnswer machine.disk .text result, .ofAnswer machine.disk .json result, ?_, ?_,
    Outcome.status_ofAnswer machine.disk .text .json result, ?_, fun hstatus => ?_⟩
  · rw [run_of_parse grammars machine htext, hrun "text" .text rfl]
  · rw [run_of_parse grammars machine hjson, hrun "json" .json rfl]
  · simp only [Outcome.status_ofAnswer_eq_zero_iff hresult, hstart, Except.ok.injEq, exists_and_left,
      exists_eq_left']
  cases result with
  | error failure => exact absurd hstatus failure.status_ne_zero
  | ok answer =>
    obtain ⟨-, entries, houtlined, hfiles, hsymbols⟩ := hresult
    refine ⟨session, entries, answer.target, hstart, houtlined, fun hlength hcount => ?_⟩
    have hread := onText_content_json (hfiles ▸ hlength) (hsymbols ▸ hcount)
    rw [Report.envelope, OutlineAnswer.toJson, hfiles, hsymbols] at hread
    exact hread

/-- The outline of a class, once as it is and once in a document. -/
theorem formats_carry_same_outline_class :
    CommandLine.parse ["list", "c.js"] = .ok { task := .list "c.js" none } ∧ ∃ text json,
      run classGrammars classMachine ["--format", "text", "list", "c.js"] = .ok text ∧
      run classGrammars classMachine ["--format", "json", "list", "c.js"] = .ok json ∧
      text.status = 0 ∧ json.status = 0 ∧
      text.report.out = "Class C\n\tConstructor constructor\n" ∧
      ∃ target, (Json.Reader.value Json.nestingLimit).onText json.report.out = .ok (.object
        [("data", .object
          [("files", .natural 1), ("outline", .string "Class C\n\tConstructor constructor\n"),
            ("symbols", .natural 2), ("target", .string target)]),
          ("success", .bool true)]) := by
  have hparse : CommandLine.parse ["list", "c.js"] = .ok { task := .list "c.js" none } := rfl
  obtain ⟨hadded, hsame⟩ :=
    formats_carry_same_outline classGrammars classMachine hparse rfl rfl rfl
  obtain ⟨text, json, htext, hjson, hstatus, -, hdone⟩ :=
    hsame _ _ (hadded "text" (by simp)) (hadded "json" (by simp))
  have hran := Except.ok.inj (htext.symm.trans rfl)
  have hdoneStatus : text.status = 0 := by
    rw [hran]
    rfl
  have hout : text.report.out = "Class C\n\tConstructor constructor\n" := by
    rw [hran]
    rfl
  obtain ⟨session, entries, target, hstart, houtlined, hread⟩ := hdone hdoneStatus
  obtain rfl : classSession = session := Except.ok.inj hstart
  have hentries : entries.length = 1 ∧ Folder.countSymbols entries = 2 := by
    cases houtlined with
    | @file _ source _ _ symbols hsource hprovided _ =>
      obtain rfl : Node.classText = source := Except.ok.inj hsource
      obtain rfl := Option.some.inj (Except.ok.inj hprovided)
      exact ⟨rfl, rfl⟩
  rw [hout, hentries.1, hentries.2] at hread
  exact ⟨hparse, text, json, htext, hjson, hdoneStatus, hstatus ▸ hdoneStatus, hout, target,
    hread (by decide) (by decide)⟩

end CodeOutline
