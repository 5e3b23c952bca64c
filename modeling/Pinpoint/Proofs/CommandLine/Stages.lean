import Pinpoint.CommandLine.Run
import Pinpoint.Proofs.Batch.Reordering
import Pinpoint.Proofs.Text.Numeral
import Pinpoint.Proofs.Trace

/-!
# The stages of a report

A run that is asked for a report completes its options, reads the input, analyses it, and delivers what is
found. Each stage is taken apart once: what input means for a report (`reportWith_of_read`,
`reportWith_of_fault`), what a report that is made has come to (`reportOn_eq_ok`), and what is analysed for it
(`analyzeInput_eq_ok`). A status of zero or one tells that all of them were passed
(`exists_madeOf_of_run`).
-/

namespace Pinpoint.CommandLine

variable {yaml : Config.Reader} {t : FileTree} {arguments : List String} {given o : ReportOptions}
  {events : List Event} {input : Input} {b : BatchResult} {outcome : Outcome}

/-- A run that is asked for a report makes it. -/
theorem run_report (harguments : Invocation.ofArguments arguments = .ok (.report given)) :
    run t arguments yaml = report yaml t given := by
  unfold run
  rw [harguments]

/-! ### Options -/

/-- The default configuration adds nothing. -/
theorem withConfig_default (o : ReportOptions) : o.withConfig Config.default = o := by
  obtain ⟨builds, results, output, spaceLimited, debug, strict, contracts, config⟩ := o
  unfold ReportOptions.withConfig Config.default
  cases contracts with
  | nil => simp only [Bool.or_false, List.isEmpty_nil, if_true]
  | cons name rest => simp only [Bool.or_false, List.isEmpty_cons, if_neg Bool.false_ne_true]

/-- Where no configuration is found, the options are those that are given. -/
theorem complete_of_fileIn?_eq_none (h : Config.fileIn? t given.configDirectory = none) :
    given.complete yaml t = .ok given := by
  unfold ReportOptions.complete
  rw [Config.load_of_fileIn?_eq_none yaml h]
  exact congrArg Except.ok (withConfig_default given)

/-! ### Input -/

/-- Input that can be read is reported on. -/
theorem reportWith_of_read (h : (readInput t o.results o.builds).outcome = .ok input) :
    reportWith t o = reportOn t o (readInput t o.results o.builds).notes input := by
  unfold reportWith
  dsimp only
  rw [h]

/-- Input that cannot be read is told about, if there are words for the fault. -/
theorem reportWith_of_fault {fault : InputFault}
    (h : (readInput t o.results o.builds).outcome = .error fault) :
    reportWith t o = (do
      let message ← fault.message.mapError .analysis
      return ⟨3, "", o.shown ((readInput t o.results o.builds).notes.map Event.logLine)
        ++ [errorLine message], t⟩) := by
  unfold reportWith
  dsimp only
  rw [h]

/-! ### Analysis -/

/-- What is selected is there. -/
theorem mem_of_mem_selected {artifacts : List Artifact} {a : Artifact} (h : a ∈ o.selected artifacts) :
    a ∈ artifacts := by
  unfold ReportOptions.selected at h
  split at h
  · exact h
  · exact (List.mem_filter.mp h).1

/-- A contract is analysed with the results under its name. -/
theorem unitFor_eq_ok {a : Artifact} {u : AnalysisUnit} :
    input.unitFor a = .ok u ↔
      ∃ name, a.contractName.key = .ok name ∧ u = ⟨.artifact a, .arr (input.results.of name)⟩ := by
  unfold Input.unitFor
  rw [Except.bind_eq_ok]
  refine exists_congr fun name => and_congr_right fun _ => ?_
  rw [Except.pure_eq_ok]
  exact eq_comm

/-- Warnings about missing contracts keep nothing from going on. -/
theorem forM_note_outcome (names : List Json) :
    (names.forM fun name => (Trace.note (.log (missingLine name)) : Logged Unit)).outcome = .ok () := by
  induction names with
  | nil => rfl
  | cons name rest ih =>
    show (Trace.note (.log (missingLine name)) >>= fun _ => _ : Logged Unit).outcome = .ok ()
    rw [Trace.outcome_bind, Trace.note_outcome, Except.ok_bind]
    exact ih

/-- **What is analysed** is a batch of the contracts that are selected, each with the results under its
name. -/
theorem analyzeInput_outcome (o : ReportOptions) (input : Input) :
    (analyzeInput o input).outcome = (do
      let _ ← missingContracts input.artifacts (o.contracts.map .str)
      let units ← (o.selected input.artifacts).mapM input.unitFor
      (analyzeBatch o.settings units).outcome) := by
  simp only [analyzeInput, Trace.outcome_bind, Trace.lift_outcome, forM_note_outcome, Except.ok_bind]

theorem analyzeInput_eq_ok : (analyzeInput o input).outcome = .ok b ↔
    (∃ missing, missingContracts input.artifacts (o.contracts.map .str) = .ok missing) ∧
      ∃ units, (o.selected input.artifacts).mapM input.unitFor = .ok units ∧
        (analyzeBatch o.settings units).outcome = .ok b := by
  rw [analyzeInput_outcome, Except.bind_eq_ok]
  constructor
  · rintro ⟨missing, hmissing, h⟩
    exact ⟨⟨missing, hmissing⟩, Except.bind_eq_ok.mp h⟩
  · rintro ⟨⟨missing, hmissing⟩, h⟩
    exact ⟨missing, hmissing, Except.bind_eq_ok.mpr h⟩

/-- A single contract is analysed on its own. -/
theorem analyzeInput_of_single {a : Artifact} {name : String} {reports : List FileReport}
    (hall : o.contracts = []) (hinput : input.artifacts = [a]) (hname : a.contractName = .str name)
    (hanalysis : (analyzeArtifact o.settings a (.arr (input.results.of (.text name)))).outcome = .ok reports) :
    (analyzeInput o input).outcome = BatchResult.ofOutcomes [.reports reports] := by
  have hunit : input.unitFor a = .ok ⟨.artifact a, .arr (input.results.of (.text name))⟩ :=
    unitFor_eq_ok.mpr ⟨.text name, congrArg Json.key hname, rfl⟩
  have hrun : (AnalysisUnit.run o.settings ⟨.artifact a, .arr (input.results.of (.text name))⟩).outcome
      = .ok (.reports reports) := by
    have hanalyze : (AnalysisUnit.analyze o.settings
        ⟨.artifact a, .arr (input.results.of (.text name))⟩).outcome = .ok reports := by
      rw [AnalysisUnit.analyze, Trace.outcome_bind]
      exact hanalysis
    rw [AnalysisUnit.run_outcome, hanalyze]
    rfl
  have hselected : o.selected input.artifacts = [a] := by
    rw [ReportOptions.selected, hall, hinput]
    rfl
  have hunits : (o.selected input.artifacts).mapM input.unitFor
      = .ok [⟨.artifact a, .arr (input.results.of (.text name))⟩] := by
    rw [hselected]
    exact List.mapM_eq_ok.mpr (.cons hunit .nil)
  have hnone : missingContracts input.artifacts (o.contracts.map .str) = .ok [] := by
    rw [hall]
    rfl
  rw [analyzeInput_outcome, hnone, hunits]
  exact analyzeBatch_singleton hrun

/-! ### Delivery -/

/-- **A report is made of a batch:** the batch is that of the input, and it is delivered as it is written. The
lines for the user are those of the log, and then one for each failure. -/
structure MadeOf (t : FileTree) (o : ReportOptions) (events : List Event) (input : Input)
    (b : BatchResult) (outcome : Outcome) : Prop where
  analysis : (analyzeInput o input).outcome = .ok b
  writable : b.toJson.isWritable = true
  delivered : deliver t o.output (b.toJson.pretty ++ "\n") = .ok (outcome.output, outcome.files)
  status : outcome.status = reportStatus b
  messages : outcome.messages
    = o.shown (events.map Event.logLine ++ (analyzeInput o input).notes.map Note.logLine)
      ++ b.failures.map failedLine

/-- A batch is written if there is no number in it that is too long. -/
theorem reportText_eq_ok {text : String} :
    reportText b = .ok text ↔ b.toJson.isWritable = true ∧ text = b.toJson.pretty ++ "\n" := by
  unfold reportText
  constructor
  · intro h
    split at h
    next hwritable => exact ⟨hwritable, (Except.ok.inj h).symm⟩
    next => cases h
  · rintro ⟨hwritable, rfl⟩
    rw [if_pos hwritable]

/-- **A report that is made** is made of a batch. -/
theorem reportOn_eq_ok :
    reportOn t o events input = .ok outcome ↔ ∃ b, MadeOf t o events input b outcome := by
  unfold reportOn
  constructor
  · intro h
    obtain ⟨b, hb, h⟩ := Except.bind_eq_ok.mp h
    obtain ⟨text, htext, h⟩ := Except.bind_eq_ok.mp h
    obtain ⟨⟨printed, files⟩, hdelivered, h⟩ := Except.bind_eq_ok.mp h
    obtain rfl := Except.pure_eq_ok.mp h
    obtain ⟨hwritable, rfl⟩ := reportText_eq_ok.mp (Except.mapError_eq_ok.mp htext)
    exact ⟨b, Except.mapError_eq_ok.mp hb, hwritable, Except.mapError_eq_ok.mp hdelivered, rfl, rfl⟩
  · rintro ⟨b, h⟩
    refine Except.bind_eq_ok.mpr ⟨b, Except.mapError_eq_ok.mpr h.analysis, ?_⟩
    refine Except.bind_eq_ok.mpr ⟨_, Except.mapError_eq_ok.mpr
      (reportText_eq_ok.mpr ⟨h.writable, rfl⟩), ?_⟩
    refine Except.bind_eq_ok.mpr ⟨_, Except.mapError_eq_ok.mpr h.delivered, ?_⟩
    rw [Except.pure_eq_ok, ← h.status, ← h.messages]

/-- **A status of zero or one** tells that the options were completed, that the input was read, and that a report
was made of it. -/
theorem exists_madeOf_of_run (harguments : Invocation.ofArguments arguments = .ok (.report given))
    (hrun : run t arguments yaml = .ok outcome) (hstatus : outcome.status = 0 ∨ outcome.status = 1) :
    ∃ o, given.complete yaml t = .ok o ∧ ∃ input, (readInput t o.results o.builds).outcome = .ok input ∧
      ∃ b, MadeOf t o (readInput t o.results o.builds).notes input b outcome := by
  rw [run_report harguments] at hrun
  obtain ⟨o, ho, hmade⟩ := Except.bind_eq_ok.mp hrun
  refine ⟨o, Except.mapError_eq_ok.mp ho, ?_⟩
  cases hread : (readInput t o.results o.builds).outcome with
  | ok input =>
    rw [reportWith_of_read hread, reportOn_eq_ok] at hmade
    exact ⟨input, rfl, hmade⟩
  | error fault =>
    -- a fault of the input gives status three
    rw [reportWith_of_fault hread] at hmade
    obtain ⟨message, -, h⟩ := Except.bind_eq_ok.mp hmade
    obtain rfl := Except.pure_eq_ok.mp h
    rcases hstatus with h | h
    · cases h
    · cases h

/-! ### Small requests -/

/-- A file with a text of ASCII characters. -/
def asciiFile (text : String) : Entry :=
  .file (text.toList.map fun c => c.toNat.toUInt8)

/-- The arguments of a report on one build file. -/
def plainArguments : List String := ["report", "A.json", "--results", "r.json"]

/-- What they ask for. -/
def plainOptions : ReportOptions where
  builds := [⟨"", ["A.json"]⟩]
  results := ⟨"", ["r.json"]⟩
  output := none
  spaceLimited := false
  debug := false
  strict := false
  contracts := []
  config := none

theorem ofArguments_plainArguments :
    Invocation.ofArguments plainArguments = .ok (.report plainOptions) := rfl

/-- A report with one message on a finding without a place can be written. -/
theorem isWritable_single (message : String) : (BatchResult.toJson
    ⟨[⟨"a.sol", [⟨"", .str message, 2, "High", true, ⟨-1, 0⟩, none⟩], 0, 0⟩], []⟩).isWritable = true := by
  have hsmall (n : Int) (h : n.natAbs ≤ Text.digitLimit) : Text.tooLong n = false :=
    Text.tooLong_of_natAbs_le h
  simp (disch := exact Nat.le_of_ble_eq_true rfl) only [BatchResult.toJson, FileReport.toJson, Message.toJson,
    List.map_cons, List.map_nil, List.append_nil, Json.isWritable, Json.allWritable, Json.fieldsWritable, hsmall,
    Bool.not_false, Bool.and_self]

end Pinpoint.CommandLine
