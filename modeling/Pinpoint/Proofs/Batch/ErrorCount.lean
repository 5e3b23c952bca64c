import Pinpoint.Proofs.Batch.Composition

/-!
# Errors are findings of high severity

The number of errors of a batch is counted from its messages, each of which was flagged when it was made. Here it
is counted from the findings: those that the scanner calls high, without those that are dropped
(`errorCount_add_dropped`). Only the units that do not fail take part.

A message is an error exactly if its finding is high, which is `Reflects isHigh Message.isError`. Whatever a test
of messages reflects about findings can be counted on either side, and `countP_add_dropped` says so level by
level: the messages that pass the test, and the dropped findings that do, are together the findings that do. For
the findings of a source the induction is on the list of what becomes of them; sources and units only add up, and
a batch adds up its units by `countP_add_run`. The test that everything passes gives the number of the dropped
findings (`length_dropped`), which is that of the suppressions noted.
-/

namespace Pinpoint

variable {settings : Settings}

/-! ### Tests of findings and of messages -/

/-- The scanner calls the finding high. -/
def isHigh (finding : Json × Json) : Bool := (finding.1.fieldOr "severity" (.str "")).isText "High"

/-- A test of messages says of each message what a test of findings says of the finding that it is made of. -/
def Reflects (p : Json × Json → Bool) (q : Message → Bool) : Prop :=
  ∀ finding f settings place m, Finding.ofIssue finding.1 finding.2 = .ok f →
    Tables.messageAt settings f false place = .ok m → q m = p finding

/-- **A message is an error** exactly if its finding is high. -/
theorem reflects_isHigh : Reflects isHigh Message.isError := by
  intro finding f settings place m hf hm
  obtain ⟨-, hseverity⟩ := Finding.ofIssue_eq_ok hf
  obtain ⟨-, hlevel, hfatal⟩ := Tables.messageAt_severity hm
  unfold Message.isError isHigh
  rw [hfatal, hlevel, hseverity]
  split
  next hhigh => exact hhigh.symm
  next hother => exact (Bool.eq_false_of_not_eq_true hother).symm

theorem reflects_true : Reflects (fun _ => true) fun _ => true :=
  fun _ _ _ _ _ _ _ => rfl

/-! ### What becomes of the findings -/

/-- A message is made of its finding at some place. -/
theorem Tables.exists_messageAt_of_made {t : Tables} {s : SourceSlot} {finding : Json × Json} {m : Message}
    (h : t.made settings s finding = .ok (some m)) :
    ∃ f place, Finding.ofIssue finding.1 finding.2 = .ok f ∧ messageAt settings f false place = .ok m := by
  obtain ⟨f, hf, h⟩ := Except.bind_eq_ok.mp h
  obtain ⟨place, dropped, -, -, hmessage, -⟩ := normalize_eq_ok h
  rcases hmessage with ⟨-, hnone⟩ | ⟨-, msg, hmsg, hsome⟩
  · cases hnone
  · obtain rfl := Option.some.inj hsome
    exact ⟨f, place, hf, hmsg⟩

/-- The finding is dropped. -/
def Tables.drops (t : Tables) (settings : Settings) (s : SourceSlot) (finding : Json × Json) : Bool :=
  match t.made settings s finding with
  | .ok none => true
  | _ => false

/-- The tables of a unit. -/
def AnalysisUnit.tables (u : AnalysisUnit) : Except Error Tables := do
  let a ← u.subject.toArtifact.outcome
  Tables.build a

/-- **The findings of a unit that are dropped,** source by source. -/
def AnalysisUnit.dropped (settings : Settings) (u : AnalysisUnit) : List (Json × Json) :=
  match u.tables with
  | .ok t => (slotsOf u.results.items).flatMap fun s => s.findings.filter (t.drops settings s)
  | .error _ => []

section Counting

variable {p : Json × Json → Bool} {q : Message → Bool}

/-- A list of findings of a source, with what becomes of each. -/
theorem Tables.countP_add_dropped_made {t : Tables} (hpq : Reflects p q) {s : SourceSlot}
    {findings : List (Json × Json)} {made : List (Option Message)}
    (h : List.Forall₂ (fun finding m => t.made settings s finding = .ok m) findings made) :
    (made.filterMap id).countP q + (findings.filter (t.drops settings s)).countP p = findings.countP p := by
  induction h with
  | nil => rfl
  | @cons finding m findings made hm _ ih =>
    rw [List.filter_cons, List.countP_cons, Tables.drops, hm]
    cases m with
    | none =>
      -- the finding counts among the dropped ones
      rw [List.filterMap_cons_none rfl, if_pos rfl, List.countP_cons, ← Nat.add_assoc, ih]
    | some msg =>
      -- it has a message, which passes the test exactly if it does
      obtain ⟨f, place, hf, hmsg⟩ := Tables.exists_messageAt_of_made hm
      have htest : q msg = p finding := hpq finding f settings place msg hf hmsg
      have hmessages : (some msg :: made).filterMap id = msg :: made.filterMap id := rfl
      rw [hmessages, List.countP_cons, htest, if_neg Bool.false_ne_true, ← ih]
      omega

/-- One source. -/
theorem Tables.countP_add_dropped {t : Tables} (hpq : Reflects p q) {s : SourceSlot} {r : FileReport}
    (h : t.reportOf settings s = .ok r) :
    r.messages.countP q + (s.findings.filter (t.drops settings s)).countP p = s.findings.countP p := by
  obtain ⟨made, hmade, rfl⟩ := Tables.exists_made_of_reportOf h
  exact countP_add_dropped_made hpq hmade

/-- Several sources. -/
theorem Tables.countP_add_dropped_slots {t : Tables} (hpq : Reflects p q) {slots : List SourceSlot}
    {rs : List FileReport} (h : slots.mapM (t.reportOf settings) = .ok rs) :
    (rs.flatMap FileReport.messages).countP q
        + (slots.flatMap fun s => s.findings.filter (t.drops settings s)).countP p
      = (slots.flatMap SourceSlot.findings).countP p := by
  rw [List.mapM_eq_ok] at h
  induction h with
  | nil => rfl
  | cons hs _ ih =>
    have hsource := Tables.countP_add_dropped hpq hs
    rw [List.flatMap_cons, List.flatMap_cons, List.flatMap_cons, List.countP_append, List.countP_append,
      List.countP_append]
    omega

namespace AnalysisUnit

/-- The reports of a unit are those of the sources of its results. -/
theorem reportOf_of_analyze {u : AnalysisUnit} {rs : List FileReport}
    (h : (u.analyze settings).outcome = .ok rs) :
    ∃ t, u.tables = .ok t ∧ (slotsOf u.results.items).mapM (t.reportOf settings) = .ok rs := by
  unfold analyze at h
  rw [Trace.outcome_bind] at h
  obtain ⟨a, ha, h⟩ := Except.bind_eq_ok.mp h
  obtain ⟨t, ht, items, hitems, reports, hreports, hrs⟩ := analyzeArtifact_eq_ok.mp h
  refine ⟨t, Except.bind_eq_ok.mpr ⟨a, ha, ht⟩, ?_⟩
  rw [Json.items_of_elements hitems]
  exact Tables.normalizeAll_eq_reportOf hreports hrs

/-- A unit. -/
theorem countP_add_dropped (hpq : Reflects p q) {u : AnalysisUnit} {rs : List FileReport}
    (h : (u.analyze settings).outcome = .ok rs) :
    (rs.flatMap FileReport.messages).countP q + (u.dropped settings).countP p = u.findings.countP p := by
  obtain ⟨t, ht, hrs⟩ := reportOf_of_analyze h
  have hdropped : u.dropped settings
      = (slotsOf u.results.items).flatMap fun s => s.findings.filter (t.drops settings s) := by
    unfold dropped
    rw [ht]
  rw [hdropped, Tables.countP_add_dropped_slots hpq hrs, (perm_flatMap_findings u.results.items).countP_eq]
  rfl

/-- **The dropped findings of a unit** are as many as the suppressions noted. -/
theorem length_dropped {u : AnalysisUnit} (h : u.isAnalysed settings = true) :
    (u.dropped settings).length = suppressions (u.analyze settings).notes := by
  unfold isAnalysed at h
  cases hrs : (u.analyze settings).outcome with
  | error e =>
    rw [hrs] at h
    cases h
  | ok rs =>
    have hcount := countP_add_dropped reflects_true hrs
    have hnoted := length_add_suppressions_analyze hrs
    rw [List.countP_true, List.countP_true] at hcount
    omega

end AnalysisUnit

/-- A batch. -/
theorem countP_add_dropped_run (hpq : Reflects p q) {units : List AnalysisUnit}
    {outcomes : List UnitOutcome}
    (h : List.Forall₂ (fun u o => (AnalysisUnit.run settings u).outcome = .ok o) units outcomes) :
    ((outcomes.flatMap UnitOutcome.fileReports).flatMap FileReport.messages).countP q
        + ((units.filter (·.isAnalysed settings)).flatMap (·.dropped settings)).countP p
      = ((units.filter (·.isAnalysed settings)).flatMap (·.findings)).countP p := by
  have hunits := countP_add_run (fun u => (u.dropped settings).countP p) (fun u => u.findings.countP p)
    (fun u rs hrs => AnalysisUnit.countP_add_dropped hpq hrs) h
  have hsum (f : AnalysisUnit → List (Json × Json)) :
      ((units.filter (·.isAnalysed settings)).flatMap f).countP p
        = ((units.filter (·.isAnalysed settings)).map fun u => (f u).countP p).sum :=
    List.countP_flatMap
  rw [hsum, hsum]
  exact hunits

end Counting

/-! ### The messages of a batch -/

/-- The messages of the outcomes of a batch are made of findings of its units. -/
theorem exists_messageAt_of_mem_outcomes {units : List AnalysisUnit} {outcomes : List UnitOutcome}
    (h : List.Forall₂ (fun u o => (AnalysisUnit.run settings u).outcome = .ok o) units outcomes) {m : Message}
    (hm : m ∈ (outcomes.flatMap UnitOutcome.fileReports).flatMap FileReport.messages) :
    ∃ u ∈ units, ∃ finding ∈ u.findings, ∃ f place, Finding.ofIssue finding.1 finding.2 = .ok f ∧
      Tables.messageAt settings f false place = .ok m := by
  obtain ⟨r, hr, hm⟩ := List.mem_flatMap.mp hm
  obtain ⟨o, ho, hr⟩ := List.mem_flatMap.mp hr
  obtain ⟨u, hu, hrun⟩ := List.exists_of_mem_forall₂ h ho
  rcases AnalysisUnit.fileReports_of_run hrun with ⟨-, hreports⟩ | ⟨-, hnone⟩
  · obtain ⟨t, -, hrs⟩ := AnalysisUnit.reportOf_of_analyze hreports
    obtain ⟨s, hs, hreport⟩ := List.exists_of_mem_forall₂ (List.mapM_eq_ok.mp hrs) hr
    obtain ⟨made, hmade, rfl⟩ := Tables.exists_made_of_reportOf hreport
    obtain ⟨message, hmessage, hsome⟩ := List.mem_filterMap.mp hm
    obtain rfl : message = some m := hsome
    obtain ⟨finding, hfinding, hmessage⟩ := List.exists_of_mem_forall₂ hmade hmessage
    obtain ⟨f, place, hf, hmsg⟩ := Tables.exists_messageAt_of_made hmessage
    have hshared : finding ∈ u.findings := (perm_flatMap_findings u.results.items).mem_iff.mp
      (List.mem_flatMap.mpr ⟨s, hs, hfinding⟩)
    exact ⟨u, hu, finding, hshared, f, place, hf, hmsg⟩
  · rw [hnone] at hr
    exact absurd hr List.not_mem_nil

/-- **A message of a finding** is flagged exactly if its severity is two, which it is exactly if the scanner called
the finding high. -/
theorem fatal_iff_of_messageAt {f : Finding} {place : Resolution} {m : Message}
    (h : Tables.messageAt settings f false place = .ok m) :
    (m.fatal = true ↔ m.severity = 2) ∧ (m.severity = 2 ↔ m.mythxSeverity = .str "High") := by
  obtain ⟨hlabel, hseverity, hfatal⟩ := Tables.messageAt_severity h
  constructor
  · rw [hfatal]
    exact beq_iff_eq
  · rw [hlabel, hseverity, ← Json.isText_iff]
    split
    next hhigh => exact iff_of_true rfl hhigh
    next hother => exact iff_of_false (by omega) hother

/-! ### The number of errors -/

/-- The number that a value is, zero where it is none. -/
def Json.asInt : Json → Int
  | .int n => n
  | _ => 0

/-- The number of errors of a batch is the sum of those written with its reports. -/
theorem BatchResult.errorCount_eq_sum_written (b : BatchResult) :
    (b.errorCount : Int) = (b.toJson.items.map fun r => (r.fieldOr "errorCount" .null).asInt).sum := by
  have hsum : b.errorCount = (b.reports.map FileReport.errorCount).sum := by
    rw [errorCount_eq, List.countP_flatMap]
    rfl
  have hitems : b.toJson.items = b.reports.map FileReport.toJson := rfl
  calc (b.errorCount : Int)
      = (b.reports.map fun r => (r.errorCount : Int)).sum := by
        rw [hsum, Nat.cast_list_sum, List.map_map]
        rfl
    _ = (b.toJson.items.map fun r => (r.fieldOr "errorCount" .null).asInt).sum := by
        rw [hitems, List.map_map]
        rfl

/-- **The errors of a batch are its findings of high severity** that are not dropped, of the units that do not
fail. -/
theorem errorCount_add_dropped {units : List AnalysisUnit} {b : BatchResult}
    (h : (analyzeBatch settings units).outcome = .ok b) :
    b.errorCount + ((units.filter (·.isAnalysed settings)).flatMap (·.dropped settings)).countP isHigh
        = ((units.filter (·.isAnalysed settings)).flatMap (·.findings)).countP isHigh ∧
      (b.errorCount : Int) = (b.toJson.items.map fun r => (r.fieldOr "errorCount" .null).asInt).sum ∧
      (∀ u ∈ units.filter (·.isAnalysed settings),
        (u.dropped settings).length = suppressions (u.analyze settings).notes) ∧
      ∀ r ∈ b.reports, r.errorCount + r.warningCount = r.messages.length ∧
        ∀ m ∈ r.messages, (m.fatal = true ↔ m.severity = 2) ∧
          (m.severity = 2 ↔ m.mythxSeverity = .str "High") := by
  unfold analyzeBatch at h
  rw [Trace.outcome_bind] at h
  obtain ⟨outcomes, houtcomes, h⟩ := Except.bind_eq_ok.mp h
  rw [Trace.outcome_bind] at h
  obtain ⟨reports, hreports, h⟩ := Except.bind_eq_ok.mp h
  obtain rfl := Except.ok.inj h
  rw [Trace.outcome_mapM, List.mapM_eq_ok] at houtcomes
  -- merging moves the messages, but it is still the same ones
  have hmessages := FileReport.flatMap_messages_groupByBasename hreports
  refine ⟨?_, BatchResult.errorCount_eq_sum_written _, ?_, ?_⟩
  · rw [BatchResult.errorCount_eq, hmessages.countP_eq]
    exact countP_add_dropped_run reflects_isHigh houtcomes
  · intro u hu
    exact AnalysisUnit.length_dropped (List.mem_filter.mp hu).2
  · intro r hr
    refine ⟨r.errorCount_add_warningCount, ?_⟩
    intro m hm
    obtain ⟨-, -, -, -, f, place, -, hmsg⟩ := exists_messageAt_of_mem_outcomes houtcomes
      (hmessages.mem_iff.mp (List.mem_flatMap.mpr ⟨r, hr, hm⟩))
    exact fatal_iff_of_messageAt hmsg

/-- The contract with the array has two findings of high severity. One is dropped, so one error is left; the
findings of the record that cannot be read do not count. -/
theorem withUnreadable_errorCount :
    (analyzeBatch ⟨false, false⟩ withUnreadable).outcome
        = .ok ⟨withArrayReports, [⟨"B", "bytecode contains non-hex characters"⟩]⟩ ∧
      BatchResult.errorCount ⟨withArrayReports, [⟨"B", "bytecode contains non-hex characters"⟩]⟩ = 1 ∧
      ((withUnreadable.filter (·.isAnalysed ⟨false, false⟩)).flatMap (·.findings)).countP isHigh = 2 ∧
      ((withUnreadable.filter (·.isAnalysed ⟨false, false⟩)).flatMap
        (·.dropped ⟨false, false⟩)).countP isHigh = 1 := by
  have hanalysed : withUnreadable.filter (·.isAnalysed ⟨false, false⟩)
      = [⟨.artifact withArray, threePlacesResults⟩] := by
    have hfirst : AnalysisUnit.isAnalysed ⟨false, false⟩
        ⟨.artifact withArray, threePlacesResults⟩ = true := by
      rw [AnalysisUnit.isAnalysed, withArray_analyze]
      rfl
    have hsecond : AnalysisUnit.isAnalysed ⟨false, false⟩
        ⟨.record (.obj [("contractName", "B"), ("deployedBytecode", "zz")]), threePlacesResults⟩ = false := by
      rw [AnalysisUnit.isAnalysed, unreadable_analyze]
      rfl
    rw [withUnreadable, List.filter_cons_of_pos hfirst, List.filter_cons_of_neg (by rw [hsecond]; simp)]
    rfl
  have hhigh : ((withUnreadable.filter (·.isAnalysed ⟨false, false⟩)).flatMap (·.findings)).countP isHigh
      = 2 := by
    rw [hanalysed]
    cbv
  have herrors : BatchResult.errorCount
      ⟨withArrayReports, [⟨"B", "bytecode contains non-hex characters"⟩]⟩ = 1 := rfl
  obtain ⟨hcount, -⟩ := errorCount_add_dropped withUnreadable_reports
  exact ⟨withUnreadable_reports, herrors, hhigh, by omega⟩

end Pinpoint
