import Pinpoint.Proofs.Normalize.Messages
import Pinpoint.Proofs.Resolution.Pointing

/-!
# Lenient analysis has no failures of its own

Where the source map need not cover the code, findings of the right types always come to a message or a
suppression: each is resolved (`resolve_pointsTo`), the syntax tree of the source that its place belongs to
can be looked up, and its severity is a text. So the reports for any list of well-typed sources exist
(`normalizeAll_of_wellTyped`), each under the source that it is made for.
-/

namespace Pinpoint.Tables

variable {a : Artifact} {t : Tables} {settings : Settings}

/-- Whether a finding is dropped is known wherever its place is. -/
theorem isSuppressed_of_pointsTo (ht : build a = .ok t) (htyped : a.WellTyped) {f : Finding}
    {kind : Option LocationKind} {location path : String} {place : Resolution}
    (hplace : place.PointsTo (a.pointedRange? kind location (.str path))) :
    ∃ dropped, (t.isSuppressed f place (.str path)).outcome = .ok dropped := by
  cases hrange : a.pointedRange? kind location (.str path) with
  | none =>
    rw [hrange] at hplace
    obtain rfl := hplace
    exact ⟨false, rfl⟩
  | some r =>
    rw [hrange] at hplace
    obtain ⟨hstart, -, hsource⟩ := hplace
    -- the tree is looked up under a text: the range's own source, or else the report's
    have hpath : place.source.orElse (.str path) = .str (r.pathIn path) := by
      rw [hsource]
      exact orElse_source_of_pointedRange htyped hrange
    obtain ⟨tree, htree⟩ := treeFor_of_keyedByPath ht htyped.toKeyedByPath (r.pathIn path)
    have haround : ∃ around, t.arrayAround r.start place.srcLength (place.source.orElse (.str path))
        = .ok around := by
      rw [hpath, arrayAround, htree]
      cases tree with
      | none => exact ⟨_, rfl⟩
      | some root => exact ⟨_, rfl⟩
    obtain ⟨around, haround⟩ := haround
    exact ⟨around.isSome, (isSuppressed_of_arrayAround hstart haround).1⟩

/-- A finding whose severity is a text has a message at every place. -/
theorem messageAt_of_wellTyped (settings : Settings) {f : Finding} (hf : f.WellTyped) (fatal : Bool)
    (place : Resolution) : ∃ m, messageAt settings f fatal place = .ok m := by
  obtain ⟨severity, hseverity⟩ := hf.severity
  unfold messageAt severityOf
  rw [hseverity]
  exact ⟨_, rfl⟩

/-- A finding whose place is known becomes a message or is dropped. -/
theorem normalize_of_pointsTo (ht : build a = .ok t) (htyped : a.WellTyped) {f : Finding}
    (hf : f.WellTyped) {kind : Option LocationKind} {path : String} {place : Resolution}
    (hplace : (t.resolve settings.strict f kind (.str path)).outcome = .ok place)
    (hpoints : place.PointsTo (a.pointedRange? kind f.location.asText (.str path))) (fatal : Bool) :
    ∃ m, (t.normalize settings f kind (.str path) fatal).outcome = .ok m := by
  obtain ⟨dropped, hdropped⟩ := isSuppressed_of_pointsTo (f := f) ht htyped hpoints
  obtain ⟨m, hm⟩ := messageAt_of_wellTyped settings hf fatal place
  unfold normalize
  rw [Trace.outcome_bind]
  cases dropped with
  | true =>
    refine ⟨none, Except.bind_eq_ok.mpr ⟨place, hplace, ?_⟩⟩
    rw [Trace.outcome_bind]
    exact Except.bind_eq_ok.mpr ⟨true, hdropped, rfl⟩
  | false =>
    refine ⟨some m, Except.bind_eq_ok.mpr ⟨place, hplace, ?_⟩⟩
    rw [Trace.outcome_bind]
    refine Except.bind_eq_ok.mpr ⟨false, hdropped, ?_⟩
    rw [if_neg Bool.false_ne_true, Trace.outcome_bind]
    exact Except.bind_eq_ok.mpr ⟨m, hm, rfl⟩

/-- **A finding of the right types** becomes a message or is dropped. -/
theorem normalize_of_wellTyped (ht : build a = .ok t) (htyped : a.WellTyped)
    (hlenient : settings.strict = false) {f : Finding} (hf : f.WellTyped)
    (kind : Option LocationKind) (path : String) (fatal : Bool) :
    ∃ m, (t.normalize settings f kind (.str path) fatal).outcome = .ok m := by
  obtain ⟨place, hplace, hpoints⟩ := resolve_pointsTo ht htyped hf kind path
  rw [← hlenient] at hplace
  exact normalize_of_pointsTo ht htyped hf hplace hpoints fatal

/-- A source has a report if each of its findings becomes a message or is dropped. -/
theorem normalizeReport_of_forall {report : SourceReport}
    (h : ∀ f ∈ report.findings, ∃ m, (t.normalize settings f (LocationKind.ofFormat? report.format)
      report.source false).outcome = .ok m) :
    ∃ r, (t.normalizeReport settings report).outcome = .ok r ∧ r.filePath = report.source := by
  obtain ⟨messages, hmessages⟩ := List.mapM_isOk h
  refine ⟨⟨report.source, messages.filterMap id, 0, 0⟩, ?_, rfl⟩
  unfold normalizeReport
  rw [Trace.outcome_bind, noteUnsupported_outcome]
  refine Except.bind_eq_ok.mpr ⟨(), rfl, ?_⟩
  rw [Trace.outcome_bind, Trace.outcome_mapM]
  exact Except.bind_eq_ok.mpr ⟨messages, hmessages, rfl⟩

/-- **A source of the right types** has a report, under a text. -/
theorem normalizeReport_of_wellTyped (ht : build a = .ok t) (htyped : a.WellTyped)
    (hlenient : settings.strict = false) {report : SourceReport} (hreport : report.WellTyped) :
    ∃ r, (t.normalizeReport settings report).outcome = .ok r ∧ r.filePath.IsText := by
  obtain ⟨path, hpath⟩ := hreport.source
  have hall : ∀ f ∈ report.findings, ∃ m, (t.normalize settings f
      (LocationKind.ofFormat? report.format) report.source false).outcome = .ok m := by
    intro f hf
    rw [hpath]
    exact normalize_of_wellTyped ht htyped hlenient (hreport.findings f hf) _ path false
  obtain ⟨r, hr, hsource⟩ := normalizeReport_of_forall hall
  exact ⟨r, hr, hsource ▸ hreport.source⟩

/-- **Sources of the right types** have their reports. -/
theorem normalizeAll_of_wellTyped (ht : build a = .ok t) (htyped : a.WellTyped)
    (hlenient : settings.strict = false) {reports : List SourceReport}
    (hreports : ∀ report ∈ reports, report.WellTyped) :
    ∃ rs, (t.normalizeAll settings reports).outcome = .ok rs ∧ ∀ r ∈ rs, r.filePath.IsText := by
  rw [normalizeAll, Trace.outcome_mapM]
  exact List.mapM_ok_of_forall fun report hreport =>
    normalizeReport_of_wellTyped ht htyped hlenient (hreports report hreport)

end Pinpoint.Tables
