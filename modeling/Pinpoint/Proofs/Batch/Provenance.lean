import Pinpoint.Proofs.Batch.ErrorCount
import Pinpoint.Proofs.Json.Objects
import Pinpoint.Proofs.Report.Contents

/-!
# What a document takes over from the results

A message is written with the identifier, the description and the severity that its issue has, whatever values
these are. So what can be said of every object in the results of the units can be said of what their document
takes over from them, and all other objects in it are made by the program. In particular no object in a document
has two fields of one name, if this is so in the results (`distinctNames_toJson`).
-/

namespace Pinpoint

/-! ### Parts of a value -/

namespace Json

variable {p : Fields → Prop} {j other : Json}

theorem Everywhere.orElse (h : j.Everywhere p) (hother : other.Everywhere p) :
    (j.orElse other).Everywhere p := by
  unfold Json.orElse
  split
  · exact hother
  · exact h

/-- What a field holds is in the object, or it is the default. -/
theorem Everywhere.getD {name : String} {default value : Json} (h : j.Everywhere p)
    (hdefault : default.Everywhere p) (hvalue : j.getD name default = .ok value) : value.Everywhere p := by
  obtain ⟨given, hgiven, rfl⟩ := Except.map_eq_ok.mp hvalue
  unfold Json.get? at hgiven
  split at hgiven
  next fields =>
    obtain rfl := Except.ok.inj hgiven
    cases hfield : Fields.get? fields name with
    | none => exact hdefault
    | some held => exact h.get? hfield
  next => cases hgiven

theorem Everywhere.fieldOr {name : String} {default : Json} (h : j.Everywhere p)
    (hdefault : default.Everywhere p) : (j.fieldOr name default).Everywhere p := by
  unfold Json.fieldOr
  cases hvalue : j.getD name default with
  | error e => exact hdefault
  | ok value => exact h.getD hdefault hvalue

/-- The elements of a value are in it, or they are texts. -/
theorem Everywhere.elements {items : List Json} (h : j.Everywhere p) (hitems : j.elements = .ok items) :
    ∀ item ∈ items, item.Everywhere p := by
  intro item hitem
  unfold Json.elements at hitems
  split at hitems
  next s =>
    obtain rfl := Except.ok.inj hitems
    obtain ⟨c, -, rfl⟩ := List.mem_map.mp hitem
    trivial
  next =>
    obtain rfl := Except.ok.inj hitems
    exact everywhere_arr.mp h item hitem
  next fields =>
    obtain rfl := Except.ok.inj hitems
    obtain ⟨f, -, rfl⟩ := List.mem_map.mp hitem
    trivial
  next => cases hitems

theorem Everywhere.items (h : j.Everywhere p) : ∀ item ∈ j.items, item.Everywhere p := by
  intro item hitem
  unfold Json.items at hitem
  cases hitems : j.elements with
  | error e =>
    rw [hitems] at hitem
    exact absurd hitem List.not_mem_nil
  | ok items =>
    rw [hitems] at hitem
    exact h.elements hitems item hitem

end Json

open Json

/-! ### From issues to messages -/

/-- The issue of a finding is one of the issues of its result. -/
theorem everywhere_of_mem_findingsOf {p : Fields → Prop} {result : Json} (h : result.Everywhere p)
    {finding : Json × Json} (hfinding : finding ∈ findingsOf result) : finding.1.Everywhere p := by
  obtain ⟨issue, hissue, hfinding⟩ := List.mem_flatMap.mp hfinding
  obtain ⟨location, -, rfl⟩ := List.mem_map.mp hfinding
  have hissues : (result.fieldOr "issues" .null).Everywhere p := h.fieldOr trivial
  exact hissues.items issue hissue

/-- The values that a message takes over have no two fields of one name in one object. -/
structure Message.TakesDistinct (m : Message) : Prop where
  ruleId : m.ruleId.Everywhere DistinctNames
  message : m.message.Everywhere DistinctNames
  severity : m.mythxSeverity.Everywhere DistinctNames

/-- **A message takes over** what its issue has. -/
theorem takesDistinct_of_messageAt {settings : Settings} {issue location : Json} {f : Finding} {fatal : Bool}
    {place : Resolution} {m : Message} (hissue : issue.Everywhere DistinctNames)
    (hf : Finding.ofIssue issue location = .ok f)
    (hm : Tables.messageAt settings f fatal place = .ok m) : m.TakesDistinct := by
  obtain ⟨given, hgiven, hf⟩ := Except.bind_eq_ok.mp hf
  obtain ⟨severity, hseverity, hf⟩ := Except.bind_eq_ok.mp hf
  obtain ⟨otherId, hother, hf⟩ := Except.bind_eq_ok.mp hf
  obtain ⟨swcId, hswcId, hf⟩ := Except.bind_eq_ok.mp hf
  obtain ⟨head, hhead, hf⟩ := Except.bind_eq_ok.mp hf
  obtain ⟨tail, -, hf⟩ := Except.bind_eq_ok.mp hf
  obtain ⟨title, -, hf⟩ := Except.bind_eq_ok.mp hf
  obtain rfl := Except.pure_eq_ok.mp hf
  obtain ⟨level, -, hm⟩ := Except.bind_eq_ok.mp hm
  obtain rfl := Except.pure_eq_ok.mp hm
  -- what stands in the place of a field that is absent has no objects with fields in it
  have htext : (Json.str "").Everywhere DistinctNames := trivial
  have hnull : Json.null.Everywhere DistinctNames := trivial
  have hnone : (Json.obj []).Everywhere DistinctNames :=
    everywhere_obj.mpr ⟨List.nodup_nil, fun f hf => absurd hf List.not_mem_nil⟩
  have hdescription : (given.orElse (.obj [])).Everywhere DistinctNames :=
    (hissue.getD hnull hgiven).orElse hnone
  refine ⟨hissue.getD (hissue.getD htext hother) hswcId, ?_, hissue.getD htext hseverity⟩
  show (Finding.messageText _ settings.spaceLimited).Everywhere DistinctNames
  unfold Finding.messageText
  split
  · exact hdescription.getD htext hhead
  · trivial

/-! ### Documents -/

/-- A message is written as an object with fields of its own, which hold numbers and what was taken over. -/
theorem Message.TakesDistinct.toJson {m : Message} (h : m.TakesDistinct) :
    m.toJson.Everywhere DistinctNames := by
  have hint (n : Int) : (Json.int n).Everywhere DistinctNames := trivial
  have hfatal : (Json.bool m.fatal).Everywhere DistinctNames := trivial
  unfold Message.toJson
  rw [everywhere_obj]
  cases m.stop with
  | none =>
    have hnames : ["ruleId", "message", "severity", "mythXseverity", "fatal", "line", "column"].Nodup := by
      decide +kernel
    refine ⟨hnames, ?_⟩
    simp only [List.append_nil, List.forall_mem_cons, hint, hfatal, h.ruleId, h.message, h.severity,
      true_and]
    exact fun f hf => absurd hf List.not_mem_nil
  | some stop =>
    have hnames : ["ruleId", "message", "severity", "mythXseverity", "fatal", "line", "column", "endLine",
        "endCol"].Nodup := by
      decide +kernel
    refine ⟨hnames, ?_⟩
    simp only [List.cons_append, List.nil_append, List.forall_mem_cons, hint, hfatal, h.ruleId, h.message,
      h.severity, true_and]
    exact fun f hf => absurd hf List.not_mem_nil

/-- A report is written as an object with fields of its own, which hold its path, numbers and its messages. -/
theorem FileReport.everywhere_toJson {r : FileReport} (hpath : r.basename? ≠ none)
    (hmessages : ∀ m ∈ r.messages, m.TakesDistinct) : r.toJson.Everywhere DistinctNames := by
  obtain ⟨path, hpath⟩ := exists_path_of_basename? hpath
  have htext : r.filePath.Everywhere DistinctNames := by
    rw [hpath]
    trivial
  have hint (n : Int) : (Json.int n).Everywhere DistinctNames := trivial
  have hall : (Json.arr (r.messages.map Message.toJson)).Everywhere DistinctNames := by
    rw [everywhere_arr, List.forall_mem_map]
    exact fun m hm => (hmessages m hm).toJson
  have hnames : ["filePath", "errorCount", "warningCount", "fixableErrorCount", "fixableWarningCount",
      "messages"].Nodup := by
    decide +kernel
  unfold FileReport.toJson
  rw [everywhere_obj]
  refine ⟨hnames, ?_⟩
  simp only [List.forall_mem_cons, htext, hint, hall, true_and]
  exact fun f hf => absurd hf List.not_mem_nil

/-- **No object in a document** has two fields of one name, if none has in the results. -/
theorem distinctNames_toJson {settings : Settings} {units : List AnalysisUnit} {b : BatchResult}
    (hresults : ∀ u ∈ units, u.results.Everywhere DistinctNames)
    (h : (analyzeBatch settings units).outcome = .ok b) : b.toJson.Everywhere DistinctNames := by
  unfold analyzeBatch at h
  rw [Trace.outcome_bind] at h
  obtain ⟨outcomes, houtcomes, h⟩ := Except.bind_eq_ok.mp h
  rw [Trace.outcome_bind] at h
  obtain ⟨reports, hreports, h⟩ := Except.bind_eq_ok.mp h
  obtain rfl := Except.ok.inj h
  rw [Trace.outcome_mapM, List.mapM_eq_ok] at houtcomes
  obtain ⟨_, _, hfiles⟩ := FileReport.groupByBasename_perm (.refl _) hreports
  unfold BatchResult.toJson
  rw [everywhere_arr, List.forall_mem_map]
  intro r hr
  apply FileReport.everywhere_toJson (hfiles.named r hr)
  intro m hm
  -- merging moves a message, but it is still one that was made of a finding
  have houtcome := (FileReport.flatMap_messages_groupByBasename hreports).mem_iff.mp
    (List.mem_flatMap.mpr ⟨r, hr, hm⟩)
  obtain ⟨u, hu, finding, hfinding, f, place, hf, hmessage⟩ :=
    exists_messageAt_of_mem_outcomes houtcomes houtcome
  have hunit : ∀ result ∈ u.results.items, result.Everywhere DistinctNames := (hresults u hu).items
  obtain ⟨result, hresult, hfinding⟩ := List.mem_flatMap.mp hfinding
  exact takesDistinct_of_messageAt (everywhere_of_mem_findingsOf (hunit result hresult) hfinding) hf hmessage

end Pinpoint
