import Pinpoint.Finding.Attribution
import Pinpoint.Proofs.Trace

/-!
# The findings of a scanner result, source by source

What a result holds, read off without failing: its sources (`sourcesOf`), and its findings, each an issue
with one of its locations, or with an empty one if it has none (`findingsOf`). A result that can be read at
all has just these sources and findings (`resultSources_eq_ok`, `resultFindings_eq_ok`).

The findings are sorted into one bucket for each source. Bucket `k` holds, in their order, the findings
whose number is `k` (`sortIntoBuckets_eq`), so the reports made of a list of results have the findings of
their sources (`ofResults_eq_ok`). Every number is that of a source (`sourceIndex_lt`), so the findings of
all sources are all findings, in another order (`perm_flatMap_findings`).
-/

namespace Pinpoint

/-! ### What a value holds -/

namespace Json

/-- The value of a field, or a default where there is none. -/
def fieldOr (j : Json) (name : String) (default : Json) : Json :=
  (j.getD name default).toOption.getD default

/-- The elements of a value, none where it cannot have any. -/
def items (j : Json) : List Json :=
  j.elements.toOption.getD []

/-- The text that a value is, empty where it is none. -/
def asText (j : Json) : String :=
  j.text.toOption.getD ""

/-- The value is null. -/
def isNull : Json → Bool
  | .null => true
  | _ => false

theorem fieldOr_of_getD {j default value : Json} {name : String}
    (h : j.getD name default = .ok value) : j.fieldOr name default = value := by
  rw [fieldOr, h]
  rfl

theorem items_of_elements {j : Json} {xs : List Json} (h : j.elements = .ok xs) : j.items = xs := by
  rw [items, h]
  rfl

theorem asText_of_text {j : Json} {s : String} (h : j.text = .ok s) : j.asText = s := by
  rw [asText, h]
  rfl

theorem map_fieldOr_of_mapM {js values : List Json} {name : String}
    (h : js.mapM (·.get name) = .ok values) : js.map (·.fieldOr name .null) = values := by
  rw [List.mapM_eq_ok] at h
  induction h with
  | nil => rfl
  | cons hx _ ih => rw [List.map_cons, fieldOr_of_getD hx, ih]

/-- A value that gives nothing has no elements, and may stand for an empty list. -/
theorem items_of_orElse {j : Json} {xs : List Json} (h : (j.orElse (.arr [])).elements = .ok xs) :
    j.items = xs := by
  unfold orElse at h
  split at h
  next hbare =>
    obtain rfl := Except.ok.inj h
    cases j <;> simp_all [isBare, items, elements, Except.toOption]
  next => exact items_of_elements h

end Json

/-! ### What a result holds -/

/-- The sources of a result: those listed, or else the one that it is about. -/
def sourcesOf (result : Json) : List Json :=
  let listed := (result.fieldOr "sourceList" .null).items
  if listed.isEmpty then [result.fieldOr "source" (.str "")] else listed

/-- The locations of an issue that are not null. -/
def locationsOf (issue : Json) : List Json :=
  ((issue.fieldOr "locations" .null).items.map fun l => l.fieldOr "sourceMap" .null).filter
    fun location => !location.isNull

/-- **The findings of a result:** each of its issues with each of its locations, or with an empty location
if it has none. -/
def findingsOf (result : Json) : List (Json × Json) :=
  (result.fieldOr "issues" .null).items.flatMap fun issue =>
    (if (locationsOf issue).isEmpty then [.str ""] else locationsOf issue).map fun location =>
      (issue, location)

/-- The number of the source that a finding belongs to, of `count` sources. -/
def sourceNumber (count : Nat) (finding : Json × Json) : Nat :=
  sourceIndex finding.2.asText count

/-- A finding as it was read, with the number of its source. -/
def ReadAs (count : Nat) (finding : Json × Json) (f : Nat × Finding) : Prop :=
  sourceNumber count finding = f.1 ∧ Finding.ofIssue finding.1 finding.2 = .ok f.2

theorem resultSources_eq_ok {result : Json} {sources : List Json}
    (h : resultSources result = .ok sources) : sourcesOf result = sources := by
  obtain ⟨listed, hlisted, h⟩ := Except.bind_eq_ok.mp h
  obtain ⟨items, hitems, h⟩ := Except.bind_eq_ok.mp h
  rw [sourcesOf, Json.fieldOr_of_getD hlisted, Json.items_of_orElse hitems]
  split at h
  next hempty =>
    obtain ⟨source, hsource, h⟩ := Except.bind_eq_ok.mp h
    obtain rfl := Except.pure_eq_ok.mp h
    rw [if_pos hempty, Json.fieldOr_of_getD hsource]
  next hfull =>
    obtain rfl := Except.pure_eq_ok.mp h
    rw [if_neg hfull]

/-- A finding has the location and the severity that it is made of. -/
theorem Finding.ofIssue_eq_ok {issue location : Json} {f : Finding}
    (h : Finding.ofIssue issue location = .ok f) :
    f.location = location ∧ f.severity = issue.fieldOr "severity" (.str "") := by
  obtain ⟨given, -, h⟩ := Except.bind_eq_ok.mp h
  obtain ⟨severity, hseverity, h⟩ := Except.bind_eq_ok.mp h
  obtain ⟨otherId, -, h⟩ := Except.bind_eq_ok.mp h
  obtain ⟨swcId, -, h⟩ := Except.bind_eq_ok.mp h
  obtain ⟨head, -, h⟩ := Except.bind_eq_ok.mp h
  obtain ⟨tail, -, h⟩ := Except.bind_eq_ok.mp h
  obtain ⟨title, -, h⟩ := Except.bind_eq_ok.mp h
  obtain rfl := Except.pure_eq_ok.mp h
  exact ⟨rfl, (Json.fieldOr_of_getD hseverity).symm⟩

/-- There is always a source. -/
theorem sourcesOf_length_pos (result : Json) : 0 < (sourcesOf result).length := by
  unfold sourcesOf
  dsimp only
  split
  next => exact Nat.one_pos
  next h => exact List.length_pos_iff.mpr fun hnil => h (List.isEmpty_iff.mpr hnil)

theorem issueLocations_eq_ok {issue : Json} {locations : List Json}
    (h : issueLocations issue = .ok locations) : locationsOf issue = locations := by
  obtain ⟨listed, hlisted, h⟩ := Except.bind_eq_ok.mp h
  obtain ⟨items, hitems, h⟩ := Except.bind_eq_ok.mp h
  obtain ⟨texts, htexts, h⟩ := Except.bind_eq_ok.mp h
  obtain rfl := Except.pure_eq_ok.mp h
  rw [locationsOf, Json.fieldOr_of_getD hlisted, Json.items_of_orElse hitems,
    Json.map_fieldOr_of_mapM htexts]
  refine List.filter_congr fun t _ => ?_
  -- null is the only value that is left out on either side
  cases t <;> rfl

/-- Every number is that of a source. -/
theorem sourceIndex_lt {count : Nat} (hcount : 0 < count) (location : String) :
    sourceIndex location count < count := by
  unfold sourceIndex
  split
  · split
    · omega
    · exact hcount
  · exact hcount

/-- **The findings that are read** are those that the result holds. -/
theorem resultFindings_eq_ok {result : Json} {count : Nat} {fs : List (Nat × Finding)}
    (h : resultFindings result count = .ok fs) :
    List.Forall₂ (ReadAs count) (findingsOf result) fs := by
  obtain ⟨listed, hlisted, h⟩ := Except.bind_eq_ok.mp h
  obtain ⟨issues, hissues, h⟩ := Except.bind_eq_ok.mp h
  obtain ⟨findings, hfindings, h⟩ := Except.bind_eq_ok.mp h
  obtain rfl := Except.pure_eq_ok.mp h
  rw [findingsOf, Json.fieldOr_of_getD hlisted, Json.items_of_orElse hissues, List.flatMap_def]
  -- issue by issue, and for each issue location by location
  refine List.rel_flatten (List.forall₂_map_left_iff.mpr ?_)
  refine (List.mapM_eq_ok.mp hfindings).imp fun issue fs hissue => ?_
  obtain ⟨locations, hlocations, hissue⟩ := Except.bind_eq_ok.mp hissue
  rw [issueLocations_eq_ok hlocations, List.forall₂_map_left_iff]
  refine (List.mapM_eq_ok.mp hissue).imp fun location f hf => ?_
  obtain ⟨text, htext, hf⟩ := Except.bind_eq_ok.mp hf
  obtain ⟨finding, hfinding, hf⟩ := Except.bind_eq_ok.mp hf
  obtain rfl := Except.pure_eq_ok.mp hf
  exact ⟨by rw [sourceNumber, Json.asText_of_text htext], hfinding⟩

/-! ### Buckets -/

/-- Sorting adds to bucket `k` the findings with number `k`. -/
theorem getElem?_foldl_putInBucket (fs : List (Nat × Finding)) (buckets : List (List Finding))
    (k : Nat) : (fs.foldl putInBucket buckets)[k]?
      = buckets[k]?.map fun bucket => bucket ++ (fs.filter (·.1 = k)).map (·.2) := by
  induction fs generalizing buckets with
  | nil => simp
  | cons f fs ih =>
    rw [List.foldl_cons, ih, putInBucket, List.getElem?_modify, List.filter_cons]
    -- the head goes to the end of its own bucket, before all that come after it
    by_cases hk : f.1 = k
    · simp [hk, Function.comp_def]
    · simp [hk]

/-- **Bucket `k` holds the findings with number `k`,** in their order. -/
theorem sortIntoBuckets_eq (count : Nat) (fs : List (Nat × Finding)) :
    sortIntoBuckets count fs
      = (List.range count).map fun k => (fs.filter (·.1 = k)).map (·.2) := by
  refine List.ext_getElem? fun k => ?_
  rw [sortIntoBuckets, getElem?_foldl_putInBucket, List.getElem?_replicate, List.getElem?_map]
  by_cases hk : k < count
  · rw [if_pos hk, List.getElem?_range hk]
    rfl
  · rw [if_neg hk, List.getElem?_eq_none (by rw [List.length_range]; omega)]
    rfl

/-! ### The reports of a result -/

namespace SourceReport

/-- **The reports of a result:** one for each of its sources, in their order, with the findings of that
source. -/
theorem ofResult_eq_ok {result : Json} {reports : List SourceReport}
    (h : ofResult result = .ok reports) :
    ∃ fs, List.Forall₂ (ReadAs (sourcesOf result).length) (findingsOf result) fs ∧
      reports = (sourcesOf result).zipIdx.map fun s =>
        ⟨s.1, result.fieldOr "sourceFormat" (.str ""), result.fieldOr "sourceType" (.str ""),
          (fs.filter (·.1 = s.2)).map (·.2)⟩ := by
  obtain ⟨sources, hsources, h⟩ := Except.bind_eq_ok.mp h
  obtain ⟨fs, hfs, h⟩ := Except.bind_eq_ok.mp h
  obtain ⟨format, hformat, h⟩ := Except.bind_eq_ok.mp h
  obtain ⟨sourceType, htype, h⟩ := Except.bind_eq_ok.mp h
  obtain rfl := Except.pure_eq_ok.mp h
  rw [resultSources_eq_ok hsources, Json.fieldOr_of_getD hformat, Json.fieldOr_of_getD htype]
  refine ⟨fs, resultFindings_eq_ok hfs, ?_⟩
  rw [sortIntoBuckets_eq]
  -- Source `k` and bucket `k` are paired, and both run out at the same place.
  refine List.ext_getElem? fun k => ?_
  rw [List.getElem?_zipWith, List.getElem?_map, List.getElem?_map, List.getElem?_zipIdx]
  by_cases hk : k < sources.length
  · simp [List.getElem?_range hk, List.getElem?_eq_getElem hk]
  · simp [List.getElem?_eq_none (Nat.le_of_not_lt hk)]

end SourceReport

/-! ### The sources of all results -/

/-- A source of a result, with its number there. -/
structure SourceSlot where
  result : Json
  source : Json
  number : Nat

/-- The sources of each of the results, in their order. -/
def slotsOf (results : List Json) : List SourceSlot :=
  results.flatMap fun result => (sourcesOf result).zipIdx.map fun s => ⟨result, s.1, s.2⟩

namespace SourceSlot

/-- **The findings of a source:** those of its result that have its number. -/
def findings (s : SourceSlot) : List (Json × Json) :=
  (findingsOf s.result).filter fun f => sourceNumber (sourcesOf s.result).length f = s.number

/-- The format of the locations. -/
def format (s : SourceSlot) : Json := s.result.fieldOr "sourceFormat" (.str "")

/-- The report that is made of a source has its findings. -/
structure ReportedAs (s : SourceSlot) (r : SourceReport) : Prop where
  source : r.source = s.source
  format : r.format = s.format
  findings : List.Forall₂ (fun finding f => Finding.ofIssue finding.1 finding.2 = .ok f)
    s.findings r.findings

end SourceSlot

/-- Of the findings that were read, those with number `k` are the findings with that number. -/
theorem forall₂_filter_readAs {count : Nat} {findings : List (Json × Json)}
    {fs : List (Nat × Finding)} (h : List.Forall₂ (ReadAs count) findings fs) (k : Nat) :
    List.Forall₂ (fun finding f => Finding.ofIssue finding.1 finding.2 = .ok f)
      (findings.filter fun f => sourceNumber count f = k) ((fs.filter (·.1 = k)).map (·.2)) := by
  induction h with
  | nil => exact .nil
  | @cons finding f findings fs hread _ ih =>
    rw [List.filter_cons, List.filter_cons, hread.1]
    split
    · exact .cons hread.2 ih
    · exact ih

/-- The reports of a result are those of its sources. -/
theorem SourceReport.reportedAs_ofResult {result : Json} {reports : List SourceReport}
    (h : ofResult result = .ok reports) :
    List.Forall₂ (fun s report => SourceSlot.ReportedAs ⟨result, s.1, s.2⟩ report)
      (sourcesOf result).zipIdx reports := by
  obtain ⟨fs, hfs, rfl⟩ := ofResult_eq_ok h
  rw [List.forall₂_map_right_iff, List.forall₂_same]
  intro s _
  exact ⟨rfl, rfl, forall₂_filter_readAs hfs s.2⟩

/-- **The reports of a response** are those of the sources of its results. -/
theorem SourceReport.ofResults_eq_ok {results : List Json} {reports : List SourceReport}
    (h : ofResults results = .ok reports) :
    List.Forall₂ SourceSlot.ReportedAs (slotsOf results) reports := by
  obtain ⟨parts, hparts, h⟩ := Except.bind_eq_ok.mp h
  obtain rfl := Except.pure_eq_ok.mp h
  rw [slotsOf, List.flatMap_def]
  refine List.rel_flatten (List.forall₂_map_left_iff.mpr ?_)
  refine (List.mapM_eq_ok.mp hparts).imp fun result part hresult => ?_
  rw [List.forall₂_map_left_iff]
  exact reportedAs_ofResult hresult

/-! ### Every finding belongs to one source -/

/-- Sorting a list by numbers moves the elements whose number is below `count`, and neither adds nor drops one. -/
theorem perm_flatMap_filter {α : Type} (number : α → Nat) (count : Nat) (xs : List α) :
    List.Perm ((List.range count).flatMap fun k => xs.filter (number · = k))
      (xs.filter (number · < count)) := by
  induction count with
  | zero => exact .of_eq (List.filter_eq_nil_iff.mpr (by simp)).symm
  | succ count ih =>
    -- what is below the next number is below this one, or has it
    have hbelow : xs.filter (number · < count)
        = (xs.filter (number · < count + 1)).filter (number · < count) := by
      rw [List.filter_filter]
      refine List.filter_congr fun x _ => ?_
      rw [Bool.eq_iff_iff, Bool.and_eq_true, decide_eq_true_iff, decide_eq_true_iff]
      omega
    have hlast : xs.filter (number · = count)
        = (xs.filter (number · < count + 1)).filter (fun x => !decide (number x < count)) := by
      rw [List.filter_filter]
      refine List.filter_congr fun x _ => ?_
      rw [Bool.eq_iff_iff, Bool.and_eq_true, Bool.not_eq_true', decide_eq_false_iff_not,
        decide_eq_true_iff, decide_eq_true_iff]
      omega
    rw [List.range_succ, List.flatMap_append, List.flatMap_singleton]
    calc List.Perm _ (xs.filter (number · < count) ++ xs.filter (number · = count)) :=
          ih.append_right _
      List.Perm _ (xs.filter (number · < count + 1)) := by
          rw [hbelow, hlast]
          exact List.filter_append_perm _ _

/-- The findings of the sources of a result are those of the result. -/
theorem perm_flatMap_findings_sources (result : Json) :
    List.Perm ((sourcesOf result).zipIdx.flatMap fun s => SourceSlot.findings ⟨result, s.1, s.2⟩)
      (findingsOf result) := by
  have hnumbered : ((sourcesOf result).zipIdx.flatMap fun s => SourceSlot.findings ⟨result, s.1, s.2⟩)
      = (List.range (sourcesOf result).length).flatMap fun k =>
          (findingsOf result).filter (sourceNumber (sourcesOf result).length · = k) := by
    rw [List.range_eq_range', ← List.zipIdx_map_snd 0, List.flatMap_map]
    rfl
  -- every finding has the number of a source
  have hall : (findingsOf result).filter
      (sourceNumber (sourcesOf result).length · < (sourcesOf result).length) = findingsOf result := by
    refine List.filter_eq_self.mpr fun finding _ => decide_eq_true ?_
    exact sourceIndex_lt (sourcesOf_length_pos result) finding.2.asText
  have hsorted := perm_flatMap_filter (sourceNumber (sourcesOf result).length) (sourcesOf result).length
    (findingsOf result)
  rw [hnumbered]
  exact hsorted.trans (.of_eq hall)

/-- **No finding is lost or doubled** when the findings are shared out among the sources. -/
theorem perm_flatMap_findings (results : List Json) :
    List.Perm ((slotsOf results).flatMap SourceSlot.findings) (results.flatMap findingsOf) := by
  rw [slotsOf, List.flatMap_assoc]
  refine List.Perm.flatMap_left results fun result _ => ?_
  rw [List.flatMap_map]
  exact perm_flatMap_findings_sources result

/-- The reports of all results have all of their findings. -/
theorem SourceReport.sum_length_findings_ofResults {results : List Json} {reports : List SourceReport}
    (h : ofResults results = .ok reports) :
    (reports.map fun r => r.findings.length).sum = (results.flatMap findingsOf).length := by
  have hlengths : (slotsOf results).map (fun s => s.findings.length)
      = reports.map fun r => r.findings.length := by
    rw [← List.forall₂_eq_eq_eq, List.forall₂_map_left_iff, List.forall₂_map_right_iff]
    exact (ofResults_eq_ok h).imp fun s r hs => hs.findings.length_eq
  rw [← hlengths, ← List.length_flatMap, (perm_flatMap_findings results).length_eq]

end Pinpoint
