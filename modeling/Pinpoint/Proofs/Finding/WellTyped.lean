import Pinpoint.Proofs.Finding.Partition

/-!
# Scanner results of the right types

A scanner result is read field by field, and a field of the wrong type ends the analysis. Here is what the
right types are: of a location (`Json.IsLocation`), of an issue (`Json.IsIssue`), of a result
(`Json.IsResult`). Only the fields that are looked into matter. Everything else is carried through, whatever
it holds, and a field that may be left out may be null as well.

A result of these types can be read (`SourceReport.ofResults_of_isResult`), and what is made of it has the
right types in turn: the sources of its reports are texts, and so are the locations and the severities of
their findings (`SourceReport.WellTyped`).
-/

namespace Pinpoint

/-! ### Types of values -/

namespace Json

/-- The value is a text. -/
def IsText (j : Json) : Prop := ∃ s, j = .str s

/-- The value is an object. -/
def IsObject (j : Json) : Prop := ∃ fields, j = .obj fields

/-- The value is a list of values with a property; null stands for the empty list. -/
def IsListOf (p : Json → Prop) (j : Json) : Prop :=
  j = .null ∨ ∃ items, j = .arr items ∧ ∀ item ∈ items, p item

/-- A location of an issue: its place is a text, or null. -/
structure IsLocation (location : Json) : Prop where
  object : location.IsObject
  place : location.fieldOr "sourceMap" .null = .null ∨
    (location.fieldOr "sourceMap" .null).IsText

/-- An issue of a scanner. -/
structure IsIssue (issue : Json) : Prop where
  object : issue.IsObject
  severity : (issue.fieldOr "severity" (.str "")).IsText
  description : issue.fieldOr "description" .null = .null ∨
    (issue.fieldOr "description" .null).IsObject
  locations : (issue.fieldOr "locations" .null).IsListOf IsLocation

/-- A result of a scanner. -/
structure IsResult (result : Json) : Prop where
  object : result.IsObject
  sourceList : (result.fieldOr "sourceList" .null).IsListOf IsText
  source : (result.fieldOr "source" (.str "")).IsText
  issues : (result.fieldOr "issues" .null).IsListOf IsIssue

/-- Every field of an object can be read. -/
theorem getD_of_isObject {j : Json} (h : j.IsObject) (name : String) (default : Json) :
    j.getD name default = .ok (j.fieldOr name default) := by
  obtain ⟨fields, rfl⟩ := h
  rfl

theorem get_of_isObject {j : Json} (h : j.IsObject) (name : String) :
    j.get name = .ok (j.fieldOr name .null) :=
  getD_of_isObject h name .null

/-- A list of the right type can be gone through. -/
theorem elements_of_isListOf {p : Json → Prop} {j : Json} (h : j.IsListOf p) :
    (j.orElse (.arr [])).elements = .ok j.items ∧ ∀ item ∈ j.items, p item := by
  rcases h with rfl | ⟨items, rfl, hitems⟩
  · exact ⟨rfl, fun item hitem => absurd hitem List.not_mem_nil⟩
  · refine ⟨?_, hitems⟩
    -- an empty list is replaced by an empty list
    cases items <;> rfl

end Json

/-! ### Findings and their reports -/

/-- A finding whose location and severity are texts. -/
structure Finding.WellTyped (f : Finding) : Prop where
  location : f.location.IsText
  severity : f.severity.IsText

theorem Finding.wellTyped_iff {f : Finding} :
    f.WellTyped ↔ f.location.IsText ∧ f.severity.IsText :=
  ⟨fun h => ⟨h.location, h.severity⟩, fun h => ⟨h.1, h.2⟩⟩

/-- A report whose source is a text, as are the locations and severities of its findings. -/
structure SourceReport.WellTyped (r : SourceReport) : Prop where
  source : r.source.IsText
  findings : ∀ f ∈ r.findings, f.WellTyped

/-- The locations of an issue are texts. -/
theorem issueLocations_of_isIssue {issue : Json} (h : issue.IsIssue) :
    issueLocations issue = .ok (locationsOf issue) ∧
      ∀ location ∈ locationsOf issue, location.IsText := by
  obtain ⟨helements, hlocations⟩ := Json.elements_of_isListOf h.locations
  -- a place that is not null is a text, so what is left after null is filtered out are texts
  have hplaces : ∀ l ∈ (issue.fieldOr "locations" .null).items, ∃ place,
      l.get "sourceMap" = .ok place ∧ (place = .null ∨ place.IsText) := by
    intro l hl
    have hlocation := hlocations l hl
    exact ⟨_, Json.get_of_isObject hlocation.object "sourceMap", hlocation.place⟩
  obtain ⟨places, hread, htexts⟩ := List.mapM_ok_of_forall hplaces
  have hissue : ∃ locations, issueLocations issue = .ok locations ∧
      ∀ location ∈ locations, location.IsText := by
    refine ⟨_, Except.bind_eq_ok.mpr ⟨_, Json.get_of_isObject h.object "locations",
      Except.bind_eq_ok.mpr ⟨_, helements, Except.bind_eq_ok.mpr ⟨_, hread, rfl⟩⟩⟩, ?_⟩
    intro location hlocation
    obtain ⟨hmem, hkept⟩ := List.mem_filter.mp hlocation
    rcases htexts location hmem with rfl | htext
    · cases hkept
    · exact htext
  obtain ⟨locations, hlocations, htext⟩ := hissue
  rw [issueLocations_eq_ok hlocations]
  exact ⟨hlocations, htext⟩

/-- An issue gives a finding at each of its locations. -/
theorem ofIssue_of_isIssue {issue location : Json} (h : issue.IsIssue) (hlocation : location.IsText) :
    ∃ f, Finding.ofIssue issue location = .ok f ∧ f.WellTyped := by
  have hdescription : ((issue.fieldOr "description" .null).orElse (.obj [])).IsObject := by
    rcases h.description with hnull | ⟨fields, hfields⟩
    · exact ⟨[], by rw [hnull]; rfl⟩
    · refine ⟨fields, ?_⟩
      rw [hfields]
      -- an object without fields is replaced by itself
      cases fields <;> rfl
  unfold Finding.ofIssue
  simp only [Json.get_of_isObject h.object, Json.getD_of_isObject h.object,
    Json.getD_of_isObject hdescription, bind, Except.bind, pure, Except.pure]
  exact ⟨_, rfl, hlocation, h.severity⟩

/-- The findings of an issue can be read, whatever the number of sources. -/
theorem issueFindings_of_isIssue {issue : Json} (h : issue.IsIssue) (count : Nat) :
    ∃ fs, issueFindings count issue = .ok fs ∧ ∀ f ∈ fs, f.2.WellTyped := by
  obtain ⟨hread, htexts⟩ := issueLocations_of_isIssue h
  -- in place of no location at all there is the empty one, which is a text as well
  have hused : ∀ location ∈
      (if (locationsOf issue).isEmpty then [Json.str ""] else locationsOf issue),
      location.IsText := by
    intro location hlocation
    split at hlocation
    · exact ⟨"", List.mem_singleton.mp hlocation⟩
    · exact htexts location hlocation
  unfold issueFindings
  rw [hread]
  refine List.mapM_ok_of_forall fun location hlocation => ?_
  obtain ⟨f, hf, htyped⟩ := ofIssue_of_isIssue h (hused location hlocation)
  obtain ⟨s, rfl⟩ := hused location hlocation
  exact ⟨(sourceIndex s count, f), by rw [Json.text_str, hf]; rfl, htyped⟩

/-- The sources of a result are texts. -/
theorem resultSources_of_isResult {result : Json} (h : result.IsResult) :
    ∃ sources, resultSources result = .ok sources ∧ ∀ s ∈ sources, s.IsText := by
  obtain ⟨helements, hitems⟩ := Json.elements_of_isListOf h.sourceList
  unfold resultSources
  rw [Json.get_of_isObject h.object, Json.getD_of_isObject h.object]
  simp only [bind, Except.bind, helements, pure, Except.pure]
  split
  · refine ⟨_, rfl, fun s hs => ?_⟩
    rw [List.mem_singleton.mp hs]
    exact h.source
  · exact ⟨_, rfl, hitems⟩

/-- The findings of a result can be read, whatever the number of sources. -/
theorem resultFindings_of_isResult {result : Json} (h : result.IsResult) (count : Nat) :
    ∃ fs, resultFindings result count = .ok fs ∧ ∀ f ∈ fs, f.2.WellTyped := by
  obtain ⟨helements, hissues⟩ := Json.elements_of_isListOf h.issues
  obtain ⟨findings, hfindings, htyped⟩ := List.mapM_ok_of_forall
    fun issue hissue => issueFindings_of_isIssue (hissues issue hissue) count
  refine ⟨findings.flatten, ?_, fun f hf => ?_⟩
  · unfold resultFindings
    rw [Json.get_of_isObject h.object]
    simp only [bind, Except.bind, helements, hfindings, pure, Except.pure]
  · obtain ⟨fs, hfs, hmem⟩ := List.mem_flatten.mp hf
    exact htyped fs hfs f hmem

namespace SourceReport

/-- **A result of the right types can be read,** and so are its reports. -/
theorem ofResult_of_isResult {result : Json} (h : result.IsResult) :
    ∃ reports, ofResult result = .ok reports ∧ ∀ r ∈ reports, r.WellTyped := by
  obtain ⟨sources, hsources, htexts⟩ := resultSources_of_isResult h
  obtain ⟨fs, hfs, htyped⟩ := resultFindings_of_isResult h sources.length
  have hread : ofResult result = .ok (sources.zipWith (fun source bucket =>
      ⟨source, result.fieldOr "sourceFormat" (.str ""), result.fieldOr "sourceType" (.str ""),
        bucket⟩) (sortIntoBuckets sources.length fs)) := by
    unfold ofResult
    simp only [bind, Except.bind, hsources, hfs, Json.getD_of_isObject h.object, pure, Except.pure]
  refine ⟨_, hread, fun r hr => ?_⟩
  obtain ⟨k, hk⟩ := List.mem_iff_getElem?.mp hr
  rw [List.getElem?_zipWith_eq_some] at hk
  obtain ⟨source, bucket, hsource, hbucket, rfl⟩ := hk
  refine ⟨htexts source (List.mem_of_getElem? hsource), fun f hf => ?_⟩
  -- what is in a bucket is one of the findings that were sorted
  have hmem : bucket ∈ sortIntoBuckets sources.length fs := List.mem_of_getElem? hbucket
  rw [sortIntoBuckets_eq, List.mem_map] at hmem
  obtain ⟨number, -, rfl⟩ := hmem
  obtain ⟨numbered, hnumbered, rfl⟩ := List.mem_map.mp hf
  exact htyped numbered (List.mem_filter.mp hnumbered).1

/-- **A response of the right types can be read.** -/
theorem ofResults_of_isResult {results : List Json} (h : ∀ result ∈ results, result.IsResult) :
    ∃ reports, ofResults results = .ok reports ∧ ∀ r ∈ reports, r.WellTyped := by
  obtain ⟨parts, hparts, htyped⟩ := List.mapM_ok_of_forall
    fun result hresult => ofResult_of_isResult (h result hresult)
  refine ⟨parts.flatten, Except.bind_eq_ok.mpr ⟨parts, hparts, rfl⟩, fun r hr => ?_⟩
  obtain ⟨part, hpart, hmem⟩ := List.mem_flatten.mp hr
  exact htyped part hpart r hmem

end SourceReport

end Pinpoint
