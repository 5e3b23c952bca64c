import Pinpoint.Proofs.Finding.Fields
import Pinpoint.Proofs.Finding.WellTyped
import Pinpoint.Proofs.Text.LooseNumeral

/-!
# Which findings a report has

A finding belongs to the source whose number stands in the third field of its location, and to the first source
where there is no such number: where the field is missing, or is no integer, or counts a source that is not there
(`BelongsTo`). This is said of the characters of the location, and there is just one such source
(`sourceIndex_eq_iff`).

What becomes of a result can then be said at once. A finding is made of an issue and one of its locations field
by field (`Finding.reported`), and the report with number `k` has the findings that belong to source `k`, in the
order of the issues and of their locations (`SourceReport.ofResult_eq`). `SourceReport.SharesOut` adds that nothing
is left out or taken twice, and what an issue without a location contributes.
-/

namespace Pinpoint

/-! ### The source that a location names -/

/-- The location names the source with number `k`: its third field is an integer, and that is `k`. -/
def NamesSource (location : String) (k : Int) : Prop :=
  ∃ first second third, StartsWithFields location first second third ∧ Text.LooseNumeral third k

/-- **The location belongs to source `k`** of `count` sources: it names it, or it names none of the sources, and
then it belongs to the first one. -/
inductive BelongsTo (count : Nat) (location : String) : Nat → Prop where
  | named {k : Nat} (names : NamesSource location k) (listed : k < count) : BelongsTo count location k
  | unnamed (unlisted : ∀ k : Int, NamesSource location k → k < 0 ∨ (count : Int) ≤ k) :
      BelongsTo count location 0

theorem namesSource_iff {location : String} {k : Int} :
    NamesSource location k ↔ (locationFields location)[2]?.bind Text.readLoose? = some k := by
  rw [Option.bind_eq_some_iff]
  constructor
  · rintro ⟨first, second, third, hstarts, hnumeral⟩
    exact ⟨third, exists_startsWithFields_iff.mp ⟨first, second, hstarts⟩,
      Text.readLoose?_eq_some_iff.mpr hnumeral⟩
  · rintro ⟨third, hthird, hread⟩
    obtain ⟨first, second, hstarts⟩ := exists_startsWithFields_iff.mpr hthird
    exact ⟨first, second, third, hstarts, Text.readLoose?_eq_some_iff.mp hread⟩

/-- A location names one source at most. -/
theorem NamesSource.unique {location : String} {j k : Int} (hj : NamesSource location j)
    (hk : NamesSource location k) : j = k :=
  Option.some.inj ((namesSource_iff.mp hj).symm.trans (namesSource_iff.mp hk))

/-- The number that is found for a location is that of the source that it belongs to. -/
theorem belongsTo_sourceIndex (location : String) (count : Nat) :
    BelongsTo count location (sourceIndex location count) := by
  unfold sourceIndex
  split
  next index hindex =>
    have hnames : NamesSource location index := namesSource_iff.mpr hindex
    split
    next hlisted =>
      have hcast : (index.toNat : Int) = index := Int.toNat_of_nonneg hlisted.1
      exact .named (by rwa [hcast]) (by omega)
    next hunlisted =>
      -- the number that it names is the only one, and is not that of a source
      refine .unnamed fun k hk => ?_
      obtain rfl := hnames.unique hk
      omega
  next hnone =>
    refine .unnamed fun k hk => ?_
    rw [namesSource_iff, hnone] at hk
    cases hk

/-- A location belongs to one source only. -/
theorem BelongsTo.unique {count : Nat} {location : String} {j k : Nat} (hj : BelongsTo count location j)
    (hk : BelongsTo count location k) : j = k := by
  cases hj with
  | named hj hjlt =>
    cases hk with
    | named hk _ => exact Int.ofNat_inj.mp (hj.unique hk)
    | unnamed hk =>
      have hout := hk _ hj
      omega
  | unnamed hj =>
    cases hk with
    | named hk hklt =>
      have hout := hj _ hk
      omega
    | unnamed _ => rfl

/-- **The number of a location** is that of the source that it belongs to. -/
theorem sourceIndex_eq_iff {location : String} {count k : Nat} :
    sourceIndex location count = k ↔ BelongsTo count location k := by
  constructor
  · rintro rfl
    exact belongsTo_sourceIndex location count
  · intro h
    exact (belongsTo_sourceIndex location count).unique h

instance (count : Nat) (location : String) (k : Nat) : Decidable (BelongsTo count location k) :=
  decidable_of_iff _ sourceIndex_eq_iff

/-- The empty location names no source, so it belongs to the first one. -/
theorem belongsTo_empty (count : Nat) : BelongsTo count "" 0 := by
  refine .unnamed fun k hk => ?_
  obtain ⟨first, second, third, ⟨rest, hlocation, -, -⟩, -⟩ := hk
  -- there would have to be a colon
  have hcolon : ':' ∈ "".toList := by
    rw [hlocation]
    exact List.mem_append_right first List.mem_cons_self
  cases hcolon

/-! ### Findings -/

/-- **The finding of an issue at one of its locations.** What the issue does not say is an empty text; the
identifier may be given under either of two names. -/
def Finding.reported (issue location : Json) : Finding where
  severity := issue.fieldOr "severity" (.str "")
  swcId := issue.fieldOr "swcID" (issue.fieldOr "swcId" (.str ""))
  head := (issue.fieldOr "description" .null).fieldOr "head" (.str "")
  tail := (issue.fieldOr "description" .null).fieldOr "tail" (.str "")
  location := location
  title := issue.fieldOr "swcTitle" (.str "")

/-- A value that gives nothing has no fields, and may stand for an object without fields. -/
theorem Json.fieldOr_orElse (j : Json) (name : String) (default : Json) :
    (j.orElse (.obj [])).fieldOr name default = j.fieldOr name default := by
  unfold Json.orElse
  split
  next hbare =>
    cases j with
    | obj fields =>
      cases fields with
      | nil => rfl
      | cons f fields => cases hbare
    | _ => rfl
  next => rfl

/-- A finding that can be made is made field by field. -/
theorem Finding.eq_reported {issue location : Json} {f : Finding}
    (h : Finding.ofIssue issue location = .ok f) : f = Finding.reported issue location := by
  obtain ⟨given, hgiven, h⟩ := Except.bind_eq_ok.mp h
  obtain ⟨severity, hseverity, h⟩ := Except.bind_eq_ok.mp h
  obtain ⟨otherId, hother, h⟩ := Except.bind_eq_ok.mp h
  obtain ⟨swcId, hid, h⟩ := Except.bind_eq_ok.mp h
  obtain ⟨head, hhead, h⟩ := Except.bind_eq_ok.mp h
  obtain ⟨tail, htail, h⟩ := Except.bind_eq_ok.mp h
  obtain ⟨title, htitle, h⟩ := Except.bind_eq_ok.mp h
  obtain rfl := Except.pure_eq_ok.mp h
  rw [Finding.reported, Json.fieldOr_of_getD hgiven, Json.fieldOr_of_getD hseverity,
    Json.fieldOr_of_getD hother, Json.fieldOr_of_getD hid, Json.fieldOr_of_getD htitle,
    ← Json.fieldOr_orElse given, ← Json.fieldOr_orElse given, Json.fieldOr_of_getD hhead,
    Json.fieldOr_of_getD htail]

/-- The issues of a result. -/
def issuesOf (result : Json) : List Json :=
  (result.fieldOr "issues" .null).items

/-- The findings of an issue: one at each of its locations, or one at an empty location if it has none. -/
def findingsOfIssue (issue : Json) : List (Json × Json) :=
  (if (locationsOf issue).isEmpty then [.str ""] else locationsOf issue).map fun location =>
    (issue, location)

/-- The findings of a result are those of its issues. -/
theorem findingsOf_eq_flatMap (result : Json) : findingsOf result = (issuesOf result).flatMap findingsOfIssue :=
  rfl

/-- **The issue has no location:** each of those that it lists is null, or gives no place. -/
def HasNoLocation (issue : Json) : Prop :=
  ∀ l ∈ (issue.fieldOr "locations" .null).items, l.fieldOr "sourceMap" .null = .null

theorem locationsOf_of_hasNoLocation {issue : Json} (h : HasNoLocation issue) : locationsOf issue = [] := by
  unfold locationsOf
  rw [List.filter_eq_nil_iff]
  intro location hlocation
  obtain ⟨l, hl, rfl⟩ := List.mem_map.mp hlocation
  rw [h l hl]
  exact Bool.false_ne_true

/-- An issue without a location has one finding, at an empty location. -/
theorem findingsOfIssue_of_hasNoLocation {issue : Json} (h : HasNoLocation issue) :
    findingsOfIssue issue = [(issue, .str "")] := by
  unfold findingsOfIssue
  rw [locationsOf_of_hasNoLocation h]
  rfl

/-! ### Reports -/

/-- The findings of source `k`, of `count` sources, in their order. -/
def findingsAt (count : Nat) (findings : List (Json × Json)) (k : Nat) : List Finding :=
  (findings.filter fun f => BelongsTo count f.2.asText k).map fun f => .reported f.1 f.2

/-- The findings of source `k` are those with number `k`. -/
theorem filter_belongsTo (count : Nat) (findings : List (Json × Json)) (k : Nat) :
    (findings.filter fun f => BelongsTo count f.2.asText k)
      = findings.filter fun f => sourceNumber count f = k := by
  refine List.filter_congr fun f _ => ?_
  exact decide_eq_decide.mpr sourceIndex_eq_iff.symm

/-- The findings that were read with number `k` are those of source `k`. -/
theorem map_filter_readAs {count : Nat} {findings : List (Json × Json)} {fs : List (Nat × Finding)}
    (h : List.Forall₂ (ReadAs count) findings fs) (k : Nat) :
    (fs.filter (·.1 = k)).map (·.2) = findingsAt count findings k := by
  rw [findingsAt, filter_belongsTo, eq_comm, ← List.forall₂_eq_eq_eq, List.forall₂_map_left_iff]
  exact (forall₂_filter_readAs h k).imp fun finding f hf => (Finding.eq_reported hf).symm

namespace SourceReport

/-- **The reports of a result of the right types,** told from what the result holds. -/
theorem ofResult_eq {result : Json} (h : result.IsResult) :
    ofResult result = .ok ((sourcesOf result).zipIdx.map fun s =>
      ⟨s.1, result.fieldOr "sourceFormat" (.str ""), result.fieldOr "sourceType" (.str ""),
        findingsAt (sourcesOf result).length (findingsOf result) s.2⟩) := by
  obtain ⟨reports, hreports, -⟩ := ofResult_of_isResult h
  obtain ⟨fs, hfs, rfl⟩ := ofResult_eq_ok hreports
  rw [hreports]
  refine congrArg Except.ok (List.map_congr_left fun s _ => ?_)
  rw [map_filter_readAs hfs]

/-- **The reports share out the findings of a result.** -/
structure SharesOut (result : Json) (reports : List SourceReport) : Prop where
  /-- There is one report for each source, in the order of the sources. -/
  sources : reports.map SourceReport.source = sourcesOf result
  format : ∀ r ∈ reports, r.format = result.fieldOr "sourceFormat" (.str "")
  sourceType : ∀ r ∈ reports, r.sourceType = result.fieldOr "sourceType" (.str "")
  /-- Report `k` has just the findings that belong to source `k`, in the order of the result. -/
  findings : ∀ (k : Nat) r, reports[k]? = some r →
    r.findings = findingsAt reports.length (findingsOf result) k
  /-- Every location belongs to one of the sources. -/
  inRange : ∀ location, ∃! k, k < reports.length ∧ BelongsTo reports.length location k
  /-- No finding is left out, and none is taken twice. -/
  complete : List.Perm (reports.flatMap SourceReport.findings)
    ((findingsOf result).map fun f => .reported f.1 f.2)
  /-- An issue without a location has one finding, at an empty location, in its place among the others. -/
  unplaced : ∀ before issue after, issuesOf result = before ++ issue :: after → HasNoLocation issue →
    findingsOf result
      = before.flatMap findingsOfIssue ++ (issue, .str "") :: after.flatMap findingsOfIssue
  /-- The empty location belongs to the first source. -/
  first : BelongsTo reports.length "" 0

/-- Shared out among the sources, the findings are all findings of the result, in another order. -/
theorem perm_flatMap_findingsAt (result : Json) :
    List.Perm ((sourcesOf result).zipIdx.flatMap fun s =>
        findingsAt (sourcesOf result).length (findingsOf result) s.2)
      ((findingsOf result).map fun f => .reported f.1 f.2) := by
  have hslots : ((sourcesOf result).zipIdx.flatMap fun s =>
        findingsAt (sourcesOf result).length (findingsOf result) s.2)
      = ((sourcesOf result).zipIdx.flatMap fun s => SourceSlot.findings ⟨result, s.1, s.2⟩).map
          fun f => .reported f.1 f.2 := by
    rw [List.map_flatMap]
    refine List.flatMap_congr fun s _ => ?_
    rw [findingsAt, filter_belongsTo]
    rfl
  rw [hslots]
  exact (perm_flatMap_findings_sources result).map _

/-- **A result of the right types is shared out:** its reports can be made, one for each of its sources, and each
of its findings is in the report of the source that it belongs to. -/
theorem exists_ofResult_sharesOut {result : Json} (h : result.IsResult) :
    ∃ reports, ofResult result = .ok reports ∧ SharesOut result reports := by
  refine ⟨_, ofResult_eq h, ?_⟩
  have hlength (make : Json × Nat → SourceReport) :
      ((sourcesOf result).zipIdx.map make).length = (sourcesOf result).length := by
    rw [List.length_map, List.length_zipIdx]
  constructor
  case sources =>
    rw [List.map_map]
    exact List.zipIdx_map_fst 0 _
  case format =>
    intro r hr
    obtain ⟨s, -, rfl⟩ := List.mem_map.mp hr
    rfl
  case sourceType =>
    intro r hr
    obtain ⟨s, -, rfl⟩ := List.mem_map.mp hr
    rfl
  case findings =>
    intro k r hr
    rw [List.getElem?_map, List.getElem?_zipIdx, Option.map_map] at hr
    obtain ⟨source, -, rfl⟩ := Option.map_eq_some_iff.mp hr
    rw [hlength]
    exact congrArg (findingsAt _ _) (Nat.zero_add k)
  case inRange =>
    intro location
    rw [hlength]
    refine ⟨sourceIndex location (sourcesOf result).length,
      ⟨sourceIndex_lt (sourcesOf_length_pos result) location, belongsTo_sourceIndex _ _⟩, ?_⟩
    rintro k ⟨-, hk⟩
    exact hk.unique (belongsTo_sourceIndex _ _)
  case complete =>
    rw [List.flatMap_map]
    exact perm_flatMap_findingsAt result
  case unplaced =>
    intro before issue after hissues hnone
    rw [findingsOf_eq_flatMap, hissues, List.flatMap_append, List.flatMap_cons,
      findingsOfIssue_of_hasNoLocation hnone]
    rfl
  case first => exact belongsTo_empty _

/-- A result with two sources. The first issue names the second source in two spellings, and then a source that is
not there; the second issue has a location without a place. -/
def twoIssues : Json :=
  .obj [("sourceFormat", "text"), ("sourceList", .arr ["a.sol", "b.sol"]),
    ("issues", .arr [
      .obj [("swcID", "SWC-1"), ("locations", .arr [.obj [("sourceMap", "5:6:1")],
        .obj [("sourceMap", "1:2: +0_١ :-;9:9:0")], .obj [("sourceMap", "1:2:-1")]])],
      .obj [("swcId", "SWC-2"), ("locations", .arr [.obj [("sourceMap", .null)], .obj []])]])]

theorem twoIssues_isResult : twoIssues.IsResult := by
  have hlocation (place : String) : Json.IsLocation (.obj [("sourceMap", .str place)]) :=
    ⟨⟨_, rfl⟩, .inr ⟨place, rfl⟩⟩
  refine ⟨⟨_, rfl⟩, .inr ⟨_, rfl, ?_⟩, ⟨"", rfl⟩, .inr ⟨_, rfl, ?_⟩⟩
  · exact List.forall_mem_cons.mpr ⟨⟨_, rfl⟩, List.forall_mem_singleton.mpr ⟨_, rfl⟩⟩
  · refine List.forall_mem_cons.mpr ⟨?_, List.forall_mem_singleton.mpr ?_⟩
    · refine ⟨⟨_, rfl⟩, ⟨"", rfl⟩, .inl rfl, .inr ⟨_, rfl, ?_⟩⟩
      exact List.forall_mem_cons.mpr
        ⟨hlocation _, List.forall_mem_cons.mpr ⟨hlocation _, List.forall_mem_singleton.mpr (hlocation _)⟩⟩
    · refine ⟨⟨_, rfl⟩, ⟨"", rfl⟩, .inl rfl, .inr ⟨_, rfl, ?_⟩⟩
      exact List.forall_mem_cons.mpr
        ⟨⟨⟨_, rfl⟩, .inl rfl⟩, List.forall_mem_singleton.mpr ⟨⟨_, rfl⟩, .inl rfl⟩⟩

/-- Both spellings are of the second source, and all else is in the report of the first one. -/
theorem twoIssues_sharedOut :
    ∃ reports, ofResult twoIssues = .ok reports ∧ SharesOut twoIssues reports ∧
      reports.map (fun r => r.findings.map fun f => (f.swcId.asText, f.location.asText))
        = [[("SWC-1", "1:2:-1"), ("SWC-2", "")],
            [("SWC-1", "5:6:1"), ("SWC-1", "1:2: +0_١ :-;9:9:0")]] := by
  obtain ⟨reports, hreports, hshares⟩ := exists_ofResult_sharesOut twoIssues_isResult
  refine ⟨reports, hreports, hshares, ?_⟩
  have hread : (ofResult twoIssues).map (fun reports =>
        reports.map fun r => r.findings.map fun f => (f.swcId.asText, f.location.asText))
      = .ok [[("SWC-1", "1:2:-1"), ("SWC-2", "")],
          [("SWC-1", "5:6:1"), ("SWC-1", "1:2: +0_١ :-;9:9:0")]] := by
    decide +kernel
  rw [hreports] at hread
  exact Except.ok.inj hread

end SourceReport

end Pinpoint
