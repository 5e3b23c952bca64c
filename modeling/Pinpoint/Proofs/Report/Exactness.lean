import Pinpoint.Proofs.Report.Contents

/-!
# Merging is exact

Merged reports are one for each name, in the order in which the names first occur (`FirstOccurrences`), and the
report of a name gathers all reports of that name: the path of the first, the messages of all in their order, and
the sums of all four counts (`Gathers`). `exists_groupByBasename_exact` states both.

The order is that in which groups are opened. A report either goes into a group that is there, and leaves the names
as they are, or opens one behind all others (`FirstOccurrences.concat_of_mem`,
`FirstOccurrences.concat_of_not_mem`). What a group holds is known from its name (`lookup_foldl_addToGroups`). Of
its four counts two are added up as reports are merged; the other two are counted anew among the merged messages,
which comes to the sum as well (`sum_errorCount`, `sum_warningCount`).
-/

namespace Pinpoint

/-! ### The order of first occurrence -/

/-- The elements of a list, each once, in the order in which they first occur. -/
structure FirstOccurrences {α : Type} [BEq α] (all firsts : List α) : Prop where
  mem_iff : ∀ x, x ∈ firsts ↔ x ∈ all
  ordered : firsts.Pairwise fun x y => all.idxOf x < all.idxOf y

namespace FirstOccurrences

variable {α : Type} [BEq α] [LawfulBEq α] {all firsts : List α} {x : α}

/-- What comes behind a list does not change the order of what has occurred in it. -/
theorem ordered_concat (h : FirstOccurrences all firsts) (x : α) :
    firsts.Pairwise fun y z => (all ++ [x]).idxOf y < (all ++ [x]).idxOf z := by
  apply h.ordered.imp_of_mem
  intro y z hy hz hlt
  rw [List.idxOf_append_of_mem ((h.mem_iff y).mp hy), List.idxOf_append_of_mem ((h.mem_iff z).mp hz)]
  exact hlt

/-- An element that has occurred does not occur for the first time. -/
theorem concat_of_mem (h : FirstOccurrences all firsts) (hx : x ∈ firsts) :
    FirstOccurrences (all ++ [x]) firsts := by
  refine ⟨fun y => ?_, h.ordered_concat x⟩
  rw [List.mem_append, List.mem_singleton, h.mem_iff]
  constructor
  · exact .inl
  · rintro (hy | rfl)
    · exact hy
    · exact (h.mem_iff y).mp hx

/-- An element that has not occurred comes behind all that have. -/
theorem concat_of_not_mem (h : FirstOccurrences all firsts) (hx : x ∉ firsts) :
    FirstOccurrences (all ++ [x]) (firsts ++ [x]) := by
  have hnew : x ∉ all := mt (h.mem_iff x).mpr hx
  refine ⟨fun y => ?_, ?_⟩
  · rw [List.mem_append, List.mem_append, h.mem_iff]
  · refine List.pairwise_append.mpr ⟨h.ordered_concat x, List.pairwise_singleton _ x, ?_⟩
    intro y hy z hz
    obtain rfl := List.mem_singleton.mp hz
    have hold := (h.mem_iff y).mp hy
    calc (all ++ [z]).idxOf y = all.idxOf y := List.idxOf_append_of_mem hold
      _ < all.length := List.idxOf_lt_length_of_mem hold
      _ ≤ all.length + [z].idxOf z := Nat.le_add_right _ _
      _ = (all ++ [z]).idxOf z := (List.idxOf_append_of_notMem hnew).symm

end FirstOccurrences

namespace FileReport

variable {reports : List FileReport} {named : Groups} {g : String × FileReport}

/-- Groups come in the order in which their names first occur. -/
theorem firstOccurrences_names (named : Groups) :
    FirstOccurrences ((names named).map some) ((names (named.foldl addToGroups [])).map some) := by
  -- the last report is the one that was added last
  induction named using List.reverseRecOn with
  | nil => exact ⟨fun x => Iff.rfl, .nil⟩
  | append_singleton named r ih =>
    have hall : (names (named ++ [r])).map some = (names named).map some ++ [some r.1] := by
      rw [names, List.map_append, List.map_append]
      rfl
    have hmem : some r.1 ∈ (names (named.foldl addToGroups [])).map some ↔
        r.1 ∈ names (named.foldl addToGroups []) :=
      List.mem_map_of_injective (Option.some_injective String)
    rw [hall, List.foldl_append, List.foldl_cons, List.foldl_nil, names_addToGroups]
    split
    next hold => exact ih.concat_of_mem (hmem.mpr hold)
    next hnew =>
      rw [List.map_append]
      exact ih.concat_of_not_mem (mt hmem.mp hnew)

/-! ### What a report gathers -/

/-- Errors are counted report by report. -/
theorem sum_errorCount (reports : List FileReport) :
    (reports.flatMap messages).countP Message.isError = (reports.map errorCount).sum :=
  List.countP_flatMap

/-- Warnings are counted report by report. -/
theorem sum_warningCount (reports : List FileReport) :
    (reports.flatMap messages).length - (reports.flatMap messages).countP Message.isError
      = (reports.map warningCount).sum := by
  induction reports with
  | nil => rfl
  | cons r reports ih =>
    have hr := r.errorCount_add_warningCount
    have hle : (reports.flatMap messages).countP Message.isError ≤ (reports.flatMap messages).length :=
      List.countP_le_length
    rw [List.map_cons, List.sum_cons, ← ih, List.flatMap_cons, List.length_append, List.countP_append]
    show _ - (r.errorCount + _) = _
    omega

/-- A report gathers all reports of its name: it has the path of the first, the messages of all in their order,
and the sums of their counts. -/
structure Gathers (reports : List FileReport) (g : FileReport) : Prop where
  filePath : (reports.find? (·.basename? = g.basename?)).map FileReport.filePath = some g.filePath
  messages : g.messages = (reports.filter (·.basename? = g.basename?)).flatMap FileReport.messages
  errorCount : g.errorCount = ((reports.filter (·.basename? = g.basename?)).map FileReport.errorCount).sum
  warningCount :
    g.warningCount = ((reports.filter (·.basename? = g.basename?)).map FileReport.warningCount).sum
  fixableErrorCount : g.fixableErrorCount
    = ((reports.filter (·.basename? = g.basename?)).map FileReport.fixableErrorCount).sum
  fixableWarningCount : g.fixableWarningCount
    = ((reports.filter (·.basename? = g.basename?)).map FileReport.fixableWarningCount).sum

/-- The reports of a name are those with that last component. -/
theorem reportsNamed_eq_filter (h : reports.mapM withName = .ok named) (name : String) :
    reportsNamed named name = reports.filter (·.basename? = some name) := by
  rw [List.mapM_eq_ok] at h
  induction h with
  | nil => rfl
  | @cons r named' reports named hr _ ih =>
    obtain ⟨hname, rfl⟩ := withName_eq_ok.mp hr
    unfold reportsNamed at ih ⊢
    rw [List.filter_cons, List.filter_cons, hname]
    by_cases hsame : named'.1 = name
    · simp only [hsame, decide_true, if_true, List.map_cons, ih]
    · simp only [hsame, Option.some.injEq, decide_false, Bool.false_eq_true, if_false, ih]

/-- A report that has been named has this name. -/
theorem map_basename?_of_mapM_withName (h : reports.mapM withName = .ok named) :
    reports.map basename? = (names named).map some := by
  rw [List.mapM_eq_ok] at h
  induction h with
  | nil => rfl
  | cons hr _ ih => rw [List.map_cons, names, List.map_cons, List.map_cons, (withName_eq_ok.mp hr).1, ih]

/-- **A merger gathers** the reports that it consists of. -/
theorem gathers_of_merger {g : FileReport}
    (h : merger (reports.filter (·.basename? = g.basename?)) = some g) : Gathers reports g := by
  cases hsame : reports.filter (·.basename? = g.basename?) with
  | nil =>
    rw [hsame] at h
    cases h
  | cons first rest =>
    rw [hsame] at h
    have hg : g = ⟨first.filePath, (first :: rest).flatMap messages,
        ((first :: rest).map fixableErrorCount).sum, ((first :: rest).map fixableWarningCount).sum⟩ :=
      (Option.some.inj h).symm.trans (foldl_merge rest first)
    have hmessages : g.messages = (first :: rest).flatMap messages := by rw [hg]
    refine ⟨?_, ?_, ?_, ?_, ?_, ?_⟩
    · rw [← List.head?_filter, hsame, hg]
      rfl
    · rw [hsame, hmessages]
    · rw [hsame, errorCount, hmessages, sum_errorCount]
    · rw [hsame, warningCount, errorCount, hmessages, sum_warningCount]
    · rw [hsame, hg]
    · rw [hsame, hg]

/-- The report in a group gathers the reports of its name. -/
theorem gathers_of_mem_foldl (h : reports.mapM withName = .ok named)
    (hg : g ∈ named.foldl addToGroups []) : Gathers reports g.2 := by
  have hnone : (names []).Nodup := List.nodup_nil
  have hlookup := lookup_eq_of_mem (nodup_names_foldl hnone) hg
  apply gathers_of_merger
  rw [basename?_of_mem_foldl h hg, ← reportsNamed_eq_filter h, ← lookup_foldl_addToGroups]
  exact hlookup

/-- **Merging is exact.** Reports whose paths are texts can be merged. What comes out is one report for each
last component of a path, in the order in which these first occur, and each gathers all reports of its name. -/
theorem exists_groupByBasename_exact (h : ∀ r ∈ reports, ∃ path, r.filePath = .str path) :
    ∃ merged, groupByBasename reports = .ok merged ∧
      FirstOccurrences (reports.map basename?) (merged.map basename?) ∧
      ∀ g ∈ merged, Gathers reports g := by
  obtain ⟨merged, hmerged⟩ := exists_groupByBasename h
  obtain ⟨named, hnamed, hgroups⟩ := Except.bind_eq_ok.mp hmerged
  obtain rfl := Except.pure_eq_ok.mp hgroups
  refine ⟨_, hmerged, ?_, ?_⟩
  · rw [map_basename?_of_mapM_withName hnamed, map_basename?_groupNamed hnamed]
    exact firstOccurrences_names named
  · intro g hg
    obtain ⟨group, hgroup, rfl⟩ := List.mem_map.mp hg
    exact gathers_of_mem_foldl hnamed hgroup

/-- Three reports on two files, the first of which is reported again, under another directory, after the second. -/
def interleaved : List FileReport :=
  [⟨"b.sol", [⟨"SWC-101", "first", 2, "High", true, ⟨1, 0⟩, none⟩], 1, 0⟩,
    ⟨"src/a.sol", [], 0, 2⟩,
    ⟨"src/b.sol", [⟨"SWC-103", "second", 1, "Low", false, ⟨2, 4⟩, some ⟨2, 7⟩⟩,
      ⟨"SWC-110", "third", 2, "Medium", false, ⟨3, 0⟩, none⟩], 2, 3⟩]

theorem interleaved_merged : (∀ r ∈ interleaved, ∃ path, r.filePath = .str path) ∧
    ∃ merged, groupByBasename interleaved = .ok merged ∧
      merged.map filePath = ["b.sol", "src/a.sol"] ∧
      merged.map (·.messages.map Message.message) = [[.str "first", .str "second", .str "third"], []] ∧
      merged.map errorCount = [2, 0] ∧ merged.map warningCount = [1, 0] ∧
      merged.map fixableErrorCount = [3, 0] ∧ merged.map fixableWarningCount = [3, 2] ∧
      FirstOccurrences (interleaved.map basename?) (merged.map basename?) ∧
      ∀ g ∈ merged, Gathers interleaved g := by
  have hpaths : ∀ r ∈ interleaved, ∃ path, r.filePath = .str path := by
    simp [interleaved]
  obtain ⟨merged, hmerged, hnames, hgathers⟩ := exists_groupByBasename_exact hpaths
  have hvalue : groupByBasename interleaved = .ok
      [⟨"b.sol", [⟨"SWC-101", "first", 2, "High", true, ⟨1, 0⟩, none⟩,
        ⟨"SWC-103", "second", 1, "Low", false, ⟨2, 4⟩, some ⟨2, 7⟩⟩,
        ⟨"SWC-110", "third", 2, "Medium", false, ⟨3, 0⟩, none⟩], 3, 3⟩,
        ⟨"src/a.sol", [], 0, 2⟩] := by
    cbv
  obtain rfl := Except.ok.inj (hmerged.symm.trans hvalue)
  exact ⟨hpaths, _, hmerged, rfl, rfl, rfl, rfl, rfl, rfl, hnames, hgathers⟩

end FileReport

end Pinpoint
