import Pinpoint.Proofs.Batch.Conservation
import Pinpoint.Proofs.Finding.Fields
import Pinpoint.Proofs.Normalize.Suppression
import Pinpoint.Proofs.Resolution.Places

/-!
# Findings at a range of a text

A location in a text starts with a range and the number of a source (`NamesRange`). It is read twice: when the
findings are shared out among the sources, for the number, and when a finding is resolved, for the range. Both
readings cut it into fields, and the first three fields are the three numbers in just these locations
(`fields_of_namesRange`, `namesRange_of_fields`). So a finding belongs to the source that it names
(`sourceIndex_of_namesRange`), and it is resolved in the text of that source and of no other
(`resolveText_of_namesRange`).

`normalizeAll_of_textResult` puts them together. There is one report for each listed source, in the order of the
list, and it stands for that source alone: its path, its line breaks and its syntax tree. It does not matter
whether the source map has to cover the code, for no location in a text is looked up there.
-/

namespace Pinpoint

/-- **A location names a range of a listed source:** it starts with three numbers, a start, a length and the number
of the source, with a colon between them. Whatever follows is set off by a colon, as a further field, or by a
semicolon, as a further entry. -/
structure NamesRange (location : String) (start length : Int) (number : Nat) : Prop where
  spelled : ∃ first second third rest : List Char,
    location.toList = first ++ ':' :: (second ++ ':' :: (third ++ rest)) ∧
      (∀ field ∈ [first, second, third], ':' ∉ field ∧ ';' ∉ field) ∧
      (rest = [] ∨ ∃ more, rest = ':' :: more ∨ rest = ';' :: more) ∧
      Text.readLoose? first = some start ∧ Text.readLoose? second = some length ∧
      Text.readLoose? third = some (number : Int)

/-- The numbers of such a location are its first three fields. -/
theorem fields_of_namesRange {location : String} {start length : Int} {number : Nat}
    (h : NamesRange location start length number) :
    (locationFields location)[0]?.bind Text.readLoose? = some start ∧
      (locationFields location)[1]?.bind Text.readLoose? = some length ∧
      (locationFields location)[2]?.bind Text.readLoose? = some (number : Int) := by
  obtain ⟨first, second, third, rest, hlocation, hfields, hrest, hstart, hlength, hnumber⟩ := h.spelled
  have hstarts : StartsWithFields location first second third := ⟨rest, hlocation, hfields, hrest⟩
  obtain ⟨fields, hcut⟩ := hstarts.exists_locationFields
  rw [hcut]
  exact ⟨hstart, hlength, hnumber⟩

/-- A location whose first three fields are numbers starts with them. -/
theorem namesRange_of_fields {location : String} {start length : Int} {number : Nat}
    (hstart : (locationFields location)[0]?.bind Text.readLoose? = some start)
    (hlength : (locationFields location)[1]?.bind Text.readLoose? = some length)
    (hnumber : (locationFields location)[2]?.bind Text.readLoose? = some (number : Int)) :
    NamesRange location start length number := by
  obtain ⟨first, hfirst, hstart⟩ := Option.bind_eq_some_iff.mp hstart
  obtain ⟨second, hsecond, hlength⟩ := Option.bind_eq_some_iff.mp hlength
  obtain ⟨third, hthird, hnumber⟩ := Option.bind_eq_some_iff.mp hnumber
  obtain ⟨fields, hcut⟩ := exists_eq_cons_of_getElem? hfirst hsecond hthird
  obtain ⟨rest, hlocation, hseparators, hrest⟩ := startsWithFields_of_locationFields hcut
  exact ⟨first, second, third, rest, hlocation, hseparators, hrest, hstart, hlength, hnumber⟩

/-- A location that names one of the sources belongs to it. -/
theorem sourceIndex_of_namesRange {location : String} {start length : Int} {number count : Nat}
    (h : NamesRange location start length number) (hnumber : number < count) :
    sourceIndex location count = number := by
  obtain ⟨-, -, hthird⟩ := fields_of_namesRange h
  unfold sourceIndex
  rw [hthird]
  have hlisted : 0 ≤ (number : Int) ∧ (number : Int) < count := by omega
  exact if_pos hlisted

namespace Tables

variable {a : Artifact} {t : Tables} {settings : Settings}

/-- The range that a location names is resolved in the source of the report. -/
theorem resolveText_of_namesRange {location : String} {start length : Int} {number : Nat}
    (h : NamesRange location start length number) (source : Json) :
    t.resolveText (.str location) source
      = (t.lineBreaksFor source).map (.ofRange start (some length) source) := by
  obtain ⟨hfirst, hsecond, -⟩ := fields_of_namesRange h
  unfold resolveText
  rw [Json.text_str, Except.ok_bind]
  dsimp only
  rw [hfirst, hsecond]
  exact resolveRange_eq_map t start (some length) source

/-- Of a range of a file the tree of that file is asked. -/
theorem hasArrayAround_ofRange_iff {start : Int} {length : Option Int} {path : String}
    {breaks : Option LineBreaks} {node : Ast.Node} :
    t.HasArrayAround (.ofRange start length (.str path) breaks) (.str path) node ↔
      ∃ tree, t.treeFor (.str path) = .ok (some tree) ∧
        tree.enclosing? start (max (length.getD 0) 0) .variableDeclaration = some node ∧
        node.declaresDynamicArray = true := by
  have hsource : (Json.str path).orElse (.str path) = .str path := ite_self _
  unfold HasArrayAround
  constructor
  · rintro ⟨first, tree, hstart, htree, hnode⟩
    obtain rfl : start = first := Option.some.inj hstart
    exact ⟨tree, hsource ▸ htree, hnode⟩
  · rintro ⟨tree, htree, hnode⟩
    exact ⟨start, tree, rfl, hsource.symm ▸ htree, hnode⟩

/-- **What a finding at a range of a file becomes:** it is dropped if the innermost declaration around the range,
in the tree of that file, is that of a dynamic array. Otherwise it becomes its message at the place of the range,
counted with the line breaks of that file. -/
structure BecomesAt (t : Tables) (settings : Settings) (f : Finding) (path : String) (start length : Int)
    (m : Option Message) : Prop where
  dropped_iff : m = none ↔ ∃ tree node, t.treeFor (.str path) = .ok (some tree) ∧
    tree.enclosing? start (max length 0) .variableDeclaration = some node ∧
    node.declaresDynamicArray = true
  message : ∀ msg, m = some msg → ∃ breaks, t.lineBreaksFor (.str path) = .ok breaks ∧
    messageAt settings f false (.ofRange start (some length) (.str path) breaks) = .ok msg ∧
    (msg.start, msg.stop) = Position.ofRange start length breaks

/-- A finding at a range of a text becomes what the file of the report makes of it. -/
theorem becomesAt_of_normalize {f : Finding} {path location : String} {start length : Int} {number : Nat}
    {m : Option Message} (hlocation : f.location = .str location)
    (hnames : NamesRange location start length number)
    (h : (t.normalize settings f (some .sourceText) (.str path) false).outcome = .ok m) :
    t.BecomesAt settings f path start length m := by
  obtain ⟨place, dropped, hplace, hdropped, hmessage, -⟩ := normalize_eq_ok h
  have hrange : (t.lineBreaksFor (.str path)).map (.ofRange start (some length) (.str path)) = .ok place := by
    rw [← resolveText_of_namesRange hnames, ← hlocation]
    exact hplace
  obtain ⟨breaks, hbreaks, rfl⟩ := Except.map_eq_ok.mp hrange
  rcases isSuppressed_eq_ok hdropped with ⟨rfl, node, hnode, -⟩ | ⟨rfl, hnone, -⟩
  · -- an array lies around the range
    obtain ⟨tree, harray⟩ := hasArrayAround_ofRange_iff.mp hnode
    rcases hmessage with ⟨-, rfl⟩ | ⟨hfalse, -⟩
    · exact ⟨iff_of_true rfl ⟨tree, node, harray⟩, fun msg hmsg => (Option.some_ne_none msg hmsg.symm).elim⟩
    · cases hfalse
  · -- none does, so there is a message
    rcases hmessage with ⟨htrue, -⟩ | ⟨-, msg, hmsg, rfl⟩
    · cases htrue
    · refine ⟨iff_of_false (Option.some_ne_none msg) ?_, ?_⟩
      · rintro ⟨tree, node, harray⟩
        exact hnone node (hasArrayAround_ofRange_iff.mpr ⟨tree, harray⟩)
      · intro msg' hmsg'
        obtain rfl : msg = msg' := Option.some.inj hmsg'
        obtain ⟨hstart, hstop⟩ := messageAt_positions hmsg
        exact ⟨breaks, hbreaks, hmsg, Prod.ext hstart hstop⟩

/-- In a text every finding of the right types becomes a message or is dropped, in strict mode as well. -/
theorem normalize_sourceText_of_wellTyped (ht : build a = .ok t) (htyped : a.WellTyped)
    (settings : Settings) {f : Finding} (hf : f.WellTyped) (path : String) (fatal : Bool) :
    ∃ m, (t.normalize settings f (some .sourceText) (.str path) fatal).outcome = .ok m := by
  obtain ⟨place, hplace, hpoints⟩ := resolve_pointsTo ht htyped hf (some .sourceText) path
  -- the mode makes no difference for a text
  have hsame : (t.resolve settings.strict f (some .sourceText) (.str path)).outcome = .ok place := hplace
  exact normalize_of_pointsTo ht htyped hf hsame hpoints fatal

/-- **The report of a listed source** of a text result. It has the messages of the findings that belong to the
source, in their order and without those that are dropped, and a finding at a range becomes what the file of that
path makes of it. -/
structure ReportsText (t : Tables) (settings : Settings) (result : Json) (path : String) (number : Nat)
    (r : FileReport) : Prop where
  filePath : r.filePath = .str path
  messages : ∃ made, r.messages = made.filterMap id ∧
    List.Forall₂ (fun finding m => ∃ f, Finding.ofIssue finding.1 finding.2 = .ok f ∧
        ∀ location start length, finding.2 = .str location → NamesRange location start length number →
          t.BecomesAt settings f path start length m)
      (SourceSlot.findings ⟨result, .str path, number⟩) made

theorem reportsText_of_reportOf {result : Json} {path : String} {number : Nat} {r : FileReport}
    (hformat : result.fieldOr "sourceFormat" (.str "") = .str "text")
    (h : t.reportOf settings ⟨result, .str path, number⟩ = .ok r) :
    t.ReportsText settings result path number r := by
  obtain ⟨made, hmade, rfl⟩ := exists_made_of_reportOf h
  refine ⟨rfl, made, rfl, hmade.imp fun finding m hm => ?_⟩
  obtain ⟨f, hf, hm⟩ := Except.bind_eq_ok.mp hm
  refine ⟨f, hf, ?_⟩
  intro location start length hlocation hnames
  have hkind : LocationKind.ofFormat? (SourceSlot.format ⟨result, .str path, number⟩) = some .sourceText := by
    rw [SourceSlot.format, hformat]
    rfl
  rw [hkind] at hm
  exact becomesAt_of_normalize ((Finding.ofIssue_eq_ok hf).1.trans hlocation) hnames hm

/-- Each of the findings of a source is reported there, or it is dropped. -/
theorem ReportsText.exists_of_mem {result : Json} {path : String} {number : Nat} {r : FileReport}
    (h : t.ReportsText settings result path number r) {finding : Json × Json}
    (hfinding : finding ∈ SourceSlot.findings ⟨result, .str path, number⟩) {location : String}
    {start length : Int} (hlocation : finding.2 = .str location)
    (hnames : NamesRange location start length number) :
    ∃ f m, Finding.ofIssue finding.1 finding.2 = .ok f ∧ t.BecomesAt settings f path start length m ∧
      ∀ msg, m = some msg → msg ∈ r.messages := by
  obtain ⟨made, hmessages, hmade⟩ := h.messages
  obtain ⟨i, hi⟩ := List.mem_iff_getElem?.mp hfinding
  obtain ⟨m, hm, f, hf, hbecomes⟩ := List.exists_getElem?_of_forall₂ hmade hi
  refine ⟨f, m, hf, hbecomes location start length hlocation hnames, ?_⟩
  intro msg hmsg
  rw [hmessages, List.mem_filterMap]
  exact ⟨m, List.mem_of_getElem? hm, hmsg⟩

/-- **Findings in a text are reported in the file that they name.** A text result that lists its sources has one
report for each of them, in their order. A finding that names a range of a listed source is reported there, as
the range is counted in the file of that path, unless the tree of that file has an array around it. -/
theorem normalizeAll_of_textResult (ht : build a = .ok t) (htyped : a.WellTyped) (settings : Settings)
    {result : Json} (hresult : result.IsResult)
    (hformat : result.fieldOr "sourceFormat" (.str "") = .str "text") {paths : List String}
    (hpaths : result.fieldOr "sourceList" .null = .arr (paths.map .str)) (hne : paths ≠ []) :
    ∃ reports rs, SourceReport.ofResult result = .ok reports ∧
      (t.normalizeAll settings reports).outcome = .ok rs ∧
      List.Forall₂ (fun source r => t.ReportsText settings result source.1 source.2 r) paths.zipIdx rs ∧
      ∀ finding ∈ findingsOf result, ∀ location start length number path, finding.2 = .str location →
        NamesRange location start length number → paths[number]? = some path →
        ∃ r f m, rs[number]? = some r ∧ r.filePath = .str path ∧
          Finding.ofIssue finding.1 finding.2 = .ok f ∧ t.BecomesAt settings f path start length m ∧
          ∀ msg, m = some msg → msg ∈ r.messages := by
  have hsources : sourcesOf result = paths.map .str := by
    have hlisted : (result.fieldOr "sourceList" .null).items = paths.map .str := by
      rw [hpaths]
      rfl
    rw [sourcesOf, hlisted]
    exact if_neg fun hempty => hne (List.map_eq_nil_iff.mp (List.isEmpty_iff.mp hempty))
  obtain ⟨reports, hreports, hwell⟩ := SourceReport.ofResult_of_isResult hresult
  have hslots := SourceReport.reportedAs_ofResult hreports
  -- all reports have the format of the result, so each of their findings has an outcome
  have hall : ∀ report ∈ reports, ∃ r, (t.normalizeReport settings report).outcome = .ok r := by
    intro report hreport
    obtain ⟨s, -, hs⟩ := List.exists_of_mem_forall₂ hslots hreport
    obtain ⟨path, hpath⟩ := (hwell report hreport).source
    have hkind : LocationKind.ofFormat? report.format = some .sourceText := by
      rw [hs.format, SourceSlot.format, hformat]
      rfl
    have hfindings : ∀ f ∈ report.findings, ∃ m, (t.normalize settings f
        (LocationKind.ofFormat? report.format) report.source false).outcome = .ok m := by
      intro f hf
      rw [hkind, hpath]
      exact normalize_sourceText_of_wellTyped ht htyped settings ((hwell report hreport).findings f hf) path false
    obtain ⟨r, hr, -⟩ := normalizeReport_of_forall hfindings
    exact ⟨r, hr⟩
  obtain ⟨rs, hrs⟩ := List.mapM_isOk hall
  have hreported : List.Forall₂ (fun source r => t.ReportsText settings result source.1 source.2 r)
      paths.zipIdx rs := by
    rw [hsources, List.zipIdx_map, List.forall₂_map_left_iff] at hslots
    refine (List.forall₂_comp hslots (List.mapM_eq_ok.mp hrs)).imp fun source r hr => ?_
    obtain ⟨report, hs, hr⟩ := hr
    exact reportsText_of_reportOf hformat (reportOf_eq_ok hs hr)
  refine ⟨reports, rs, hreports, (Trace.outcome_mapM _ _).trans hrs, hreported, ?_⟩
  intro finding hfinding location start length number path hlocation hnames hpath
  -- the number that the finding names is the one that it is sorted by
  have hbelongs : finding ∈ SourceSlot.findings ⟨result, .str path, number⟩ := by
    have hnumber : number < paths.length := (List.getElem?_eq_some_iff.mp hpath).1
    have hsorted : sourceNumber (sourcesOf result).length finding = number := by
      rw [sourceNumber, hsources, List.length_map, hlocation]
      exact sourceIndex_of_namesRange hnames hnumber
    exact List.mem_filter.mpr ⟨hfinding, decide_eq_true hsorted⟩
  have hlisted : paths.zipIdx[number]? = some (path, number) := by
    rw [List.getElem?_zipIdx, hpath, Option.map_some, Nat.zero_add]
  obtain ⟨r, hr, hreport⟩ := List.exists_getElem?_of_forall₂ hreported hlisted
  obtain ⟨f, m, hf, hbecomes, hmem⟩ := hreport.exists_of_mem hbelongs hlocation hnames
  exact ⟨r, f, m, hr, hreport.filePath, hf, hbecomes, hmem⟩

/-- A text result whose second source is the contract with the array. Its one issue is behind the array and in
it. -/
def secondSource : Json :=
  .obj [("sourceFormat", "text"), ("sourceList", .arr ["b.sol", "a.sol"]),
    ("issues", .arr [.obj [("severity", "High"), ("locations", .arr [.obj [("sourceMap", "11:+3: 1;0:4:0")],
      .obj [("sourceMap", "0:4:01")]])]])]

theorem secondSource_isResult : secondSource.IsResult := by
  have hlocation (place : String) : Json.IsLocation (.obj [("sourceMap", .str place)]) :=
    ⟨⟨_, rfl⟩, .inr ⟨place, rfl⟩⟩
  have hissue : Json.IsIssue (.obj [("severity", "High"), ("locations", .arr
      [.obj [("sourceMap", "11:+3: 1;0:4:0")], .obj [("sourceMap", "0:4:01")]])]) := by
    refine ⟨⟨_, rfl⟩, ⟨"High", rfl⟩, .inl rfl, .inr ⟨_, rfl, ?_⟩⟩
    exact List.forall_mem_cons.mpr ⟨hlocation _, List.forall_mem_singleton.mpr (hlocation _)⟩
  refine ⟨⟨_, rfl⟩, .inr ⟨_, rfl, ?_⟩, ⟨"", rfl⟩, .inr ⟨_, rfl, ?_⟩⟩
  · exact List.forall_mem_cons.mpr ⟨⟨_, rfl⟩, List.forall_mem_singleton.mpr ⟨_, rfl⟩⟩
  · exact List.forall_mem_singleton.mpr hissue

theorem withArray_wellTyped : withArray.WellTyped :=
  ⟨⟨by simp [withArray], by simp [withArray]⟩, by simp [withArray]⟩

/-- The finding behind the array is in the second report, on the second line of the second source. -/
theorem secondSource_reported :
    ∃ reports rs, SourceReport.ofResult secondSource = .ok reports ∧
      (withArrayTables.normalizeAll ⟨false, true⟩ reports).outcome = .ok rs ∧
      ∃ r msg, rs[1]? = some r ∧ r.filePath = .str "a.sol" ∧ msg ∈ r.messages ∧
        msg.start = ⟨2, 0⟩ ∧ msg.stop = some ⟨2, 3⟩ := by
  have hpaths : secondSource.fieldOr "sourceList" .null = .arr (["b.sol", "a.sol"].map .str) := rfl
  obtain ⟨reports, rs, hreports, hrs, -, hfindings⟩ := normalizeAll_of_textResult withArray_build
    withArray_wellTyped ⟨false, true⟩ secondSource_isResult rfl hpaths (List.cons_ne_nil _ _)
  refine ⟨reports, rs, hreports, hrs, ?_⟩
  have hfound : ∃ issue, (issue, Json.str "11:+3: 1;0:4:0") ∈ findingsOf secondSource :=
    ⟨_, List.mem_cons_self⟩
  have hnames : NamesRange "11:+3: 1;0:4:0" 11 3 1 := namesRange_of_fields (by cbv) (by cbv) (by cbv)
  obtain ⟨issue, hissue⟩ := hfound
  obtain ⟨r, f, m, hr, hpath, -, hbecomes, hmem⟩ := hfindings _ hissue _ 11 3 1 "a.sol" rfl hnames rfl
  -- the array ends before the range, so there is a message
  have hkept : m ≠ none := by
    intro hnone
    obtain ⟨tree, node, htree, hnode, -⟩ := hbecomes.dropped_iff.mp hnone
    have hread : withArrayTables.treeFor "a.sol" = .ok (some innerArrayNode) := by cbv
    have hbehind : innerArrayNode.enclosing? 11 3 .variableDeclaration = none := by cbv
    obtain rfl : innerArrayNode = tree := Option.some.inj (Except.ok.inj (hread.symm.trans htree))
    exact Option.some_ne_none node (hnode.symm.trans hbehind)
  obtain ⟨msg, rfl⟩ := Option.ne_none_iff_exists'.mp hkept
  obtain ⟨breaks, hbreaks, -, hends⟩ := hbecomes.message msg rfl
  have hcounted : withArrayTables.lineBreaksFor "a.sol" = .ok (some [10, 15]) := by cbv
  obtain rfl : some [10, 15] = breaks := Except.ok.inj (hcounted.symm.trans hbreaks)
  have hends' : Position.ofRange 11 3 (some [10, 15]) = (⟨2, 0⟩, some ⟨2, 3⟩) := by cbv
  obtain ⟨hstart, hstop⟩ := Prod.mk.inj (hends.trans hends')
  exact ⟨r, msg, hr, hpath, hmem msg rfl, hstart, hstop⟩

end Tables

end Pinpoint
