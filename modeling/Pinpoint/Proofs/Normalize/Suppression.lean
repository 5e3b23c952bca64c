import Pinpoint.Proofs.Ast.CompactNodes
import Pinpoint.Proofs.Normalize.Totality

/-!
# Which findings are dropped

The classification of a finding looks up a syntax tree, searches it for the declaration around the range of
the finding, and asks whether that declares a dynamic array. Here the same is said of the compiler's own
document, with no tree in between: a finding is dropped exactly if the range that it points to has a dynamic
array as its innermost declaration in the document of its source (`IsArrayAround`). A finding that is dropped
is noted once, with the name that the declaration has there, and no other finding is noted
(`normalize_eq_none_iff`).

The steps on the way: the look-up and the search agree with the document (`arrayAround_of_isCompact`, by way of
`Ast.enclosing?_of_mirrors`), so the classification does (`isSuppressed_of_isCompact`), and of all that is done
for a finding only the classification notes a suppression (`filter_isSuppression_normalize`).
-/

namespace Pinpoint

/-! ### The document of a source -/

/-- The compiler's syntax tree of a path, as it is written: that of the file that the path names among those
with a tree, and null if there is none. -/
def Artifact.documentOf (a : Artifact) (path : String) : Json :=
  ((nearest (a.sources.filter SourceFile.hasTree) path).map SourceFile.ast).getD .null

/-- **The innermost declaration around a range** of a document is that of a dynamic array. -/
def IsArrayAround (document : Json) (start length : Int) (declaration : Json) : Prop :=
  Ast.IsInnermostAround document start length declaration ∧ Ast.hasDynamicType declaration = true

/-- A document is in the compact form, if it is given at all. -/
def IsCompact (document : Json) : Prop :=
  document.isBare = true ∨ document.hasField Ast.Node.marker = true

namespace Tables

variable {a : Artifact} {t : Tables}

/-! ### The search agrees with the document -/

/-- In a document that gives nothing there is no declaration. -/
theorem not_isInnermostAround_of_isBare {document : Json} (hbare : document.isBare = true)
    (start length : Int) (declaration : Json) :
    ¬ Ast.IsInnermostAround document start length declaration := by
  intro h
  have hnone : Ast.nodesAt document = [] := by
    cases document with
    | obj fields =>
      obtain rfl := List.isEmpty_iff.mp hbare
      rfl
    | _ => rfl
  exact absurd (hnone ▸ h.mem) List.not_mem_nil

/-- A tree in the compact form mirrors the document that it is read from. -/
theorem mirrors_of_read {document : Json} {root : Ast.Node}
    (hcompact : document.hasField Ast.Node.marker = true)
    (h : Ast.read document = .ok (some root)) :
    List.Forall₂ Ast.Mirrors (Ast.nodesAt document) root.preorder := by
  unfold Ast.read at h
  split at h
  · cases h
  · obtain ⟨n, hn, heq⟩ := Except.map_eq_ok.mp h
    obtain rfl := Option.some.inj heq
    exact Ast.mirrors_ofCompact hcompact hn

/-- What is looked up for a path is read from its document. -/
theorem treeFor_eq_read (ht : build a = .ok t) (hkeyed : a.KeyedByPath) (path : String) :
    t.treeFor (.str path) = Ast.read (a.documentOf path) := by
  rw [treeFor_eq ht, Artifact.fileFor_eq_nearest hkeyed, Artifact.documentOf]
  cases nearest (a.sources.filter SourceFile.hasTree) path <;> rfl

/-- Nothing is read exactly from a document that gives nothing. -/
theorem isBare_of_read_eq_none {document : Json} (h : Ast.read document = .ok none) :
    document.isBare = true := by
  unfold Ast.read at h
  split at h
  next hbare => exact hbare
  next =>
    split at h <;>
      · obtain ⟨n, -, hn⟩ := Except.map_eq_ok.mp h
        cases hn

/-- What the search for an array gives is right about a document: nothing if there is none around the range,
and otherwise a node that has the name of the one that there is. -/
def FindsArray (document : Json) (start length : Int) : Option Ast.Node → Prop
  | none => ∀ d, ¬ IsArrayAround document start length d
  | some node => (∃ d, IsArrayAround document start length d) ∧
      ∀ d, IsArrayAround document start length d → node.declaredName = Ast.nameOf d

/-- The innermost declaration of a tree that mirrors a document is that of the document. -/
theorem findsArray_of_mirrors {document : Json} {root : Ast.Node}
    (h : List.Forall₂ Ast.Mirrors (Ast.nodesAt document) root.preorder) (start length : Int) :
    FindsArray document start length
      ((root.enclosing? start length .variableDeclaration).filter (·.declaresDynamicArray)) := by
  obtain ⟨hfound, hinner⟩ := Ast.enclosing?_of_mirrors h start length
  cases hfilter : (root.enclosing? start length .variableDeclaration).filter
      (·.declaresDynamicArray) with
  | none =>
    rintro d ⟨hd, hdynamic⟩
    obtain ⟨node, hmirrors, hnode⟩ := hinner d hd
    refine absurd ?_ (Option.filter_eq_none_iff.mp hfilter node hnode)
    rw [hmirrors.dynamic hd.isDeclaration, hdynamic]
  | some node =>
    obtain ⟨hnode, hdynamic⟩ := Option.filter_eq_some_iff.mp hfilter
    refine ⟨?_, ?_⟩
    · obtain ⟨d, hmirrors, hd⟩ := hfound node hnode
      exact ⟨d, hd, by rw [← hmirrors.dynamic hd.isDeclaration, hdynamic]⟩
    · rintro d ⟨hd, -⟩
      obtain ⟨found, hmirrors, hfound⟩ := hinner d hd
      obtain rfl := Option.some.inj (hnode.symm.trans hfound)
      exact hmirrors.name hd.isDeclaration

/-- **The search and the document agree** on the array around a range. -/
theorem arrayAround_of_isCompact (ht : build a = .ok t) (hkeyed : a.KeyedByPath) {path : String}
    (hcompact : IsCompact (a.documentOf path)) (start length : Int) :
    ∃ around, t.arrayAround start length (.str path) = .ok around ∧
      FindsArray (a.documentOf path) start length around := by
  obtain ⟨tree, htree⟩ := treeFor_of_keyedByPath ht hkeyed path
  have hread : Ast.read (a.documentOf path) = .ok tree := by
    rw [← treeFor_eq_read ht hkeyed, htree]
  unfold arrayAround
  rw [htree]
  cases tree with
  | none =>
    refine ⟨none, rfl, fun d hd => ?_⟩
    exact not_isInnermostAround_of_isBare (isBare_of_read_eq_none hread) start length d hd.1
  | some root =>
    have hmarked : (a.documentOf path).hasField Ast.Node.marker = true := by
      rcases hcompact with hbare | hmarked
      · unfold Ast.read at hread
        rw [if_pos hbare] at hread
        cases hread
      · exact hmarked
    exact ⟨_, rfl, findsArray_of_mirrors (mirrors_of_read hmarked hread) start length⟩

/-! ### Findings that are dropped -/

/-- Only the classification of a finding notes a suppression. -/
theorem filter_isSuppression_normalize {settings : Settings} {f : Finding}
    {kind : Option LocationKind} {source : Json} {dropped : Bool} {place : Resolution} (fatal : Bool)
    (hplace : (t.resolve settings.strict f kind source).outcome = .ok place)
    (hdropped : (t.isSuppressed f place source).outcome = .ok dropped) :
    (t.normalize settings f kind source fatal).notes.filter Event.isSuppression
      = (t.isSuppressed f place source).notes.filter Event.isSuppression := by
  rw [notes_normalize fatal hplace hdropped, List.filter_append,
    (keepsFindings_resolve t _ f kind source).filter_eq_nil, List.nil_append]

/-- **The classification of a finding agrees with the document.** It drops the finding exactly if the range
that it points to has an array around it, and then notes this with the name of the array. -/
theorem isSuppressed_of_isCompact (ht : build a = .ok t) (htyped : a.WellTyped) (f : Finding)
    {kind : Option LocationKind} {location path : String} {place : Resolution}
    (hpoints : place.PointsTo (a.pointedRange? kind location (.str path)))
    (hcompact : ∀ r, a.pointedRange? kind location (.str path) = some r →
      IsCompact (a.documentOf (r.pathIn path))) :
    ∃ dropped, (t.isSuppressed f place (.str path)).outcome = .ok dropped ∧
      (dropped = true ↔ ∃ r d, a.pointedRange? kind location (.str path) = some r ∧
        IsArrayAround (a.documentOf (r.pathIn path)) r.start r.extent d) ∧
      (∀ r d, a.pointedRange? kind location (.str path) = some r →
        IsArrayAround (a.documentOf (r.pathIn path)) r.start r.extent d →
        (t.isSuppressed f place (.str path)).notes.filter Event.isSuppression
          = [.issueSuppressed f.swcId (.str (r.pathIn path)) (Ast.nameOf d)]) ∧
      (dropped = false →
        (t.isSuppressed f place (.str path)).notes.filter Event.isSuppression = []) := by
  cases hrange : a.pointedRange? kind location (.str path) with
  | none =>
    -- the finding points nowhere, so there is nothing to look up
    rw [hrange] at hpoints
    obtain rfl := hpoints
    refine ⟨false, rfl, ⟨?_, ?_⟩, ?_, fun _ => rfl⟩
    · intro h
      cases h
    · rintro ⟨r, d, h, -⟩
      cases h
    · intro r d h
      cases h
  | some r =>
    rw [hrange] at hpoints
    obtain ⟨hstart, hlength, hsource⟩ := hpoints
    have hpath : place.source.orElse (.str path) = .str (r.pathIn path) := by
      rw [hsource]
      exact orElse_source_of_pointedRange htyped hrange
    obtain ⟨around, haround, hfinds⟩ := arrayAround_of_isCompact ht htyped.toKeyedByPath
      (hcompact r hrange) r.start r.extent
    rw [← hpath, ← hlength] at haround
    obtain ⟨houtcome, hnoted⟩ := isSuppressed_of_arrayAround (f := f) hstart haround
    rw [hnoted, hpath]
    refine ⟨around.isSome, houtcome, ?_⟩
    cases around with
    | none =>
      refine ⟨⟨?_, ?_⟩, ?_, fun _ => rfl⟩
      · intro h
        cases h
      · rintro ⟨r', d, hr, hd⟩
        obtain rfl := Option.some.inj hr
        exact absurd hd (hfinds d)
      · intro r' d hr hd
        obtain rfl := Option.some.inj hr
        exact absurd hd (hfinds d)
    | some node =>
      obtain ⟨⟨d, hd⟩, hname⟩ := hfinds
      refine ⟨⟨fun _ => ⟨r, d, rfl, hd⟩, fun _ => rfl⟩, ?_, ?_⟩
      · -- any array around the range will do: all of them have the name of the node
        intro r' d' hr hd'
        obtain rfl := Option.some.inj hr
        rw [Option.toList_some, List.map_singleton, hname d' hd']
      · intro h
        cases h

/-- **A finding is dropped** exactly if the innermost declaration around its range, in the document of its
source, is that of a dynamic array. Then this is noted, once and with the name of the declaration; otherwise
nothing of the kind is. -/
theorem normalize_eq_none_iff (ht : build a = .ok t) (htyped : a.WellTyped) {f : Finding}
    (hf : f.WellTyped) (kind : Option LocationKind) (path : String)
    (hcompact : ∀ r, a.pointedRange? kind f.location.asText (.str path) = some r →
      IsCompact (a.documentOf (r.pathIn path)))
    (spaceLimited fatal : Bool) :
    ∃ m, (t.normalize ⟨spaceLimited, false⟩ f kind (.str path) fatal).outcome = .ok m ∧
      (m = none ↔ ∃ r d, a.pointedRange? kind f.location.asText (.str path) = some r ∧
        IsArrayAround (a.documentOf (r.pathIn path)) r.start r.extent d) ∧
      (∀ r d, a.pointedRange? kind f.location.asText (.str path) = some r →
        IsArrayAround (a.documentOf (r.pathIn path)) r.start r.extent d →
        (t.normalize ⟨spaceLimited, false⟩ f kind (.str path) fatal).notes.filter Event.isSuppression
          = [.issueSuppressed f.swcId (.str (r.pathIn path)) (Ast.nameOf d)]) ∧
      (m ≠ none →
        (t.normalize ⟨spaceLimited, false⟩ f kind (.str path) fatal).notes.filter Event.isSuppression
          = []) := by
  have hlenient : (⟨spaceLimited, false⟩ : Settings).strict = false := rfl
  obtain ⟨m, hm⟩ := normalize_of_wellTyped ht htyped hlenient hf kind path fatal
  obtain ⟨place, dropped, hplace, hdropped, hcases, -⟩ := normalize_eq_ok hm
  have hnotes := filter_isSuppression_normalize fatal hplace hdropped
  -- the place is the one that the range says, and the classification the one that the document says
  obtain ⟨place', hplace', hpoints⟩ := resolve_pointsTo ht htyped hf kind path
  obtain rfl := Except.ok.inj (hplace.symm.trans hplace')
  obtain ⟨dropped', hdropped', hiff, hnamed, hkept⟩ :=
    isSuppressed_of_isCompact ht htyped f hpoints hcompact
  obtain rfl := Except.ok.inj (hdropped.symm.trans hdropped')
  have hm_iff : m = none ↔ dropped = true := by
    rcases hcases with ⟨rfl, rfl⟩ | ⟨rfl, msg, -, rfl⟩
    · exact ⟨fun _ => rfl, fun _ => rfl⟩
    · exact ⟨fun h => (Option.some_ne_none msg h).elim, fun h => (Bool.false_ne_true h).elim⟩
  refine ⟨m, hm, hm_iff.trans hiff, ?_, ?_⟩
  · rw [hnotes]
    exact hnamed
  · intro hsome
    rw [hnotes]
    exact hkept (Bool.eq_false_of_not_eq_true fun h => hsome (hm_iff.mpr h))

/-- A declaration of a dynamic array. -/
def innerArray : Json :=
  .obj [("nodeType", "VariableDeclaration"), ("src", "0:9:0"), ("name", "xs"),
    ("typeName", .obj [("nodeType", "ArrayTypeName"), ("length", .null)])]

/-- The declaration, as a node of a syntax tree. -/
def innerArrayNode : Ast.Node :=
  ⟨"VariableDeclaration", some ⟨0, 9, 0⟩, some ⟨"xs", some (.array (.other "") true)⟩,
    [⟨"ArrayTypeName", none, none, []⟩]⟩

/-- A finding at a location. -/
def findingAt (location : String) : Finding := ⟨"High", "SWC-110", "h", "t", location, ""⟩

theorem findingAt_wellTyped (location : String) : (findingAt location).WellTyped :=
  ⟨⟨location, rfl⟩, ⟨"High", rfl⟩⟩

/-- A tree in which a declaration of an array of three elements has the other one below it, with the same
range. -/
def nestedArrays : Json :=
  .obj [("nodeType", "SourceUnit"), ("src", "0:14:0"), ("nodes", .arr [
    .obj [("nodeType", "VariableDeclaration"), ("src", "0:9:0"), ("name", "outer"),
      ("typeName", .obj [("nodeType", "ArrayTypeName"), ("length", "3")]), ("value", innerArray)]])]

/-- A contract with this tree. -/
def withNestedArrays : Artifact :=
  { contractName := "A", deployedBytecode := "", bytecode := "", deployedSourceMap := ""
    sourceMap := "", sourceList := ["a.sol"], sources := [⟨"a.sol", "uint[] xs;\nf();\n", nestedArrays⟩] }

/-- The finding in both declarations is dropped, for it belongs to the one that comes later in the tree. -/
theorem withNestedArrays_drops :
    withNestedArrays.WellTyped ∧ ∃ t, build withNestedArrays = .ok t ∧
      (t.normalize ⟨false, false⟩ ⟨"High", "SWC-110", "h", "t", "2:3:0", ""⟩ (some .sourceText)
        (.str "a.sol") false).outcome = .ok none ∧
      (t.normalize ⟨false, false⟩ ⟨"High", "SWC-110", "h", "t", "2:3:0", ""⟩ (some .sourceText)
        (.str "a.sol") false).notes.filter Event.isSuppression
          = [.issueSuppressed "SWC-110" "a.sol" "xs"] := by
  have hbuild : ∃ t, build withNestedArrays = .ok t := by
    have htrees : ∃ trees, entriesOf (fun file => Ast.read file.ast) withNestedArrays.sources
        = .ok trees := ⟨_, rfl⟩
    obtain ⟨trees, htrees⟩ := htrees
    rw [build, htrees]
    exact ⟨_, by cbv⟩
  have htyped : withNestedArrays.WellTyped :=
    ⟨⟨by simp [withNestedArrays], by simp [withNestedArrays]⟩, by simp [withNestedArrays]⟩
  have hrange : withNestedArrays.pointedRange? (some .sourceText) "2:3:0" (.str "a.sol")
      = some ⟨2, some 3, "a.sol"⟩ := by cbv
  have hdocument : withNestedArrays.documentOf "a.sol" = nestedArrays := by cbv
  have harray : IsArrayAround nestedArrays 2 3 innerArray := by
    refine ⟨⟨by cbv, _ :: _ :: _ :: [], _ :: [], rfl, ?_, ?_⟩, rfl⟩
    · -- the other declaration around the range is before it, and just as wide
      refine List.forall_mem_cons.mpr ⟨fun h => (Bool.false_ne_true h).elim, ?_⟩
      refine List.forall_mem_cons.mpr ⟨fun _ => Int.le_refl 9, ?_⟩
      exact List.forall_mem_singleton.mpr fun h => (Bool.false_ne_true h).elim
    · exact List.forall_mem_singleton.mpr fun h => (Bool.false_ne_true h).elim
  obtain ⟨t, ht⟩ := hbuild
  obtain ⟨m, hm, hnone, hnoted, -⟩ := normalize_eq_none_iff ht htyped
    (f := ⟨"High", "SWC-110", "h", "t", "2:3:0", ""⟩) ⟨⟨_, rfl⟩, ⟨_, rfl⟩⟩ (some .sourceText) "a.sol"
    (by
      intro r hr
      obtain rfl := Option.some.inj (hrange.symm.trans hr)
      exact .inr (hdocument ▸ rfl)) false false
  have harray' : IsArrayAround (withNestedArrays.documentOf "a.sol") 2 3 innerArray := by
    rw [hdocument]
    exact harray
  obtain rfl := hnone.mpr ⟨_, innerArray, hrange, harray'⟩
  exact ⟨htyped, t, ht, hm, hnoted _ innerArray hrange harray'⟩

end Tables

end Pinpoint
