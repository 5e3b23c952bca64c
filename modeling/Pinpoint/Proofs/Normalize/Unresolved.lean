import Pinpoint.Proofs.Normalize.StrictMode
import Pinpoint.Proofs.Normalize.Suppression
import Pinpoint.Proofs.Resolution.Places

/-!
# Findings without a position

A finding that cannot be resolved to a line and a column is not lost: it becomes a message without a position
and without an end. But a finding may lack a position and still have a range, if the text of its source is not
known or the range starts before it, and whether a finding is dropped is decided by the range and the syntax
tree alone. So a finding without a position is dropped in one case, when the innermost declaration around its
range is that of a dynamic array. `normalize_of_unresolved` says that this is the only case, in either mode;
`textless` is a contract where it occurs.

Of a place without a position, `range_of_unresolved` says what its range may be. The classification of the
finding then is that of `isSuppressed_eq_ok`, for any other place as for this one.
-/

namespace Pinpoint.Tables

variable {a : Artifact} {t : Tables}

/-- **The finding is kept without a position:** its message has neither a start nor an end, and nothing says
that it was dropped. -/
structure KeptUnresolved (x : Observed (Option Message)) : Prop where
  message : ∃ m, x.outcome = .ok (some m) ∧ m.start = .unresolved ∧ m.stop = none
  quiet : x.notes.filter Event.isSuppression = []

/-- **The finding is dropped,** and `e` alone says so. -/
structure DroppedWith (x : Observed (Option Message)) (e : Event) : Prop where
  dropped : x.outcome = .ok none
  noted : x.notes.filter Event.isSuppression = [e]

/-- **A finding without a position** has no end either. It is kept unless a dynamic array lies around its range,
and then it is dropped and noted once. It has a range only if that starts before the text, or if the line
breaks of its source are not known. -/
theorem normalize_of_unresolved (ht : build a = .ok t) (htyped : a.WellTyped) (settings : Settings)
    {f : Finding} (hf : f.WellTyped) (kind : Option LocationKind) (path : String) (fatal : Bool)
    {place : Resolution}
    (hplace : (t.resolve settings.strict f kind (.str path)).outcome = .ok place)
    (hstart : place.start = .unresolved) :
    place.stop = none ∧
      (∀ start, place.srcStart = some start →
        start < 0 ∨ t.lineBreaksFor place.source = .ok none) ∧
      ((∀ node, ¬ t.HasArrayAround place (.str path) node) →
        KeptUnresolved (t.normalize settings f kind (.str path) fatal)) ∧
      ∀ node, t.HasArrayAround place (.str path) node →
        DroppedWith (t.normalize settings f kind (.str path) fatal)
          (.issueSuppressed f.swcId (place.source.orElse (.str path)) node.declaredName) := by
  obtain ⟨hstop, hrange⟩ := range_of_unresolved hplace hstart
  -- the finding has an outcome, since its place is that of the lenient mode
  have houtcome : ∃ m, (t.normalize settings f kind (.str path) fatal).outcome = .ok m := by
    obtain ⟨place', hplace', hpoints⟩ := resolve_pointsTo ht htyped hf kind path
    rw [← resolve_eq_lenient hplace] at hplace'
    obtain rfl : place = place' := Except.ok.inj (hplace.symm.trans hplace')
    exact normalize_of_pointsTo ht htyped hf hplace hpoints fatal
  obtain ⟨m, hm⟩ := houtcome
  obtain ⟨place', dropped, hplace', hdropped, hmessage, -⟩ := normalize_eq_ok hm
  obtain rfl : place = place' := Except.ok.inj (hplace.symm.trans hplace')
  have hnotes := filter_isSuppression_normalize fatal hplace hdropped
  refine ⟨hstop, hrange, ?_, ?_⟩
  · intro hnone
    rcases isSuppressed_eq_ok hdropped with ⟨-, node, hnode, -⟩ | ⟨rfl, -, hquiet⟩
    · exact absurd hnode (hnone node)
    · rcases hmessage with ⟨htrue, -⟩ | ⟨-, msg, hmsg, rfl⟩
      · cases htrue
      · obtain ⟨hmstart, hmstop⟩ := messageAt_positions hmsg
        refine ⟨⟨msg, hm, hmstart.trans hstart, hmstop.trans hstop⟩, ?_⟩
        rw [hnotes, hquiet]
        rfl
  · intro node hnode
    rcases isSuppressed_eq_ok hdropped with ⟨rfl, found, hfound, hnoted⟩ | ⟨-, hnone, -⟩
    · -- there is one innermost declaration, so the one that was found is this one
      obtain rfl : found = node := HasArrayAround.unique hfound hnode
      rcases hmessage with ⟨-, rfl⟩ | ⟨hfalse, -⟩
      · exact ⟨hm, by rw [hnotes, hnoted]; rfl⟩
      · cases hfalse
    · exact absurd hnode (hnone node)

/-- A contract with a syntax tree for its only source, but without its text. The tree is the declaration of a
dynamic array in the first nine characters. -/
def textless : Artifact :=
  { contractName := "A", deployedBytecode := "", bytecode := "", deployedSourceMap := ""
    sourceMap := "", sourceList := ["a.sol"], sources := [⟨"a.sol", .null, innerArray⟩] }

/-- The tables of the contract. -/
def textlessTables : Tables :=
  ⟨textless, ⟨[]⟩, ⟨[]⟩, [], [(.text "a.sol", innerArrayNode)]⟩

theorem textless_build : build textless = .ok textlessTables := by
  have htrees : entriesOf (fun file => Ast.read file.ast) textless.sources
      = .ok textlessTables.trees := rfl
  rw [build, htrees]
  cbv

theorem textless_wellTyped : textless.WellTyped :=
  ⟨⟨by simp [textless], by simp [textless]⟩, by simp [textless]⟩

/-- The place of a finding at a range of the source: without the text, the range is all that is known. -/
def placeAt (start length : Int) : Resolution := ⟨.unresolved, none, some start, length, "a.sol"⟩

/-- Without the text no finding has a position. One behind the array is kept, and one in it is dropped. -/
theorem textless_unresolved :
    KeptUnresolved (textlessTables.normalize ⟨false, true⟩ (findingAt "20:4:0") (some .sourceText)
        (.str "a.sol") false) ∧
      DroppedWith (textlessTables.normalize ⟨false, true⟩ (findingAt "2:3:0") (some .sourceText)
          (.str "a.sol") false)
        (.issueSuppressed "SWC-110" "a.sol" "xs") := by
  have htree : textlessTables.treeFor (.str "a.sol") = .ok (some innerArrayNode) := by cbv
  constructor
  · have hplace : (textlessTables.resolve true (findingAt "20:4:0") (some .sourceText)
        (.str "a.sol")).outcome = .ok (placeAt 20 4) := by cbv
    obtain ⟨-, -, hkept, -⟩ := normalize_of_unresolved textless_build textless_wellTyped ⟨false, true⟩
      (findingAt_wellTyped _) (some .sourceText) "a.sol" false hplace rfl
    refine hkept ?_
    rintro node ⟨start, tree, hstart, htree', hnode, -⟩
    -- the tree has nine characters, and the range starts behind them
    have hbehind : innerArrayNode.enclosing? 20 4 .variableDeclaration = none := by cbv
    obtain rfl : 20 = start := Option.some.inj hstart
    obtain rfl : innerArrayNode = tree := Option.some.inj (Except.ok.inj (htree.symm.trans htree'))
    exact Option.some_ne_none node (hnode.symm.trans hbehind)
  · have hplace : (textlessTables.resolve true (findingAt "2:3:0") (some .sourceText)
        (.str "a.sol")).outcome = .ok (placeAt 2 3) := by cbv
    obtain ⟨-, -, -, hdropped⟩ := normalize_of_unresolved textless_build textless_wellTyped ⟨false, true⟩
      (findingAt_wellTyped _) (some .sourceText) "a.sol" false hplace rfl
    have hinside : innerArrayNode.enclosing? 2 3 .variableDeclaration = some innerArrayNode := by cbv
    exact hdropped innerArrayNode ⟨2, innerArrayNode, rfl, htree, hinside, rfl⟩

/-- So the position alone does not say that a finding is kept, not even where the text of the source is the only
thing that is missing. -/
theorem not_kept_of_unresolved :
    ¬ ∀ (a : Artifact) (t : Tables) (settings : Settings) (f : Finding) (kind : Option LocationKind)
        (path : String) (place : Resolution),
      build a = .ok t → a.WellTyped → f.WellTyped →
      (t.resolve settings.strict f kind (.str path)).outcome = .ok place → place.start = .unresolved →
      KeptUnresolved (t.normalize settings f kind (.str path) false) := by
  intro hall
  have hplace : (textlessTables.resolve false (findingAt "2:3:0") (some .sourceText)
      (.str "a.sol")).outcome = .ok (placeAt 2 3) := by cbv
  obtain ⟨⟨m, hm, -⟩, -⟩ := hall textless textlessTables ⟨false, false⟩ (findingAt "2:3:0")
    (some .sourceText) "a.sol" (placeAt 2 3) textless_build textless_wellTyped (findingAt_wellTyped _)
    hplace rfl
  -- the finding lies in the array
  have hnone : (textlessTables.normalize ⟨false, false⟩ (findingAt "2:3:0") (some .sourceText)
      (.str "a.sol") false).outcome = .ok none := by cbv
  cases Except.ok.inj (hnone.symm.trans hm)

end Pinpoint.Tables
