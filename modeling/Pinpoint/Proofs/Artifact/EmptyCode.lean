import Pinpoint.Batch
import Pinpoint.Proofs.Artifact.Records
import Pinpoint.Proofs.Normalize.Messages

/-!
# Code fields without content

A code field without content may be spelled in several ways: it is left out, or it is null, an empty text or the
bare marker `0x`. None of them may make a difference but for the note that is made of a field that is there.

Cleaning a record is a filter (`withoutEmptyCode_eq`): the code fields without content are left out and each is
noted, in the order of `codeFields`, and everything else stays where it was. It comes about field by field: one
step leaves out the fields of one name (`dropEmpty_eq`), and a step does not touch what the later ones look at
(`foldlM_dropEmpty_eq`). Two records that are spelled differently (`Respelled`) have the same fields left, so what
is read of them is the same, and so is all that comes after it (`alike_of_respelled`).
-/

namespace Pinpoint

namespace Artifact

theorem isEmptyCode_iff {value : Json} :
    isEmptyCode value = true ↔ value = .null ∨ value = .str "" ∨ value = .str "0x" := by
  unfold isEmptyCode
  split
  next => exact iff_of_true rfl (.inl rfl)
  next s => simp
  next hnull htext =>
    refine iff_of_false Bool.false_ne_true ?_
    rintro (rfl | rfl | rfl)
    · exact hnull rfl
    · exact htext _ rfl
    · exact htext _ rfl

/-- Whether a field is one of `names` and has no content. -/
def isEmptyAmong (names : List String) (f : String × Json) : Bool :=
  decide (f.1 ∈ names) && isEmptyCode f.2

/-- The fields of a record, in their order, without the code fields that have no content. -/
def cleaned (record : Json.Fields) : Json.Fields :=
  record.filter fun f => !isEmptyAmong codeFields f

/-- The fields among `names` that a record has, without content. -/
def emptyNames (names : List String) (record : Json.Fields) : List String :=
  names.filter fun field => (Json.Fields.get? record field).any isEmptyCode

/-- What is noted while a record is cleaned. -/
def dropEvents (record : Json.Fields) : List Event :=
  (emptyNames codeFields record).map (.emptyFieldDropped (Json.Fields.getD record "contractName" .null))

/-! ### Cleaning is a filter -/

/-- **One step:** a field without content is left out and noted, and nothing else happens. -/
theorem dropEmpty_eq {fields : Json.Fields} (h : Json.DistinctNames fields) (name : Json) (field : String) :
    dropEmpty name fields field
      = ⟨(emptyNames [field] fields).map (.emptyFieldDropped name),
          .ok (fields.filter fun f => !isEmptyAmong [field] f)⟩ := by
  -- a field of this name is the one that is found
  have hfound : ∀ f ∈ fields, f.1 = field → Json.Fields.get? fields field = some f.2 := by
    rintro f hf rfl
    exact h.get?_of_mem hf
  unfold dropEmpty emptyNames
  cases hvalue : Json.Fields.get? fields field with
  | none =>
    -- no field has this name
    have hkept : fields.filter (fun f => !isEmptyAmong [field] f) = fields := by
      refine List.filter_eq_self.mpr fun f hf => ?_
      have hother : f.1 ≠ field := by
        intro hname
        rw [hfound f hf hname] at hvalue
        cases hvalue
      simp [isEmptyAmong, hother]
    rw [hkept, List.filter_cons_of_neg (by simp [hvalue])]
    rfl
  | some value =>
    dsimp only
    -- all fields of this name, of which there is one, have this value, so they go or stay together
    have hisValue : ∀ f ∈ fields, f.1 = field → f.2 = value := by
      intro f hf hname
      exact Option.some.inj ((hfound f hf hname).symm.trans hvalue)
    split
    next hempty =>
      have hkept : fields.filter (fun f => !isEmptyAmong [field] f) = Json.Fields.erase fields field := by
        refine List.filter_congr fun f hf => ?_
        by_cases hname : f.1 = field
        · simp [isEmptyAmong, hname, hisValue f hf hname, hempty]
        · simp [isEmptyAmong, hname]
      rw [hkept, List.filter_cons_of_pos (by simpa [hvalue] using hempty)]
      rfl
    next hfull =>
      have hkept : fields.filter (fun f => !isEmptyAmong [field] f) = fields := by
        refine List.filter_eq_self.mpr fun f hf => ?_
        by_cases hname : f.1 = field
        · simpa [isEmptyAmong, hname, hisValue f hf hname] using hfull
        · simp [isEmptyAmong, hname]
      rw [hkept, List.filter_cons_of_neg (by simpa [hvalue] using hfull)]
      rfl

/-- What is among the names without content, by the first name. -/
theorem isEmptyAmong_cons (field : String) (names : List String) (f : String × Json) :
    isEmptyAmong (field :: names) f = (isEmptyAmong [field] f || isEmptyAmong names f) := by
  unfold isEmptyAmong
  rw [← Bool.and_or_distrib_right, ← Bool.decide_or]
  simp only [List.mem_cons, List.not_mem_nil, or_false]

/-- **Cleaning, field by field.** A field that has been left out does not hide any of those that are still to be
looked at, as no name is looked at twice. -/
theorem foldlM_dropEmpty_eq (name : Json) {names : List String} (hnames : names.Nodup)
    {fields : Json.Fields} (h : Json.DistinctNames fields) :
    names.foldlM (dropEmpty name) fields
      = ⟨(emptyNames names fields).map (.emptyFieldDropped name),
          .ok (fields.filter fun f => !isEmptyAmong names f)⟩ := by
  induction names generalizing fields with
  | nil =>
    have hkept : fields.filter (fun f => !isEmptyAmong [] f) = fields :=
      List.filter_eq_self.mpr fun f _ => rfl
    rw [hkept]
    rfl
  | cons field names ih =>
    obtain ⟨hnew, hlater⟩ := List.nodup_cons.mp hnames
    have hdistinct : Json.DistinctNames (fields.filter fun f => !isEmptyAmong [field] f) :=
      h.sublist (List.filter_sublist.map _)
    -- the later names are looked up among all fields, with the same answers
    have hsame : emptyNames names (fields.filter fun f => !isEmptyAmong [field] f)
        = emptyNames names fields := by
      refine List.filter_congr fun other hother => ?_
      rw [Json.Fields.get?_filter]
      rintro f - rfl
      have hne : f.1 ≠ field := fun heq => hnew (heq ▸ hother)
      simp [isEmptyAmong, hne]
    have hnotes : emptyNames (field :: names) fields = emptyNames [field] fields ++ emptyNames names fields :=
      List.filter_append [field] names
    have hkept : (fields.filter fun f => !isEmptyAmong [field] f).filter (fun f => !isEmptyAmong names f)
        = fields.filter fun f => !isEmptyAmong (field :: names) f := by
      rw [List.filter_filter]
      refine List.filter_congr fun f _ => ?_
      rw [isEmptyAmong_cons field names, Bool.not_or, Bool.and_comm]
    rw [List.foldlM_cons, dropEmpty_eq h, Trace.bind_of_ok rfl, ih hlater hdistinct, hsame, hkept, hnotes,
      List.map_append]

/-- **A record is cleaned** by leaving out the code fields without content; each is noted, in the order of
`codeFields`. -/
theorem withoutEmptyCode_eq {record : Json.Fields} (h : Json.DistinctNames record)
    (hname : (Json.Fields.getD record "contractName" .null).isBare = false) :
    withoutEmptyCode record = ⟨dropEvents record, .ok (cleaned record)⟩ := by
  have hgiven : (Json.Fields.get? record "contractName").getD (.str "?")
      = Json.Fields.getD record "contractName" .null := by
    unfold Json.Fields.getD at hname ⊢
    cases hvalue : Json.Fields.get? record "contractName" with
    | none =>
      rw [hvalue] at hname
      cases hname
    | some value => rfl
  unfold withoutEmptyCode
  dsimp only
  rw [hgiven]
  exact foldlM_dropEmpty_eq _ (by decide) h

/-- A record with a name is read as its cleaned fields are. -/
theorem read_eq {record : Json.Fields} (h : Json.DistinctNames record)
    (hname : (Json.Fields.getD record "contractName" .null).isBare = false) :
    Artifact.read (.obj record) = ⟨dropEvents record, ofRecord (cleaned record)⟩ := by
  have hnamed : ¬ (Json.Fields.getD record "contractName" .null).isBare = true := by
    intro hbare
    exact Bool.false_ne_true (hname.symm.trans hbare)
  unfold Artifact.read
  dsimp only
  rw [if_neg hnamed, withoutEmptyCode_eq h hname, Trace.bind_of_ok rfl, Trace.lift_notes, List.append_nil]
  rfl

/-! ### Nothing is noted of it later -/

/-- The computation notes of no field that it is left out. -/
abbrev DropsNoField {α : Type} (x : Observed α) : Prop :=
  x.Only fun e => e.kind ≠ .emptyFieldDropped

theorem dropsNoField_normalize (t : Tables) (settings : Settings) (f : Finding) (kind : Option LocationKind)
    (source : Json) (fatal : Bool) : DropsNoField (t.normalize settings f kind source fatal) := by
  have hsuppressed (place : Resolution) : DropsNoField (t.isSuppressed f place source) := by
    unfold Tables.isSuppressed
    split
    · exact Trace.only_pure _
    · refine (Trace.only_lift _).bind fun around => ?_
      split
      · exact Trace.only_pure _
      · refine Trace.only_note_pure ?_ _
        exact Event.Kind.noConfusion
  unfold Tables.normalize
  refine (Tables.only_resolve ?_ t _ f kind source).bind fun place => (hsuppressed place).bind fun dropped => ?_
  · intro offset instruction contract
    exact Event.Kind.noConfusion
  · split
    · exact Trace.only_pure _
    · exact (Trace.only_lift _).bind fun m => Trace.only_pure _

/-- Once a contract is read, no field is left out any more. -/
theorem dropsNoField_analyzeArtifact (settings : Settings) (a : Artifact) (results : Json) :
    DropsNoField (analyzeArtifact settings a results) := by
  have hformat (report : SourceReport) : DropsNoField (Tables.noteUnsupported report) := by
    unfold Tables.noteUnsupported
    split
    · refine Trace.only_note ?_
      exact Event.Kind.noConfusion
    · exact Trace.only_pure _
  have hreport (t : Tables) (report : SourceReport) : DropsNoField (t.normalizeReport settings report) := by
    refine (hformat report).bind fun _ => Trace.Only.bind ?_ fun messages => Trace.only_pure _
    exact Trace.only_mapM (fun f => dropsNoField_normalize t settings f _ _ _) _
  refine (Trace.only_lift _).bind fun t => (Trace.only_lift _).bind fun items => ?_
  exact (Trace.only_lift _).bind fun reports => Trace.only_mapM (hreport t) reports

/-! ### Two spellings of a record -/

/-- A code field that is given without content: as null, as an empty text, or as the bare marker `0x`. -/
def IsEmptyField (f : String × Json) : Prop :=
  f.1 ∈ codeFields ∧ (f.2 = .null ∨ f.2 = .str "" ∨ f.2 = .str "0x")

/-- **Two spellings of a record.** They have the same fields in the same order, except that a code field without
content may stand in either of them, anywhere and in any spelling. -/
inductive Respelled : Json.Fields → Json.Fields → Prop where
  | nil : Respelled [] []
  | keep {r s : Json.Fields} (f : String × Json) : Respelled r s → Respelled (f :: r) (f :: s)
  | left {r s : Json.Fields} {f : String × Json} : IsEmptyField f → Respelled r s → Respelled (f :: r) s
  | right {r s : Json.Fields} {f : String × Json} : IsEmptyField f → Respelled r s → Respelled r (f :: s)

theorem isEmptyAmong_codeFields_iff {f : String × Json} :
    isEmptyAmong codeFields f = true ↔ IsEmptyField f := by
  unfold isEmptyAmong IsEmptyField
  rw [Bool.and_eq_true_iff, decide_eq_true_iff, isEmptyCode_iff]

/-- Of two spellings the same fields are left. -/
theorem cleaned_eq_of_respelled {r s : Json.Fields} (h : Respelled r s) : cleaned r = cleaned s := by
  have hdrop {f : String × Json} (hempty : IsEmptyField f) (rest : Json.Fields) :
      cleaned (f :: rest) = cleaned rest := by
    refine List.filter_cons_of_neg ?_
    rw [isEmptyAmong_codeFields_iff.mpr hempty]
    exact Bool.false_ne_true
  induction h with
  | nil => rfl
  | keep f _ ih =>
    unfold cleaned at ih ⊢
    rw [List.filter_cons, List.filter_cons, ih]
  | left hempty _ ih => rw [hdrop hempty, ih]
  | right hempty _ ih => rw [hdrop hempty, ih]

/-- What is not a code field is the same in two spellings. -/
theorem getD_eq_of_respelled {r s : Json.Fields} (h : Respelled r s) {field : String}
    (hfield : field ∉ codeFields) (default : Json) :
    Json.Fields.getD r field default = Json.Fields.getD s field default := by
  have hkept (record : Json.Fields) : Json.Fields.get? (cleaned record) field
      = Json.Fields.get? record field := by
    refine Json.Fields.get?_filter ?_
    rintro f - rfl
    simp [isEmptyAmong, hfield]
  unfold Json.Fields.getD
  rw [← hkept r, ← hkept s, cleaned_eq_of_respelled h]

/-- The analysis of a contract for the fields that are left of its record. -/
def analyzeFields (settings : Settings) (fields : Json.Fields) (results : Json) : Observed (List FileReport) := do
  let a ← Trace.lift (ofRecord fields)
  analyzeArtifact settings a results

/-- A record is analysed as its cleaned fields are, after what is noted while it is cleaned. -/
theorem analyze_eq {record : Json.Fields} (h : Json.DistinctNames record)
    (hname : (Json.Fields.getD record "contractName" .null).isBare = false) (settings : Settings) (results : Json) :
    AnalysisUnit.analyze settings ⟨.record (.obj record), results⟩
      = ⟨dropEvents record ++ (analyzeFields settings (cleaned record) results).notes,
          (analyzeFields settings (cleaned record) results).outcome⟩ := by
  show Artifact.read (.obj record) >>= (fun a => analyzeArtifact settings a results) = _
  rw [read_eq h hname]
  unfold analyzeFields
  cases ofRecord (cleaned record) with
  | error e => exact Trace.ext (List.append_nil _).symm rfl
  | ok a => rfl

/-- **Two records are alike:** they differ in what is noted when they are cleaned, and in nothing else. -/
structure Alike (r s : Json.Fields) : Prop where
  /-- Each code field that is there without content is noted once, in the order of `codeFields`, and the other
  fields are left as they are. -/
  cleaning : ∀ record ∈ [r, s], withoutEmptyCode record = ⟨dropEvents record, .ok (cleaned record)⟩
  left : cleaned r = cleaned s
  /-- The same contract is read of them, or none for the same reason. -/
  reading : (Artifact.read (.obj r)).outcome = (Artifact.read (.obj s)).outcome
  noting : ∀ record ∈ [r, s], (Artifact.read (.obj record)).notes = dropEvents record
  /-- If what is given is of the right types, a contract is read. -/
  readable : (Json.obj r).IsBuild → (Json.obj r).Everywhere Json.DistinctNames →
    ∃ a, (Artifact.read (.obj r)).outcome = .ok a
  /-- Their analysis ends in the same way, and after the notes of the cleaning the same is noted; none of that is
  about a field that is left out. -/
  analyzing : ∀ settings results, ∃ events outcome, (∀ e ∈ events, e.kind ≠ .emptyFieldDropped) ∧
    ∀ record ∈ [r, s], AnalysisUnit.analyze settings ⟨.record (.obj record), results⟩
      = ⟨dropEvents record ++ events, outcome⟩

/-- **How an empty code field is spelled does not matter.** -/
theorem alike_of_respelled {r s : Json.Fields} (h : Respelled r s) (hr : Json.DistinctNames r)
    (hs : Json.DistinctNames s) (hname : (Json.Fields.getD r "contractName" .null).isBare = false) : Alike r s := by
  have hleft := cleaned_eq_of_respelled h
  have hnameRight : (Json.Fields.getD s "contractName" .null).isBare = false := by
    rwa [← getD_eq_of_respelled h (by decide)]
  -- what is said of a single record holds of both
  have hboth : ∀ record ∈ [r, s], Json.DistinctNames record ∧
      (Json.Fields.getD record "contractName" .null).isBare = false ∧ cleaned record = cleaned r :=
    List.forall_mem_cons.mpr ⟨⟨hr, hname, rfl⟩, List.forall_mem_singleton.mpr ⟨hs, hnameRight, hleft.symm⟩⟩
  constructor
  case cleaning =>
    intro record hrecord
    obtain ⟨hdistinct, hnamed, -⟩ := hboth record hrecord
    exact withoutEmptyCode_eq hdistinct hnamed
  case left => exact hleft
  case reading => rw [read_eq hr hname, read_eq hs hnameRight, hleft]
  case noting =>
    intro record hrecord
    obtain ⟨hdistinct, hnamed, -⟩ := hboth record hrecord
    rw [read_eq hdistinct hnamed]
  case readable =>
    intro hbuild hdistinct
    obtain ⟨a, ha, -⟩ := read_of_isBuild hbuild hdistinct hname
    exact ⟨a, ha⟩
  case analyzing =>
    intro settings results
    have hnone : DropsNoField (analyzeFields settings (cleaned r) results) :=
      (Trace.only_lift _).bind fun a => dropsNoField_analyzeArtifact settings a results
    refine ⟨(analyzeFields settings (cleaned r) results).notes,
      (analyzeFields settings (cleaned r) results).outcome, hnone, fun record hrecord => ?_⟩
    obtain ⟨hdistinct, hnamed, hcleaned⟩ := hboth record hrecord
    rw [analyze_eq hdistinct hnamed settings results, hcleaned]

/-- Two code fields without content, in two spellings. -/
def nullAndMarker : Json.Fields :=
  [("contractName", "A"), ("bytecode", .null), ("sourcePath", "a.sol"), ("deployedSourceMap", "0x")]

/-- The same record with another one. -/
def emptyText : Json.Fields :=
  [("sourceMap", ""), ("contractName", "A"), ("sourcePath", "a.sol")]

theorem nullAndMarker_alike_emptyText :
    Alike nullAndMarker emptyText ∧
      emptyNames codeFields nullAndMarker = ["bytecode", "deployedSourceMap"] ∧
      emptyNames codeFields emptyText = ["sourceMap"] := by
  have hspelled : Respelled nullAndMarker emptyText := by
    refine .right ⟨by decide, .inr (.inl rfl)⟩ (.keep _ (.left ⟨by decide, .inl rfl⟩ (.keep _ ?_)))
    exact .left ⟨by decide, .inr (.inr rfl)⟩ .nil
  exact ⟨alike_of_respelled hspelled (by unfold Json.DistinctNames; decide)
    (by unfold Json.DistinctNames; decide) rfl, by decide, by decide⟩

end Artifact

end Pinpoint
