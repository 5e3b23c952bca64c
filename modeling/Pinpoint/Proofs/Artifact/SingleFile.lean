import Pinpoint.Proofs.Finding.WellTyped
import Pinpoint.Proofs.Resolution.Reference

/-!
# Build records of one file

A build record is cleaned before it is read: code fields without content are dropped. What is left of the
other fields is what was there (`get?_withoutEmptyCode`). A record that gives a single file by its path and
its text, and no syntax tree, can then be read whatever stands in its code fields, as long as it has a name
(`read_of_isSingleFile`); the contract has the texts of the fields, an empty one where a field was dropped
or missing (`codeText`).
-/

namespace Pinpoint

/-- A build record of a single file without a syntax tree. What the code fields hold does not matter if it is
a text. -/
structure Json.IsSingleFile (build : Json) : Prop where
  object : build.IsObject
  name : (build.fieldOr "contractName" .null).IsText
  code : ∀ field ∈ Artifact.codeFields,
    build.fieldOr field .null = .null ∨ (build.fieldOr field .null).IsText
  path : (build.fieldOr "sourcePath" .null).IsText
  source : (build.fieldOr "source" .null).IsText
  single : ∀ files, build.fieldOr "sources" .null ≠ .obj files
  compact : (build.fieldOr "ast" .null).isBare = true
  legacy : (build.fieldOr "legacyAST" .null).isBare = true

/-- The text of a code field, empty if the field has no content. -/
def Json.codeText (build : Json) (field : String) : String :=
  if Artifact.isEmptyCode (build.fieldOr field .null) then "" else (build.fieldOr field .null).asText

/-! ### Cleaning -/

/-- If only fields of other names are left out, a field has the value that it had. -/
theorem Json.Fields.get?_filter {fields : Json.Fields} {name : String} {keep : String × Json → Bool}
    (h : ∀ f ∈ fields, f.1 = name → keep f = true) :
    Json.Fields.get? (fields.filter keep) name = Json.Fields.get? fields name := by
  induction fields with
  | nil => rfl
  | cons f rest ih =>
    obtain ⟨hf, hrest⟩ := List.forall_mem_cons.mp h
    rw [List.filter_cons]
    split
    next => rw [Json.Fields.get?_cons, Json.Fields.get?_cons, ih hrest]
    next hout =>
      have hne : f.1 ≠ name := fun heq => hout (hf heq)
      rw [Json.Fields.get?_cons, if_neg hne, ih hrest]

theorem Json.Fields.get?_erase_ne (fields : Json.Fields) {name other : String} (h : other ≠ name) :
    Json.Fields.get? (Json.Fields.erase fields name) other = Json.Fields.get? fields other := by
  refine Json.Fields.get?_filter fun f _ hf => ?_
  rw [hf]
  exact decide_eq_true h

namespace Artifact

/-- The value of a field that is cleaned: nothing if it has no content. -/
def cleanedValue (value : Option Json) : Option Json :=
  value.filter fun v => !isEmptyCode v

theorem dropEmpty_outcome (name : Json) (fields : Json.Fields) (field : String) :
    ∃ kept, (dropEmpty name fields field).outcome = .ok kept ∧
      Json.Fields.get? kept field = cleanedValue (Json.Fields.get? fields field) ∧
      ∀ other, other ≠ field → Json.Fields.get? kept other = Json.Fields.get? fields other := by
  unfold dropEmpty
  cases hvalue : Json.Fields.get? fields field with
  | none => exact ⟨fields, rfl, hvalue, fun _ _ => rfl⟩
  | some value =>
    dsimp only
    split
    next hempty =>
      refine ⟨Json.Fields.erase fields field, rfl, ?_, fun other hother => ?_⟩
      · rw [Json.Fields.get?_erase_self, cleanedValue, Option.filter_some, hempty]
        rfl
      · exact Json.Fields.get?_erase_ne fields hother
    next hfull =>
      refine ⟨fields, rfl, ?_, fun _ _ => rfl⟩
      rw [hvalue, cleanedValue, Option.filter_some, Bool.eq_false_of_not_eq_true hfull]
      rfl

theorem cleanedValue_cleanedValue (value : Option Json) :
    cleanedValue (cleanedValue value) = cleanedValue value := by
  unfold cleanedValue
  rw [Option.filter_filter]
  simp only [Bool.and_self]

/-- Dropping fields without content leaves all others, in whatever order it is done. -/
theorem foldlM_dropEmpty_outcome (name : Json) (dropped : List String) (fields : Json.Fields) :
    ∃ kept, (dropped.foldlM (dropEmpty name) fields).outcome = .ok kept ∧
      ∀ field, Json.Fields.get? kept field
        = if field ∈ dropped then cleanedValue (Json.Fields.get? fields field)
          else Json.Fields.get? fields field := by
  induction dropped generalizing fields with
  | nil => exact ⟨fields, rfl, fun field => rfl⟩
  | cons d dropped ih =>
    obtain ⟨once, honce, hself, hother⟩ := dropEmpty_outcome name fields d
    obtain ⟨kept, hkept, hget⟩ := ih once
    refine ⟨kept, ?_, fun field => ?_⟩
    · rw [List.foldlM_cons, Trace.outcome_bind, honce]
      exact hkept
    · rw [hget]
      by_cases hd : field = d
      · -- if the field is to be dropped once more, that changes nothing
        subst hd
        rw [hself, if_pos List.mem_cons_self, cleanedValue_cleanedValue, ite_self]
      · rw [hother field hd]
        simp only [List.mem_cons, hd, false_or]

/-- **A cleaned record** has its code fields as far as they have content, and all others as they were. -/
theorem get?_withoutEmptyCode (record : Json.Fields) :
    ∃ cleaned, (withoutEmptyCode record).outcome = .ok cleaned ∧
      ∀ field, Json.Fields.get? cleaned field
        = if field ∈ codeFields then cleanedValue (Json.Fields.get? record field)
          else Json.Fields.get? record field :=
  foldlM_dropEmpty_outcome _ codeFields record

/-! ### Reading -/

/-- A cleaned code field is the text of the field. -/
theorem getD_code {record cleaned : Json.Fields} {field : String}
    (hvalue : Json.Fields.get? cleaned field = cleanedValue (Json.Fields.get? record field))
    (htyped : (Json.obj record).fieldOr field .null = .null ∨
      ((Json.obj record).fieldOr field .null).IsText) :
    Json.Fields.getD cleaned field (.str "") = .str ((Json.obj record).codeText field) := by
  have hfield : (Json.obj record).fieldOr field .null
      = (Json.Fields.get? record field).getD .null := rfl
  unfold Json.codeText Json.Fields.getD
  rw [hfield] at htyped ⊢
  rw [hvalue]
  cases hget : Json.Fields.get? record field with
  | none => rfl
  | some value =>
    rw [hget, Option.getD_some] at htyped
    rw [Option.getD_some, cleanedValue, Option.filter_some]
    rcases htyped with rfl | ⟨s, rfl⟩
    · rfl
    · cases isEmptyCode (.str s) <;> rfl

/-- The file of a record of a single file; none if the path is empty. -/
theorem readSources_of_single (record : Json.Fields) {path : String}
    (hsingle : ∀ files, Json.Fields.getD record "sources" .null ≠ .obj files)
    (hpath : Json.Fields.getD record "sourcePath" .null = .str path)
    (hcompact : (Json.Fields.getD record "ast" .null).isBare = true)
    (hlegacy : (Json.Fields.getD record "legacyAST" .null).isBare = true) :
    readSources record = .ok ([], []) ∨ ∃ ast, ast.isBare = true ∧
      readSources record
        = .ok ([.str path], [⟨.str path, Json.Fields.getD record "source" .null, ast⟩]) := by
  have htree : ∃ ast, treeField (.obj record) = .ok ast ∧ ast.isBare = true := by
    refine ⟨(Json.Fields.getD record "ast" .null).orElse (Json.Fields.getD record "legacyAST" .null), rfl, ?_⟩
    rw [Json.orElse, if_pos hcompact, hlegacy]
  obtain ⟨ast, htree, hbare⟩ := htree
  unfold readSources
  split
  next files hfiles => exact absurd hfiles (hsingle files)
  next =>
    rw [hpath]
    dsimp only
    split
    next => exact .inl rfl
    next =>
      rw [Json.key_str, htree]
      exact .inr ⟨ast, hbare, rfl⟩

/-- A record with a name is read as what its cleaned fields say. -/
theorem read_of_readSources {record cleaned : Json.Fields}
    (hname : (Json.Fields.getD record "contractName" .null).isBare = false)
    (hcleaned : (withoutEmptyCode record).outcome = .ok cleaned) {list : List Json}
    {files : List SourceFile} (hsources : readSources cleaned = .ok (list, files)) :
    (Artifact.read (.obj record)).outcome = .ok
      ⟨Json.Fields.getD cleaned "contractName" .null, Json.Fields.getD cleaned "deployedBytecode" (.str ""),
        Json.Fields.getD cleaned "bytecode" (.str ""), Json.Fields.getD cleaned "deployedSourceMap" (.str ""),
        Json.Fields.getD cleaned "sourceMap" (.str ""), list, files⟩ := by
  have hnamed : ¬ (Json.Fields.getD record "contractName" .null).isBare = true := by
    intro hbare
    exact Bool.false_ne_true (hname.symm.trans hbare)
  unfold Artifact.read
  dsimp only
  rw [if_neg hnamed, Trace.outcome_bind]
  exact Except.bind_eq_ok.mpr ⟨cleaned, hcleaned, Except.bind_eq_ok.mpr ⟨_, hsources, rfl⟩⟩

/-- What is read of a record of a single file. -/
structure ReadFrom (a : Artifact) (build : Json) : Prop where
  contractName : a.contractName = build.fieldOr "contractName" .null
  deployedBytecode : a.deployedBytecode = .str (build.codeText "deployedBytecode")
  deployedSourceMap : a.deployedSourceMap = .str (build.codeText "deployedSourceMap")
  wellTyped : a.WellTyped
  files : ∀ f ∈ a.sources, f.path.IsText ∧ f.text.IsText ∧ f.ast.isBare = true

/-- **A record of a single file can be read** if it has a name. -/
theorem read_of_isSingleFile {build : Json} (h : build.IsSingleFile)
    (hname : (build.fieldOr "contractName" .null).isBare = false) :
    ∃ a, (Artifact.read build).outcome = .ok a ∧ a.ReadFrom build := by
  obtain ⟨record, rfl⟩ := h.object
  obtain ⟨cleaned, hcleaned, hget⟩ := get?_withoutEmptyCode record
  -- the cleaned record has the code fields as texts, and what is asked of the others still holds of it
  have hkept (field : String) (default : Json) (hfield : field ∉ codeFields) :
      Json.Fields.getD cleaned field default = Json.Fields.getD record field default := by
    rw [Json.Fields.getD, hget, if_neg hfield, Json.Fields.getD]
  have hcode (field : String) (hfield : field ∈ codeFields) :
      Json.Fields.getD cleaned field (.str "") = .str ((Json.obj record).codeText field) := by
    refine getD_code ?_ (h.code field hfield)
    rw [hget, if_pos hfield]
  obtain ⟨path, hpath⟩ := h.path
  obtain ⟨text, htext⟩ := h.source
  have hsource : Json.Fields.getD cleaned "source" .null = .str text := by
    rw [hkept "source" .null (by decide)]
    exact htext
  have hfiles := readSources_of_single cleaned
    (by rw [hkept "sources" .null (by decide)]; exact h.single)
    (by rw [hkept "sourcePath" .null (by decide)]; exact hpath)
    (by rw [hkept "ast" .null (by decide)]; exact h.compact)
    (by rw [hkept "legacyAST" .null (by decide)]; exact h.legacy)
  rcases hfiles with hnone | ⟨ast, hbare, hone⟩
  · -- without a path there are no files
    refine ⟨_, read_of_readSources hname hcleaned hnone, ?_, hcode _ (by decide), hcode _ (by decide), ?_, ?_⟩
    · exact hkept "contractName" .null (by decide)
    · exact ⟨⟨by simp, by simp⟩, by simp⟩
    · simp
  · rw [hsource] at hone
    refine ⟨_, read_of_readSources hname hcleaned hone, ?_, hcode _ (by decide), hcode _ (by decide), ?_, ?_⟩
    · exact hkept "contractName" .null (by decide)
    · exact ⟨⟨by simp, by simp⟩, by simp⟩
    · exact List.forall_mem_singleton.mpr ⟨⟨path, rfl⟩, ⟨text, rfl⟩, hbare⟩

/-- A record without a name cannot be read. -/
theorem read_of_nameless {build : Json} (h : build.IsObject)
    (hname : (build.fieldOr "contractName" .null).isBare = true) :
    (Artifact.read build).outcome = .error .noContractName := by
  obtain ⟨record, rfl⟩ := h
  have hnameless : (Json.Fields.getD record "contractName" .null).isBare = true := hname
  unfold Artifact.read
  dsimp only
  rw [if_pos hnameless]
  rfl

end Artifact

end Pinpoint
