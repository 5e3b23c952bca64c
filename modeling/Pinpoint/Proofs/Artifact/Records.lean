import Pinpoint.Proofs.Artifact.Decoding
import Pinpoint.Proofs.Artifact.SingleFile
import Pinpoint.Proofs.Ast.Documents

/-!
# Build records of the right types

A build record gives its files either by path, each with a text and a syntax tree, or as the single file that
the record itself is about. What has to be of a type there is what `Json.IsBuild` asks for; nothing of it has to
be given but the name. Such a record can be read, and what is read of it is ready for the analysis
(`Artifact.read_of_isBuild`), if the names of its files are distinct, as they are in every object that was
read from a text.
-/

namespace Pinpoint

/-- What is said of a source file: a text, and a syntax tree in either form, as far as they are given. -/
structure Json.IsSource (entry : Json) : Prop where
  text : entry.fieldOr "source" .null = .null ∨ (entry.fieldOr "source" .null).IsText
  compact : Ast.IsTree (entry.fieldOr "ast" .null)
  legacy : Ast.IsTree (entry.fieldOr "legacyAST" .null)

/-- **A build record of the right types:** it has a name, and its code fields are texts if they are given. If it
lists its files by path, each of them is said something about, and the list of sources holds texts; otherwise
the record is about a single file, whose path is a text. -/
structure Json.IsBuild (build : Json) : Prop where
  object : build.IsObject
  name : (build.fieldOr "contractName" .null).IsText
  code : ∀ field ∈ Artifact.codeFields,
    build.fieldOr field .null = .null ∨ (build.fieldOr field .null).IsText
  several : ∀ files, build.fieldOr "sources" .null = .obj files →
    (∀ f ∈ files, f.2.IsOptionalObject ∧ f.2.IsSource) ∧
      (build.fieldOr "sourceList" .null).IsListOf Json.IsText
  single : (∀ files, build.fieldOr "sources" .null ≠ .obj files) → build.IsSource ∧
    (build.fieldOr "sourcePath" .null = .null ∨ (build.fieldOr "sourcePath" .null).IsText)

/-! ### One file -/

namespace Artifact

theorem exists_breaksOf {text : Json} (h : text = .null ∨ text.IsText) :
    ∃ x, Tables.breaksOf text = .ok x := by
  rcases h with rfl | ⟨s, rfl⟩
  · exact ⟨_, rfl⟩
  · exact ⟨_, rfl⟩

/-- Of the two trees of a file, the one that is taken can be read. -/
theorem treeField_of_isSource {entry : Json} (hobject : entry.IsObject) (h : entry.IsSource) :
    ∃ ast, treeField entry = .ok ast ∧ ∃ x, Ast.read ast = .ok x := by
  refine ⟨(entry.fieldOr "ast" .null).orElse (entry.fieldOr "legacyAST" .null), ?_, ?_⟩
  · unfold treeField
    rw [Json.get_of_isObject hobject, Json.get_of_isObject hobject]
    rfl
  · unfold Json.orElse
    split
    · exact Ast.exists_read h.legacy
    · exact Ast.exists_read h.compact

/-- An entry that gives nothing is as good as one without fields. -/
theorem isSource_orElse {entry : Json} (hobject : entry.IsOptionalObject) (h : entry.IsSource) :
    (entry.orElse (.obj [])).IsObject ∧ (entry.orElse (.obj [])).IsSource := by
  unfold Json.orElse
  split
  next => exact ⟨⟨[], rfl⟩, .inl rfl, Ast.isTree_null, Ast.isTree_null⟩
  next hgiven => exact ⟨hobject.resolve_left hgiven, h⟩

/-- A file of a record with several can be read, under its path. -/
theorem readSource_of_isSource {file : String × Json} (hobject : file.2.IsOptionalObject)
    (h : file.2.IsSource) :
    ∃ f, readSource file = .ok f ∧ f.path = .str file.1 ∧
      (∃ x, Tables.breaksOf f.text = .ok x) ∧ ∃ x, Ast.read f.ast = .ok x := by
  obtain ⟨hentry, hsource⟩ := isSource_orElse hobject h
  obtain ⟨ast, hast, hread⟩ := treeField_of_isSource hentry hsource
  refine ⟨⟨.str file.1, (file.2.orElse (.obj [])).fieldOr "source" .null, ast⟩, ?_, rfl,
    exists_breaksOf hsource.text, hread⟩
  unfold readSource
  dsimp only
  rw [Json.get_of_isObject hentry, hast]
  rfl

/-! ### All files -/

/-- The files of a record, and the list of sources, are of the right types. -/
structure FilesReadable (list : List Json) (files : List SourceFile) : Prop where
  listed : ∀ p ∈ list, p.IsText
  texts : ∀ f ∈ files, f.path.IsText
  distinct : (files.map SourceFile.path).Nodup
  readable : ∀ f ∈ files, (∃ x, Tables.breaksOf f.text = .ok x) ∧ ∃ x, Ast.read f.ast = .ok x

/-- What the files of a record are is not changed by cleaning. -/
theorem readSources_of_cleaned {record cleaned : Json.Fields}
    (hget : ∀ field, field ∉ codeFields →
      Json.Fields.get? cleaned field = Json.Fields.get? record field) :
    readSources cleaned = readSources record := by
  have hfield (field : String) (default : Json) (h : field ∉ codeFields) :
      Json.Fields.getD cleaned field default = Json.Fields.getD record field default := by
    rw [Json.Fields.getD, hget field h, Json.Fields.getD]
  have htree : treeField (.obj cleaned) = treeField (.obj record) := by
    unfold treeField Json.get Json.getD
    rw [Json.get?_obj, Json.get?_obj, Json.get?_obj, Json.get?_obj, hget "ast" (by decide),
      hget "legacyAST" (by decide)]
  unfold readSources
  rw [hfield "sources" _ (by decide), hfield "sourcePath" _ (by decide), hfield "source" _ (by decide),
    hfield "sourceList" _ (by decide), htree]

/-- The files of a record with several can be read. -/
theorem mapM_readSource_of_isSource {entries : Json.Fields}
    (h : ∀ f ∈ entries, f.2.IsOptionalObject ∧ f.2.IsSource) (hdistinct : Json.DistinctNames entries) :
    ∃ files, entries.mapM readSource = .ok files ∧ (∀ f ∈ files, f.path.IsText) ∧
      (files.map SourceFile.path).Nodup ∧
      ∀ f ∈ files, (∃ x, Tables.breaksOf f.text = .ok x) ∧ ∃ x, Ast.read f.ast = .ok x := by
  have hread : ∀ entry ∈ entries, ∃ f, (readSource entry = .ok f ∧ f.path = .str entry.1) ∧
      (∃ x, Tables.breaksOf f.text = .ok x) ∧ ∃ x, Ast.read f.ast = .ok x := by
    intro entry hentry
    obtain ⟨hobject, hsource⟩ := h entry hentry
    obtain ⟨f, hf, hpath, hreadable⟩ := readSource_of_isSource hobject hsource
    exact ⟨f, ⟨hf, hpath⟩, hreadable⟩
  obtain ⟨files, hfiles, hreadable⟩ := List.exists_forall₂_of_forall hread
  have hpaths : files.map SourceFile.path = entries.map fun f => .str f.1 := by
    rw [eq_comm, ← List.forall₂_eq_eq_eq, List.forall₂_map_left_iff, List.forall₂_map_right_iff]
    exact hfiles.imp fun entry f hf => hf.2.symm
  have htexts : ∀ f ∈ files, f.path.IsText := by
    intro f hf
    have hmem : f.path ∈ entries.map fun e => Json.str e.1 := hpaths ▸ List.mem_map_of_mem hf
    obtain ⟨e, -, he⟩ := List.mem_map.mp hmem
    exact ⟨e.1, he.symm⟩
  have hnames : entries.map (fun f => Json.str f.1) = (entries.map (·.1)).map .str := by
    rw [List.map_map]
    rfl
  refine ⟨files, List.mapM_eq_ok.mpr (hfiles.imp fun _ _ hf => hf.1), htexts, ?_, hreadable⟩
  rw [hpaths, hnames]
  exact hdistinct.map fun x y hxy => Json.str.inj hxy

/-- **The files of a record of the right types** can be read. -/
theorem readSources_of_isBuild {record : Json.Fields} (h : (Json.obj record).IsBuild)
    (hdistinct : (Json.obj record).Everywhere Json.DistinctNames) :
    ∃ list files, readSources record = .ok (list, files) ∧ FilesReadable list files := by
  unfold readSources
  split
  next entries hentries =>
    obtain ⟨hsources, hlist⟩ := h.several entries hentries
    have hnames : Json.DistinctNames entries := by
      unfold Json.Fields.getD at hentries
      cases hvalue : Json.Fields.get? record "sources" with
      | none =>
        rw [hvalue] at hentries
        cases hentries
      | some value =>
        rw [hvalue] at hentries
        obtain rfl : value = .obj entries := hentries
        exact (Json.everywhere_obj.mp (hdistinct.get? hvalue)).1
    obtain ⟨files, hfiles, htexts, hpaths, hreadable⟩ := mapM_readSource_of_isSource hsources hnames
    have hlisted : ∃ list, ((Json.Fields.getD record "sourceList" .null).orElse (.obj entries)).elements
        = .ok list ∧ ∀ p ∈ list, p.IsText := by
      have hnamed : ∀ p ∈ entries.map fun f => Json.str f.1, p.IsText := by
        intro p hp
        obtain ⟨f, -, rfl⟩ := List.mem_map.mp hp
        exact ⟨f.1, rfl⟩
      unfold Json.orElse
      split
      next => exact ⟨_, rfl, hnamed⟩
      next hgiven =>
        -- a list that is given is taken as it is
        rcases hlist with hnull | ⟨items, hitems, htext⟩
        · exact absurd (congrArg Json.isBare hnull) hgiven
        · exact ⟨items, congrArg Json.elements hitems, htext⟩
    obtain ⟨list, hlist, hlisted⟩ := hlisted
    rw [hfiles, Except.ok_bind, hlist]
    exact ⟨list, files, rfl, hlisted, htexts, hpaths, hreadable⟩
  next hsingle =>
    obtain ⟨hsource, hpath⟩ := h.single hsingle
    dsimp only
    split
    next =>
      exact ⟨[], [], rfl, fun p hp => absurd hp List.not_mem_nil,
        fun f hf => absurd hf List.not_mem_nil, List.nodup_nil, fun f hf => absurd hf List.not_mem_nil⟩
    next hgiven =>
      have htext : (Json.Fields.getD record "sourcePath" .null).IsText := by
        rcases hpath with hnull | htext
        · exact absurd (congrArg Json.isBare hnull) hgiven
        · exact htext
      obtain ⟨path, hpath⟩ := htext
      obtain ⟨ast, hast, hread⟩ := treeField_of_isSource h.object hsource
      rw [hpath, Json.key_str, hast]
      refine ⟨_, _, rfl, List.forall_mem_singleton.mpr ⟨path, rfl⟩,
        List.forall_mem_singleton.mpr ⟨path, rfl⟩, List.nodup_singleton _, ?_⟩
      exact List.forall_mem_singleton.mpr ⟨exists_breaksOf hsource.text, hread⟩

/-- **A record of the right types** that has a name can be read, and what is read of it is ready for the
analysis. -/
theorem read_of_isBuild {build : Json} (h : build.IsBuild)
    (hdistinct : build.Everywhere Json.DistinctNames)
    (hname : (build.fieldOr "contractName" .null).isBare = false) :
    ∃ a, (Artifact.read build).outcome = .ok a ∧ a.contractName.IsText ∧ a.IsReadable := by
  obtain ⟨record, rfl⟩ := h.object
  obtain ⟨cleaned, hcleaned, hget⟩ := get?_withoutEmptyCode record
  have hkept (field : String) (hfield : field ∉ codeFields) :
      Json.Fields.get? cleaned field = Json.Fields.get? record field := by
    rw [hget, if_neg hfield]
  have hcode (field : String) (hfield : field ∈ codeFields) :
      Json.Fields.getD cleaned field (.str "") = .str ((Json.obj record).codeText field) := by
    refine getD_code ?_ (h.code field hfield)
    rw [hget, if_pos hfield]
  obtain ⟨list, files, hsources, hfiles⟩ := readSources_of_isBuild h hdistinct
  rw [← readSources_of_cleaned hkept] at hsources
  refine ⟨_, read_of_readSources hname hcleaned hsources, ?_, ?_⟩
  · dsimp only
    rw [Json.Fields.getD, hkept "contractName" (by decide)]
    exact h.name
  · exact ⟨⟨_, hcode "deployedBytecode" (by decide)⟩, ⟨_, hcode "deployedSourceMap" (by decide)⟩,
      ⟨⟨hfiles.texts, hfiles.distinct⟩, hfiles.listed⟩, hfiles.readable⟩

end Artifact

end Pinpoint
