import Pinpoint.Proofs.Tables.SourceFiles

/-!
# When the look-ups of a path stay with one file

A path names a file of a contract: the one under the very path, or else the only one with the same last
component (`nearest`). `Tables.KeepsFilesApart` says of a path that both of its look-ups give what this
file has, and nothing if it has nothing.

The tables do not quite work like that. Each is searched among the files that *have* a text, or a tree
(`fileFor_eq_nearest`), so a file that lacks one is as good as absent, and another file of the same last
component may stand in for it. `Borrows` describes this: the path has no text of its own, several files
have its last component, and exactly one of these has a text. It is the only way in which a look-up leaves
its file (`readFile?_nearest_iff`), and `keepsFilesApart_iff` puts the two tables together.
-/

namespace Pinpoint

variable {α : Type}

/-- The sources are a table by path: the paths are texts, and none is listed twice. -/
structure Artifact.KeyedByPath (a : Artifact) : Prop where
  texts : ∀ f ∈ a.sources, ∃ s, f.path = .str s
  distinct : (a.sources.map SourceFile.path).Nodup

namespace SourceFile

/-- The path, if it is a text. -/
def pathText (f : SourceFile) : String :=
  match f.path with
  | .str s => s
  | _ => ""

/-- The file stands under a path. -/
def isAt (path : String) (f : SourceFile) : Bool := f.pathText = path

/-- The file has the last component of a path. -/
def isNamesake (path : String) (f : SourceFile) : Bool :=
  Text.basename f.pathText = Text.basename path

theorem pathText_of_path {f : SourceFile} {s : String} (h : f.path = .str s) : f.pathText = s := by
  simp [pathText, h]

end SourceFile

/-- The only element of a list. -/
def single? : List α → Option α
  | [a] => some a
  | _ => none

/-- The file that a path names among some files: the one under the very path, or else the only one with
the same last component. -/
def nearest (files : List SourceFile) (path : String) : Option SourceFile :=
  (files.find? (SourceFile.isAt path)).or (single? (files.filter (SourceFile.isNamesake path)))

theorem SourceFile.of_find?_isAt {files : List SourceFile} {path : String} {f : SourceFile}
    (h : files.find? (SourceFile.isAt path) = some f) : f ∈ files ∧ f.pathText = path := by
  refine ⟨List.mem_of_find?_eq_some h, ?_⟩
  simpa [SourceFile.isAt] using List.find?_some h

/-! ### Look-ups of texts -/

namespace Tables

theorem fileTable_eq {has : SourceFile → Bool} {files : List SourceFile}
    (htexts : ∀ f ∈ files, ∃ s, f.path = .str s) :
    fileTable has files = .ok ((files.filter has).map fun f => (.text f.pathText, f)) := by
  unfold fileTable
  induction files with
  | nil => rfl
  | cons f files ih =>
    obtain ⟨s, hs⟩ := htexts f List.mem_cons_self
    have htail := ih fun g hg => htexts g (List.mem_cons_of_mem f hg)
    rw [entriesOf, htail, hs, List.filter_cons]
    cases has f <;> simp [bind, Except.bind, pure, Except.pure, SourceFile.pathText_of_path hs]

theorem entriesNamed_texts (path : String) (files : List SourceFile) :
    entriesNamed (Text.basename path) (files.map fun f => (Json.Key.text f.pathText, f))
      = .ok (files.filter (SourceFile.isNamesake path)) := by
  induction files with
  | nil => rfl
  | cons f files ih =>
    rw [List.map_cons, entriesNamed, ih, List.filter_cons]
    simp only [pathOf, bind, Except.bind, pure, Except.pure, SourceFile.isNamesake,
      decide_eq_true_eq]

/-- In a table by path a look-up finds the nearest file. -/
theorem lookup_texts (files : List SourceFile) (path : String) :
    lookup (files.map fun f => (Json.Key.text f.pathText, f)) (.str path)
      = .ok (nearest files path) := by
  have hfind : (files.map fun f => (Json.Key.text f.pathText, f)).find?
        (fun e => decide (e.1 = Json.Key.text path))
      = (files.find? (SourceFile.isAt path)).map fun f => (Json.Key.text f.pathText, f) := by
    rw [List.find?_map]
    congr 2
    funext f
    simp [SourceFile.isAt]
  unfold lookup nearest
  rw [Json.key_str]
  simp only [bind, Except.bind, hfind, Json.text_str, entriesNamed_texts]
  cases files.find? (SourceFile.isAt path) with
  | some f => rfl
  | none =>
    rw [Option.map_none, Option.none_or]
    dsimp only
    -- the look-up takes the entry only if the list of namesakes has exactly one
    rcases files.filter (SourceFile.isNamesake path) with _ | ⟨f, _ | ⟨g, fs⟩⟩ <;> rfl

end Tables

/-- **The file behind a table** is the nearest one among those with the property. -/
theorem Artifact.fileFor_eq_nearest {a : Artifact} (h : a.KeyedByPath) (has : SourceFile → Bool)
    (path : String) : a.fileFor has (.str path) = .ok (nearest (a.sources.filter has) path) := by
  rw [fileFor, Tables.fileTable_eq h.texts]
  exact Tables.lookup_texts _ path

/-! ### Borrowing -/

/-- A look-up of a path **borrows**: no file under the path has the property, the last component belongs to
several files, and exactly one of these has the property. -/
def Borrows (has : SourceFile → Bool) (files : List SourceFile) (path : String) : Prop :=
  (∀ f ∈ files, f.pathText = path → has f = false) ∧
    1 < (files.filter (SourceFile.isNamesake path)).length ∧
    ((files.filter has).filter (SourceFile.isNamesake path)).length = 1

theorem single?_eq_none {xs : List α} : single? xs = none ↔ xs.length ≠ 1 := by
  rcases xs with _ | ⟨a, _ | ⟨b, xs⟩⟩ <;> simp [single?]

theorem mem_of_single? {xs : List α} {a : α} (h : single? xs = some a) : a ∈ xs := by
  unfold single? at h
  split at h
  · simpa using h.symm
  · cases h

section Nearest

variable {read : SourceFile → Except Error (Option α)} {has : SourceFile → Bool}
  {files : List SourceFile} {path : String}

/-- A file is nearest under its path as long as it has the property. -/
theorem nearest_filter_of_has {f : SourceFile} (hf : files.find? (SourceFile.isAt path) = some f)
    (hhas : has f = true) : nearest (files.filter has) path = nearest files path := by
  have hfilter : (files.filter has).find? (SourceFile.isAt path) = some f := by
    -- filtering keeps `f` and adds nothing before it
    obtain ⟨hat, before, after, rfl, hbefore⟩ := List.find?_eq_some_iff_append.mp hf
    refine List.find?_eq_some_iff_append.mpr
      ⟨hat, before.filter has, after.filter has, ?_, fun g hg => hbefore g (List.mem_filter.mp hg).1⟩
    rw [List.filter_append, List.filter_cons_of_pos hhas]
  rw [nearest, nearest, hf, hfilter, Option.some_or, Option.some_or]

/-- What is read by the only file of some is nothing exactly if there is no such file. -/
theorem readFile?_single?_eq_none {fs : List SourceFile}
    (hread : ∀ f ∈ fs, ∃ a, read f = .ok (some a)) :
    Tables.readFile? read (single? fs) = .ok none ↔ fs.length ≠ 1 := by
  rw [← single?_eq_none]
  cases hs : single? fs with
  | none => simp [Tables.readFile?]
  | some f =>
    obtain ⟨a, ha⟩ := hread f (mem_of_single? hs)
    simp [Tables.readFile?, ha]

/-- Where at most one file has the last component, nothing changes when the files without the property
are left out. -/
theorem readFile?_single?_filter {fs : List SourceFile} (hlen : fs.length ≤ 1)
    (hread : ∀ f ∈ fs, has f = false → read f = .ok none) :
    Tables.readFile? read (single? (fs.filter has)) = Tables.readFile? read (single? fs) := by
  rcases fs with _ | ⟨f, _ | ⟨g, fs⟩⟩
  · rfl
  · -- the only file either stays or is read as nothing
    cases hhas : has f with
    | true => rw [List.filter_singleton, hhas]; rfl
    | false =>
      rw [List.filter_singleton, hhas]
      exact (hread f List.mem_cons_self hhas).symm
  · simp at hlen

/-- A path without a file of its own in the table is looked up by its last component. -/
theorem nearest_filter_eq_single? (hown : ∀ f ∈ files, f.pathText = path → has f = false) :
    nearest (files.filter has) path
      = single? ((files.filter (SourceFile.isNamesake path)).filter has) := by
  have hfind : (files.filter has).find? (SourceFile.isAt path) = none := by
    refine List.find?_eq_none.mpr fun f hf => ?_
    obtain ⟨hmem, hhas⟩ := List.mem_filter.mp hf
    simp only [SourceFile.isAt, decide_eq_true_eq]
    intro hpath
    rw [hown f hmem hpath] at hhas
    cases hhas
  rw [nearest, hfind, Option.none_or, List.filter_comm]

/-- A path whose last component belongs to at most one file names that file. -/
theorem nearest_eq_single? (hfew : (files.filter (SourceFile.isNamesake path)).length ≤ 1) :
    nearest files path = single? (files.filter (SourceFile.isNamesake path)) := by
  rw [nearest]
  cases hfind : files.find? (SourceFile.isAt path) with
  | none => rw [Option.none_or]
  | some g =>
    obtain ⟨hfile, hg⟩ := SourceFile.of_find?_isAt hfind
    have hmem : g ∈ files.filter (SourceFile.isNamesake path) :=
      List.mem_filter.mpr ⟨hfile, by simp [SourceFile.isNamesake, hg]⟩
    -- the file under the path is a namesake of itself, and so the only one
    rcases hfs : files.filter (SourceFile.isNamesake path) with _ | ⟨f, _ | ⟨f', fs⟩⟩
    · rw [hfs] at hmem
      cases hmem
    · rw [hfs, List.mem_singleton] at hmem
      rw [hmem]
      rfl
    · rw [hfs] at hfew
      simp at hfew

/-- Where several files have the last component, a path without a file of its own gives nothing. -/
theorem readFile?_nearest_eq_none (hown : ∀ f ∈ files, f.pathText = path → has f = false)
    (hnone : ∀ f ∈ files, has f = false → read f = .ok none)
    (hmany : 1 < (files.filter (SourceFile.isNamesake path)).length) :
    Tables.readFile? read (nearest files path) = .ok none := by
  rw [nearest]
  cases hfind : files.find? (SourceFile.isAt path) with
  | some g =>
    obtain ⟨hmem, hg⟩ := SourceFile.of_find?_isAt hfind
    exact hnone g hmem (hown g hmem hg)
  | none =>
    rw [Option.none_or, single?_eq_none.mpr (by omega)]
    rfl

/-- **Only borrowing leads astray.** What is read from the nearest file among those with the property is
what is read from the nearest file among all, unless the look-up borrows. -/
theorem readFile?_nearest_iff
    (hdistinct : ∀ f ∈ files, ∀ g ∈ files, f.pathText = g.pathText → f = g)
    (hnone : ∀ f ∈ files, has f = false → read f = .ok none)
    (hsome : ∀ f ∈ files, has f = true → ∃ a, read f = .ok (some a)) :
    Tables.readFile? read (nearest (files.filter has) path)
        = Tables.readFile? read (nearest files path)
      ↔ ¬ Borrows has files path := by
  by_cases hown : ∀ f ∈ files, f.pathText = path → has f = false
  · -- the table has nothing under the path, so its namesakes in the table decide
    rw [nearest_filter_eq_single? hown]
    by_cases hmany : 1 < (files.filter (SourceFile.isNamesake path)).length
    · -- among all files there is none to take, so a single one in the table is borrowed
      rw [readFile?_nearest_eq_none hown hnone hmany, readFile?_single?_eq_none]
      · unfold Borrows
        rw [List.filter_comm]
        exact ⟨fun hne h => hne h.2.2, fun h hone => h ⟨hown, hmany, hone⟩⟩
      · intro f hf
        obtain ⟨hmem, hhas⟩ := List.mem_filter.mp hf
        exact hsome f (List.mem_filter.mp hmem).1 hhas
    · rw [nearest_eq_single? (by omega), readFile?_single?_filter (by omega)]
      · exact ⟨fun _ h => hmany h.2.1, fun _ => rfl⟩
      · exact fun f hf => hnone f (List.mem_filter.mp hf).1
  · -- the file of the path is in the table, and so it is the nearest one there as well
    have hnot : ¬ Borrows has files path := fun h => hown h.1
    push Not at hown
    obtain ⟨f, hf, hpath, hhas⟩ := hown
    refine ⟨fun _ => hnot, fun _ => ?_⟩
    cases hfind : files.find? (SourceFile.isAt path) with
    | none => exact absurd hpath (by simpa [SourceFile.isAt] using List.find?_eq_none.mp hfind f hf)
    | some g =>
      obtain ⟨hmem, hg⟩ := SourceFile.of_find?_isAt hfind
      obtain rfl := hdistinct f hf g hmem (hpath.trans hg.symm)
      rw [nearest_filter_of_has hfind (by simpa using hhas)]

end Nearest

/-! ### Both tables of a contract -/

namespace Tables

/-- A look-up of both tables gives what a file has. -/
def GivesThatOf (t : Tables) (path : String) (file : Option SourceFile) : Prop :=
  t.lineBreaksFor (.str path) = readFile? (fun f => breaksOf f.text) file ∧
    t.treeFor (.str path) = readFile? (fun f => Ast.read f.ast) file

/-- **A path keeps to one file.** For the path of a file both tables give what this very file has. For
another path both give what the only file with the same last component has, and nothing if there is no
such file or more than one. -/
structure KeepsFilesApart (t : Tables) (path : String) : Prop where
  own : ∀ f ∈ t.artifact.sources, f.path = .str path → t.GivesThatOf path (some f)
  only : (∀ f ∈ t.artifact.sources, f.path ≠ .str path) →
    ∀ f, t.artifact.sources.filter (SourceFile.isNamesake path) = [f] → t.GivesThatOf path (some f)
  otherwise : (∀ f ∈ t.artifact.sources, f.path ≠ .str path) →
    (t.artifact.sources.filter (SourceFile.isNamesake path)).length ≠ 1 → t.GivesThatOf path none

variable {a : Artifact} {t : Tables}

theorem path_eq_iff (hkeyed : a.KeyedByPath) {f : SourceFile} (hf : f ∈ a.sources)
    {path : String} : f.path = .str path ↔ f.pathText = path := by
  obtain ⟨s, hs⟩ := hkeyed.texts f hf
  rw [SourceFile.pathText_of_path hs, hs, Json.str.injEq]

theorem eq_of_pathText_eq (hkeyed : a.KeyedByPath) : ∀ f ∈ a.sources, ∀ g ∈ a.sources,
    f.pathText = g.pathText → f = g := by
  intro f hf g hg hpath
  obtain ⟨s, hs⟩ := hkeyed.texts g hg
  rw [SourceFile.pathText_of_path hs, ← path_eq_iff hkeyed hf, ← hs] at hpath
  exact List.inj_on_of_nodup_map hkeyed.distinct hf hg hpath

/-- A path keeps to one file exactly if both tables give what the nearest of all files has. -/
theorem keepsFilesApart_iff_nearest (hkeyed : t.artifact.KeyedByPath) (path : String) :
    t.KeepsFilesApart path ↔ t.GivesThatOf path (nearest t.artifact.sources path) := by
  cases hfind : t.artifact.sources.find? (SourceFile.isAt path) with
  | some g =>
    obtain ⟨hmem, hg⟩ := SourceFile.of_find?_isAt hfind
    have hpath := (path_eq_iff hkeyed hmem).mpr hg
    rw [nearest, hfind, Option.some_or]
    -- only `own` says anything about the path of a file
    refine ⟨fun h => h.own g hmem hpath, fun h => ⟨fun f hf hfpath => ?_, fun hno => ?_,
      fun hno => ?_⟩⟩
    · rw [path_eq_iff hkeyed hf, ← hg] at hfpath
      rw [eq_of_pathText_eq hkeyed f hf g hmem hfpath]
      exact h
    · exact absurd hpath (hno g hmem)
    · exact absurd hpath (hno g hmem)
  | none =>
    have hno : ∀ f ∈ t.artifact.sources, f.path ≠ .str path := fun f hf hpath => by
      have := List.find?_eq_none.mp hfind f hf
      simp [SourceFile.isAt, (path_eq_iff hkeyed hf).mp hpath] at this
    rw [nearest, hfind, Option.none_or]
    constructor
    · intro h
      -- no namesake, one, or several
      rcases hfs : t.artifact.sources.filter (SourceFile.isNamesake path) with
        _ | ⟨f, _ | ⟨g, fs⟩⟩
      · exact h.otherwise hno (by simp [hfs])
      · exact h.only hno f hfs
      · exact h.otherwise hno (by simp [hfs])
    · intro h
      refine ⟨fun f hf hpath => absurd hpath (hno f hf), fun _ f hfs => ?_, fun _ hlen => ?_⟩
      · rw [hfs] at h
        exact h
      · rw [single?_eq_none.mpr hlen] at h
        exact h

/-- A table that could be built is read from every file, and gives something where it should. -/
theorem read_cases {read : SourceFile → Except Error (Option α)} {has : SourceFile → Bool}
    (hread : ReadsWhere read has) {table : List (Json.Key × α)}
    (h : entriesOf read a.sources = .ok table) :
    (∀ f ∈ a.sources, has f = false → read f = .ok none) ∧
      ∀ f ∈ a.sources, has f = true → ∃ x, read f = .ok (some x) := by
  constructor
  · intro f hf hhas
    obtain ⟨x, hx⟩ := read_of_entriesOf_eq_ok h hf
    rw [← hread f x hx] at hhas
    rw [hx, Option.isNone_iff_eq_none.mp (Option.isSome_eq_false_iff.mp hhas)]
  · intro f hf hhas
    obtain ⟨x, hx⟩ := read_of_entriesOf_eq_ok h hf
    rw [← hread f x hx] at hhas
    obtain ⟨y, rfl⟩ := Option.isSome_iff_exists.mp hhas
    exact ⟨y, hx⟩

/-- **When the tables cross files.** Both look-ups of a path keep to the file that the path names, unless
one of them borrows from another file with the same last component. -/
theorem keepsFilesApart_iff (hkeyed : a.KeyedByPath) (ht : build a = .ok t) (path : String) :
    t.KeepsFilesApart path
      ↔ ¬ Borrows SourceFile.hasText a.sources path ∧ ¬ Borrows SourceFile.hasTree a.sources path := by
  obtain ⟨rfl, -, -, hbreaks, htrees⟩ := build_eq_ok ht
  obtain ⟨hnotext, htext⟩ := read_cases breaksOf_readsWhere hbreaks
  obtain ⟨hnotree, htree⟩ := read_cases read_readsWhere htrees
  have hdistinct := eq_of_pathText_eq hkeyed
  rw [keepsFilesApart_iff_nearest hkeyed, GivesThatOf, lineBreaksFor_eq ht, treeFor_eq ht,
    Artifact.fileFor_eq_nearest hkeyed, Artifact.fileFor_eq_nearest hkeyed,
    ← readFile?_nearest_iff hdistinct hnotext htext, ← readFile?_nearest_iff hdistinct hnotree htree]
  rfl

/-- Two files of one name, of which only the first has a text. -/
def sameNames : Artifact :=
  { contractName := "A", deployedBytecode := "", bytecode := "", deployedSourceMap := ""
    sourceMap := "", sourceList := []
    sources := [⟨"x/a.sol", "1\n", .null⟩, ⟨"y/a.sol", .null, .null⟩] }

/-- The file without a text is given the line breaks of the other one. -/
theorem sameNames_crosses : sameNames.KeyedByPath ∧
    build sameNames = .ok ⟨sameNames, ⟨[]⟩, ⟨[]⟩, [(.text "x/a.sol", [1])], []⟩ ∧
    ¬ KeepsFilesApart ⟨sameNames, ⟨[]⟩, ⟨[]⟩, [(.text "x/a.sol", [1])], []⟩ "y/a.sol" := by
  have hkeyed : sameNames.KeyedByPath := ⟨by simp [sameNames], by simp [sameNames]⟩
  have hbuild : build sameNames = .ok ⟨sameNames, ⟨[]⟩, ⟨[]⟩, [(.text "x/a.sol", [1])], []⟩ := by
    cbv
  refine ⟨hkeyed, hbuild, fun h => ?_⟩
  -- the path has no text of its own, two files have its name, and one of them has a text
  refine ((keepsFilesApart_iff hkeyed hbuild "y/a.sol").mp h).1 ⟨?_, by decide, by decide⟩
  simp [sameNames, SourceFile.pathText, SourceFile.hasText]

end Tables

end Pinpoint
