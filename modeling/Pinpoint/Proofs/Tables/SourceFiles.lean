import Pinpoint.Artifact.Tables
import Pinpoint.Proofs.Trace

/-!
# The file behind a look-up

The line breaks and the syntax trees of a contract are two tables, each with entries for the files that
have a text or a tree. Here a look-up in such a table is traced back to a file: entry for entry, a table
holds what is read from the files with a property (`entriesOf_eq_ok`), so looking up a path gives what is
read from the file that the same look-up finds in the table of these files (`lookup_entries`).

`Artifact.fileFor` is that file. Whether a table could be built, and whether a path can be looked up at
all, is the same for files as for what is read from them.
-/

namespace Pinpoint

variable {α : Type}

namespace SourceFile

/-- The file has a text. -/
def hasText (f : SourceFile) : Bool :=
  match f.text with
  | .null => false
  | _ => true

/-- The file has a syntax tree. -/
def hasTree (f : SourceFile) : Bool := !f.ast.isBare

end SourceFile

/-! ### Tables of files -/

namespace Tables

/-- The files with a property, by path. -/
def fileTable (has : SourceFile → Bool) (files : List SourceFile) :
    Except Error (List (Json.Key × SourceFile)) :=
  entriesOf (fun f => .ok (if has f then some f else none)) files

/-- What is read from a file, if there is one. -/
def readFile? (read : SourceFile → Except Error (Option α)) :
    Option SourceFile → Except Error (Option α)
  | none => .ok none
  | some f => read f

/-- A reading of files gives something exactly for those with a property. -/
def ReadsWhere (read : SourceFile → Except Error (Option α)) (has : SourceFile → Bool) : Prop :=
  ∀ f x, read f = .ok x → x.isSome = has f

theorem breaksOf_readsWhere : ReadsWhere (fun f => breaksOf f.text) SourceFile.hasText := by
  intro f x h
  unfold SourceFile.hasText
  unfold breaksOf at h
  dsimp only at h
  split at h
  next hnull =>
    obtain rfl := Except.ok.inj h
    simp [hnull]
  next s hs =>
    obtain rfl := Except.ok.inj h
    simp [hs]
  next hnull _ =>
    obtain ⟨items, -, rfl⟩ := Except.map_eq_ok.mp h
    split
    next htext => exact absurd htext hnull
    next => rfl

theorem read_readsWhere : ReadsWhere (fun f => Ast.read f.ast) SourceFile.hasTree := by
  intro f x h
  unfold SourceFile.hasTree
  unfold Ast.read at h
  dsimp only at h
  split at h
  next hbare =>
    obtain rfl := Except.ok.inj h
    simp [hbare]
  next hbare =>
    split at h <;>
      · obtain ⟨tree, -, rfl⟩ := Except.map_eq_ok.mp h
        simp [hbare]

/-- An entry of a table was read from the file that stands at its place in the table of files. -/
def EntryOf (read : SourceFile → Except Error (Option α)) (e : Json.Key × α)
    (g : Json.Key × SourceFile) : Prop :=
  e.1 = g.1 ∧ read g.2 = .ok (some e.2)

/-- **Tables hold files.** A table that could be built has, entry for entry, what is read from the files
with the property. -/
theorem entriesOf_eq_ok {read : SourceFile → Except Error (Option α)} {has : SourceFile → Bool}
    (hread : ReadsWhere read has) {files : List SourceFile} {table : List (Json.Key × α)}
    (h : entriesOf read files = .ok table) :
    ∃ ft, fileTable has files = .ok ft ∧ List.Forall₂ (EntryOf read) table ft := by
  induction files generalizing table with
  | nil =>
    obtain rfl := Except.ok.inj h
    exact ⟨[], rfl, .nil⟩
  | cons f files ih =>
    obtain ⟨key, hkey, h⟩ := Except.bind_eq_ok.mp h
    obtain ⟨x, hx, h⟩ := Except.bind_eq_ok.mp h
    obtain ⟨others, hothers, h⟩ := Except.bind_eq_ok.mp h
    obtain ⟨ft, hft, hrel⟩ := ih hothers
    have hhas := hread f x hx
    unfold fileTable at hft ⊢
    -- the file makes an entry in both tables or in neither
    rw [entriesOf, hkey, hft, ← hhas]
    cases x with
    | none =>
      obtain rfl := Except.pure_eq_ok.mp h
      exact ⟨ft, rfl, hrel⟩
    | some a =>
      obtain rfl := Except.pure_eq_ok.mp h
      exact ⟨(key, f) :: ft, rfl, .cons ⟨rfl, hx⟩ hrel⟩

/-- Every file of a table that could be built can be read. -/
theorem read_of_entriesOf_eq_ok {read : SourceFile → Except Error (Option α)}
    {files : List SourceFile} {table : List (Json.Key × α)} (h : entriesOf read files = .ok table)
    {f : SourceFile} (hf : f ∈ files) : ∃ x, read f = .ok x := by
  induction files generalizing table with
  | nil => cases hf
  | cons g files ih =>
    obtain ⟨key, hkey, h⟩ := Except.bind_eq_ok.mp h
    obtain ⟨x, hx, h⟩ := Except.bind_eq_ok.mp h
    obtain ⟨others, hothers, -⟩ := Except.bind_eq_ok.mp h
    rcases List.mem_cons.mp hf with rfl | hf
    · exact ⟨x, hx⟩
    · exact ih hothers hf

/-! ### Looking up a path -/

section Lookup

variable {read : SourceFile → Except Error (Option α)} {table : List (Json.Key × α)}
  {ft : List (Json.Key × SourceFile)}

theorem find?_entries (h : List.Forall₂ (EntryOf read) table ft) (key : Json.Key) :
    (table.find? (·.1 = key) = none ∧ ft.find? (·.1 = key) = none) ∨
      ∃ e g, table.find? (·.1 = key) = some e ∧ ft.find? (·.1 = key) = some g ∧
        EntryOf read e g := by
  induction h with
  | nil => exact .inl ⟨rfl, rfl⟩
  | @cons e g table ft heg _ ih =>
    rw [List.find?_cons, List.find?_cons, heg.1]
    split
    · exact .inr ⟨e, g, rfl, rfl, heg⟩
    · exact ih

theorem entriesNamed_entries (h : List.Forall₂ (EntryOf read) table ft) (name : String) :
    (∃ e, entriesNamed name table = .error e ∧ entriesNamed name ft = .error e) ∨
      ∃ xs fs, entriesNamed name table = .ok xs ∧ entriesNamed name ft = .ok fs ∧
        List.Forall₂ (fun a f => read f = .ok (some a)) xs fs := by
  induction h with
  | nil => exact .inr ⟨[], [], rfl, rfl, .nil⟩
  | @cons e g table ft heg _ ih =>
    obtain ⟨key, a⟩ := e
    obtain ⟨_, f⟩ := g
    obtain ⟨rfl, hread⟩ := heg
    simp only [entriesNamed]
    cases hpath : pathOf key with
    | error e => exact .inl ⟨e, rfl, rfl⟩
    | ok path =>
      rcases ih with ⟨e, htable, hft⟩ | ⟨xs, fs, htable, hft, hrel⟩
      · rw [htable, hft]
        exact .inl ⟨e, rfl, rfl⟩
      · rw [htable, hft]
        refine .inr ⟨_, _, rfl, rfl, ?_⟩
        split
        · exact .cons hread hrel
        · exact hrel

/-- **A look-up reads a file:** the one that the same look-up finds in the table of files. -/
theorem lookup_entries (h : List.Forall₂ (EntryOf read) table ft) (source : Json) :
    lookup table source = lookup ft source >>= readFile? read := by
  unfold lookup
  cases source.key with
  | error e => rfl
  | ok key =>
    simp only [bind, Except.bind]
    rcases find?_entries h key with ⟨htable, hft⟩ | ⟨e, g, htable, hft, heg⟩
    · -- nothing under the very path, in either table: both go by the last component
      rw [htable, hft]
      cases source.text with
      | error e => rfl
      | ok path =>
        dsimp only
        rcases entriesNamed_entries h (Text.basename path) with
          ⟨e, htable, hft⟩ | ⟨xs, fs, htable, hft, hrel⟩
        · rw [htable, hft]
        · rw [htable, hft]
          -- one match on either side, or none and several
          rcases hrel with _ | ⟨hread, _ | _⟩
          · rfl
          · exact hread.symm
          · rfl
    · -- the first entry under the path stands at the same place in both tables
      rw [htable, hft]
      exact heg.2.symm

/-- The entries with a last component are entries of the table. -/
theorem mem_of_mem_entriesNamed {name : String} {xs : List α} (h : entriesNamed name table = .ok xs)
    {x : α} (hx : x ∈ xs) : ∃ key, (key, x) ∈ table := by
  induction table generalizing xs with
  | nil =>
    obtain rfl := Except.ok.inj h
    cases hx
  | cons e table ih =>
    obtain ⟨key, y⟩ := e
    obtain ⟨path, -, h⟩ := Except.bind_eq_ok.mp h
    obtain ⟨others, hothers, h⟩ := Except.bind_eq_ok.mp h
    obtain rfl := Except.pure_eq_ok.mp h
    have htail (hmem : x ∈ others) : ∃ key', (key', x) ∈ (key, y) :: table := by
      obtain ⟨key', hkey'⟩ := ih hothers hmem
      exact ⟨key', List.mem_cons_of_mem _ hkey'⟩
    split at hx
    · rcases List.mem_cons.mp hx with rfl | hx
      · exact ⟨key, List.mem_cons_self⟩
      · exact htail hx
    · exact htail hx

/-- What a look-up finds is in the table. -/
theorem mem_of_lookup {source : Json} {x : α} (h : lookup table source = .ok (some x)) :
    ∃ key, (key, x) ∈ table := by
  obtain ⟨key, -, h⟩ := Except.bind_eq_ok.mp h
  split at h
  next e he =>
    obtain rfl := Option.some.inj (Except.pure_eq_ok.mp h)
    exact ⟨e.1, List.mem_of_find?_eq_some he⟩
  next =>
    obtain ⟨path, -, h⟩ := Except.bind_eq_ok.mp h
    obtain ⟨found, hfound, h⟩ := Except.bind_eq_ok.mp h
    split at h
    next y =>
      obtain rfl := Option.some.inj (Except.pure_eq_ok.mp h)
      exact mem_of_mem_entriesNamed hfound List.mem_cons_self
    next => cases Except.pure_eq_ok.mp h

/-- A table of files holds files with the property. -/
theorem mem_fileTable {has : SourceFile → Bool} {files : List SourceFile}
    (h : fileTable has files = .ok ft) {key : Json.Key} {f : SourceFile} (hf : (key, f) ∈ ft) :
    f ∈ files ∧ has f = true := by
  induction files generalizing ft with
  | nil =>
    obtain rfl := Except.ok.inj h
    cases hf
  | cons g files ih =>
    obtain ⟨key', -, h⟩ := Except.bind_eq_ok.mp h
    obtain ⟨x, hx, h⟩ := Except.bind_eq_ok.mp h
    obtain rfl := Except.ok.inj hx
    obtain ⟨others, hothers, h⟩ := Except.bind_eq_ok.mp h
    have htail (hmem : (key, f) ∈ others) : f ∈ g :: files ∧ has f = true := by
      obtain ⟨hfile, hhas⟩ := ih hothers hmem
      exact ⟨List.mem_cons_of_mem g hfile, hhas⟩
    cases hhas : has g <;> rw [hhas] at h <;> obtain rfl := Except.pure_eq_ok.mp h
    · exact htail hf
    · rcases List.mem_cons.mp hf with heq | hf
      · obtain ⟨-, rfl⟩ := Prod.mk.inj heq
        exact ⟨List.mem_cons_self, hhas⟩
      · exact htail hf

end Lookup

end Tables

/-! ### The file that a path names -/

/-- The file that a path names among the files of a contract with a property. -/
def Artifact.fileFor (a : Artifact) (has : SourceFile → Bool) (source : Json) :
    Except Error (Option SourceFile) :=
  Tables.fileTable has a.sources >>= fun ft => Tables.lookup ft source

/-- A path names a file of the contract that has the property. -/
theorem Artifact.mem_of_fileFor {a : Artifact} {has : SourceFile → Bool} {source : Json}
    {f : SourceFile} (h : a.fileFor has source = .ok (some f)) : f ∈ a.sources ∧ has f = true := by
  obtain ⟨ft, hft, h⟩ := Except.bind_eq_ok.mp h
  obtain ⟨key, hkey⟩ := Tables.mem_of_lookup h
  exact Tables.mem_fileTable hft hkey

namespace Tables

variable {a : Artifact} {t : Tables}

/-- The parts of the tables of a contract. -/
theorem build_eq_ok (h : build a = .ok t) :
    t.artifact = a ∧
      (∃ code, a.deployedBytecode.text = .ok code ∧
        Bytecode.InstructionIndex.ofHex code = .ok t.instructions) ∧
      readSourceMap a.deployedSourceMap = .ok t.sourceMap ∧
      entriesOf (fun file => breaksOf file.text) a.sources = .ok t.lineBreaks ∧
      entriesOf (fun file => Ast.read file.ast) a.sources = .ok t.trees := by
  obtain ⟨code, hcode, h⟩ := Except.bind_eq_ok.mp h
  obtain ⟨instructions, hinstructions, h⟩ := Except.bind_eq_ok.mp h
  obtain ⟨sourceMap, hmap, h⟩ := Except.bind_eq_ok.mp h
  obtain ⟨breaks, hbreaks, h⟩ := Except.bind_eq_ok.mp h
  obtain ⟨trees, htrees, h⟩ := Except.bind_eq_ok.mp h
  obtain rfl := Except.pure_eq_ok.mp h
  exact ⟨rfl, ⟨code, hcode, hinstructions⟩, hmap, hbreaks, htrees⟩

/-- A source map that is given as a text is decoded. The empty text gives nothing, which is a map without
entries, and it decodes to that. -/
theorem readSourceMap_str (text : String) : readSourceMap (.str text) = SourceMap.decode text := by
  unfold readSourceMap
  rw [Json.text_str, Json.isBare_str]
  split
  next hempty =>
    obtain rfl := String.isEmpty_iff.mp hempty
    rfl
  next => rw [Except.ok_bind]

/-- **The line breaks of a path** are those of the text of the file that it names among the files with
a text. -/
theorem lineBreaksFor_eq (h : build a = .ok t) (source : Json) :
    t.lineBreaksFor source
      = a.fileFor SourceFile.hasText source >>= readFile? fun f => breaksOf f.text := by
  obtain ⟨-, -, -, hbreaks, -⟩ := build_eq_ok h
  obtain ⟨ft, hft, hrel⟩ := entriesOf_eq_ok breaksOf_readsWhere hbreaks
  rw [lineBreaksFor, lookup_entries hrel, Artifact.fileFor, hft]
  rfl

/-- **The syntax tree of a path** is that of the file that it names among the files with a tree. -/
theorem treeFor_eq (h : build a = .ok t) (source : Json) :
    t.treeFor source
      = a.fileFor SourceFile.hasTree source >>= readFile? fun f => Ast.read f.ast := by
  obtain ⟨-, -, -, -, htrees⟩ := build_eq_ok h
  obtain ⟨ft, hft, hrel⟩ := entriesOf_eq_ok read_readsWhere htrees
  rw [treeFor, lookup_entries hrel, Artifact.fileFor, hft]
  rfl

end Tables

end Pinpoint
