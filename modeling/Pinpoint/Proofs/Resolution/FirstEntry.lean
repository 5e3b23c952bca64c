import Pinpoint.Proofs.Finding.Fields
import Pinpoint.Proofs.Text.LooseNumeral
import Pinpoint.Proofs.Trace
import Pinpoint.Resolution

/-!
# Only the first entry of a location counts

A location may go on after its first entry, and in two of its three readings that makes no difference: the number
of the source and a range of a text are both taken from the fields of the first entry
(`locationFields_append_entry`). An offset of the bytecode is read in another manner. It is what stands before
the first colon, and that is in the first entry only if this one has a colon, as every entry has that goes on
to a length and a source. Behind an entry without a colon the offset runs on over the semicolon, and with a
semicolon in it a text is no number (`readLoose?_of_mem_semicolon`).

`resolve_of_firstEntry` has all cases: what is resolved is told by the first entry, together with what is noted
and how it ends, or else it is a bare offset that something follows, and then nothing is found.
-/

namespace Pinpoint

/-- The finding, moved to another location. -/
def Finding.movedTo (f : Finding) (location : String) : Finding :=
  { f with location := .str location }

/-- A text with a semicolon is no number. -/
theorem readLoose?_of_mem_semicolon {cs : List Char} (h : ';' ∈ cs) : Text.readLoose? cs = none := by
  rw [Option.eq_none_iff_forall_ne_some]
  intro n hread
  have hnumeral : Text.LooseNumeral cs n := Text.readLoose?_eq_some_iff.mp hread
  -- a semicolon is none of the characters of a number
  rcases hnumeral.of_mem h with hpadding | hplus | hminus | hgap | ⟨d, hdigit⟩
  · cases hpadding
  · cases hplus
  · cases hminus
  · cases hgap
  · cases hdigit

/-- The source that a location belongs to is told by its first entry. -/
theorem sourceIndex_append_entry {entry : String} (h : ';' ∉ entry.toList) (rest : String) (count : Nat) :
    sourceIndex (entry ++ ";" ++ rest) count = sourceIndex entry count := by
  unfold sourceIndex
  rw [locationFields_append_entry h rest]

/-- The offset of a location stands in its first entry, if this has a colon. -/
theorem before_colon_append_entry {entry : String} (h : ':' ∈ entry.toList) (rest : String) :
    Text.before ':' (entry ++ ";" ++ rest).toList = Text.before ':' entry.toList := by
  obtain ⟨tail, htail, hends⟩ := Text.exists_append_before ':' entry.toList
  have hnone : ':' ∉ Text.before ':' entry.toList := Text.not_mem_before ':' entry.toList
  rcases hends with rfl | ⟨more, rfl⟩
  · -- the entry would have no colon
    rw [List.append_nil] at htail
    exact absurd h (htail ▸ hnone)
  · calc Text.before ':' (entry ++ ";" ++ rest).toList
        = Text.before ':' (Text.before ':' entry.toList ++ (':' :: more ++ (";" ++ rest).toList)) := by
          rw [← List.append_assoc, ← htail, ← String.toList_append, String.append_assoc]
      _ = Text.before ':' entry.toList ++ Text.before ':' (':' :: more ++ (";" ++ rest).toList) :=
          Text.before_append hnone _
      _ = Text.before ':' entry.toList := List.append_nil _

/-- Otherwise it runs on over the semicolon. -/
theorem semicolon_mem_before_colon {entry : String} (h : ':' ∉ entry.toList) (rest : String) :
    ';' ∈ Text.before ':' (entry ++ ";" ++ rest).toList := by
  have hmark : ':' ∉ ";".toList := by decide
  rw [String.append_assoc, String.toList_append, Text.before_append h, String.toList_append,
    Text.before_append hmark]
  exact List.mem_append_right _ (List.mem_append_left _ List.mem_cons_self)

namespace Tables

variable (t : Tables) (strict : Bool) (source : Json) {entry : String}

/-- A location that is a text is resolved at the offset before its first colon. -/
theorem resolveBytecode_str (location : String) : t.resolveBytecode strict (.str location) source
    = match Text.readLoose? (Text.before ':' location.toList) with
      | none => pure .unresolved
      | some offset => t.resolveOffset strict offset source := by
  unfold resolveBytecode
  rw [Json.text_str]
  -- taking the text notes nothing
  rfl

/-- An offset with a colon behind it is told by the first entry. -/
theorem resolveBytecode_append_entry (h : ':' ∈ entry.toList) (rest : String) :
    t.resolveBytecode strict (.str (entry ++ ";" ++ rest)) source
      = t.resolveBytecode strict (.str entry) source := by
  rw [resolveBytecode_str, resolveBytecode_str, before_colon_append_entry h rest]

/-- An offset without a colon behind it is not found if there are further entries. -/
theorem resolveBytecode_of_bareOffset (h : ':' ∉ entry.toList) (rest : String) :
    t.resolveBytecode strict (.str (entry ++ ";" ++ rest)) source = pure .unresolved := by
  rw [resolveBytecode_str, readLoose?_of_mem_semicolon (semicolon_mem_before_colon h rest)]

/-- A range of a text is told by the first entry. -/
theorem resolveText_append_entry (h : ';' ∉ entry.toList) (rest : String) :
    t.resolveText (.str (entry ++ ";" ++ rest)) source = t.resolveText (.str entry) source := by
  unfold resolveText
  rw [Json.text_str, Json.text_str, Except.ok_bind, Except.ok_bind]
  dsimp only
  rw [locationFields_append_entry h rest]

/-- **Further entries make no difference,** for a location of any kind: a finding is resolved as it is at the
first entry alone, with the same notes and the same error, and it belongs to the same source. The one exception
is an offset of the bytecode that stands alone in its entry, without a colon; with further entries it is no
offset, so the finding points nowhere and nothing is noted. -/
theorem resolve_of_firstEntry (h : ';' ∉ entry.toList) (rest : String) :
    (∀ (f : Finding) (kind : Option LocationKind), (kind = some .bytecodeOffset → ':' ∈ entry.toList) →
      t.resolve strict (f.movedTo (entry ++ ";" ++ rest)) kind source
        = t.resolve strict (f.movedTo entry) kind source) ∧
    (∀ f : Finding, ':' ∉ entry.toList →
      t.resolve strict (f.movedTo (entry ++ ";" ++ rest)) (some .bytecodeOffset) source
        = pure .unresolved) ∧
    ∀ count, sourceIndex (entry ++ ";" ++ rest) count = sourceIndex entry count := by
  refine ⟨?_, ?_, sourceIndex_append_entry h rest⟩
  · intro f kind hcolon
    match kind with
    | some .bytecodeOffset => exact t.resolveBytecode_append_entry strict source (hcolon rfl) rest
    | some .sourceText => exact congrArg Trace.lift (t.resolveText_append_entry source h rest)
    | none => rfl
  · intro f hcolon
    exact t.resolveBytecode_of_bareOffset strict source hcolon rest

/-- A contract with two instructions, of which only the first one has an entry in the source map. -/
def twoStops : Artifact :=
  { contractName := "A", deployedBytecode := "0000", bytecode := "", deployedSourceMap := "0:1:0"
    sourceMap := "", sourceList := ["a.sol"], sources := [⟨"a.sol", "x\n", .null⟩] }

/-- The tables of the contract with two instructions. -/
def twoStopsTables : Tables :=
  ⟨twoStops, ⟨[0, 1]⟩, ⟨[⟨0, 1, 0, .regular, 0⟩]⟩, [(.text "a.sol", [1])], []⟩

/-- A finding of high severity, at no location. -/
def highFinding : Finding := ⟨"High", "SWC-101", "head", "tail", "", ""⟩

/-- The second instruction ends a strict analysis, whatever follows its entry; and behind a bare offset nothing is
found of the first one. -/
theorem twoStops_firstEntry :
    Tables.build twoStops = .ok twoStopsTables ∧
      (twoStopsTables.resolve true (highFinding.movedTo "1:1:0") (some .bytecodeOffset) "a.sol").outcome
        = .error (.uncovered 1 1) ∧
      twoStopsTables.resolve true (highFinding.movedTo ("1:1:0" ++ ";" ++ "0:1:0;")) (some .bytecodeOffset)
          "a.sol"
        = twoStopsTables.resolve true (highFinding.movedTo "1:1:0") (some .bytecodeOffset) "a.sol" ∧
      twoStopsTables.resolve true (highFinding.movedTo ("0" ++ ";" ++ "1:1:0")) (some .bytecodeOffset) "a.sol"
        = pure .unresolved ∧
      sourceIndex ("1:1:0" ++ ";" ++ "0:1:0;") 2 = sourceIndex "1:1:0" 2 := by
  obtain ⟨hsame, -, hindex⟩ := twoStopsTables.resolve_of_firstEntry true "a.sol"
    (by decide : ';' ∉ "1:1:0".toList) "0:1:0;"
  obtain ⟨-, hbare, -⟩ := twoStopsTables.resolve_of_firstEntry true "a.sol"
    (by decide : ';' ∉ "0".toList) "1:1:0"
  have hcolon : ':' ∈ "1:1:0".toList := by decide
  have halone : ':' ∉ "0".toList := by decide
  exact ⟨by cbv, by cbv, hsame highFinding _ fun _ => hcolon, hbare highFinding halone, hindex 2⟩

/-- Further entries do make a difference behind a bare offset. -/
theorem not_resolve_of_firstEntry :
    ¬ ∀ (a : Artifact) (t : Tables) (strict : Bool) (f : Finding) (kind : Option LocationKind)
      (source : Json) (entry rest : String), Tables.build a = .ok t → ';' ∉ entry.toList →
      t.resolve strict (f.movedTo (entry ++ ";" ++ rest)) kind source
        = t.resolve strict (f.movedTo entry) kind source := by
  intro h
  have hbuild : Tables.build twoStops = .ok twoStopsTables := by cbv
  have hstart := congrArg (fun x => x.outcome.toOption.map Resolution.start)
    (h twoStops twoStopsTables false highFinding (some .bytecodeOffset) "a.sol" "0" "" hbuild (by decide))
  have hbare : (twoStopsTables.resolve false (highFinding.movedTo ("0" ++ ";" ++ "")) (some .bytecodeOffset)
      "a.sol").outcome.toOption.map Resolution.start = some .unresolved := by cbv
  have halone : (twoStopsTables.resolve false (highFinding.movedTo "0") (some .bytecodeOffset)
      "a.sol").outcome.toOption.map Resolution.start = some ⟨1, 0⟩ := by cbv
  have heq : (Position.unresolved : Position) = ⟨1, 0⟩ :=
    Option.some.inj (hbare.symm.trans (hstart.trans halone))
  revert heq
  decide

end Tables

end Pinpoint
