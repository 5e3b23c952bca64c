import Pinpoint.Config.Load
import Pinpoint.Proofs.Trace
import Pinpoint.Proofs.Yaml.Blocks

/-!
# A configuration as a document

A configuration is written as a mapping of two sections (`Config.document`). The text is tidy (`isTidy_toYaml`), and it
is read section by section: a truth value behind its key (`blockPairs_flagText`), the section with the three of them
(`blockNode_flagsText`), and the section with the contracts, which are an empty list behind their key or a list below
it (`blockNode_contracts`). What comes out is the mapping (`parse_toYaml`), and the mapping gives the configuration
(`ofDocument_document`): a text is the configuration that it was written for (`ofText_toYaml`). Since there is a mapping
for every configuration, a reader can give any of them (`exists_reader`).
-/

namespace Pinpoint.Config

open Yaml

variable {key rest : List Char}

/-- The section on how to report. -/
def flags (c : Config) : Json.Fields :=
  [("space-limited", .bool c.spaceLimited), ("debug", .bool c.debug), ("strict", .bool c.strict)]

/-- The mapping that a configuration is written as. -/
def document (c : Config) : Json :=
  .obj [("report", .obj c.flags), ("scan", .obj [("contracts", .arr (c.contracts.map .str))])]

/-- A setting has the truth value that is given under its first name. -/
theorem flag_bool {fields : Json.Fields} {name : String} {b : Bool} (h : fields.get? name = some (.bool b))
    (otherName : String) : flag (.obj fields) name otherName = .ok b := by
  simp [flag, Json.getD, h, Except.map, bind, Except.bind, pure, Except.pure, Json.isBare]

/-- Texts that are listed are the contracts. -/
theorem contractsOf_texts (contracts : List String) :
    contractsOf (.obj [("contracts", .arr (contracts.map .str))]) = .ok contracts := by
  have hlisted : (Json.arr (contracts.map .str)).orElse (.arr []) = .arr (contracts.map .str) := by
    cases contracts <;> rfl
  have hget : (Json.obj [("contracts", .arr (contracts.map .str))]).get "contracts"
      = .ok (.arr (contracts.map .str)) := rfl
  have hmentions : (Json.obj [("contracts", .arr (contracts.map .str))]).mentions "contracts" = .ok true := rfl
  have hitems : (contracts.map Json.str).mapM contractName = .ok contracts :=
    List.mapM_eq_ok.mpr (List.forall₂_map_left_iff.mpr (List.forall₂_same.mpr fun s _ => rfl))
  simp only [contractsOf, hmentions, hget, hlisted, Json.elements_arr, hitems, bind, Except.bind, pure, Except.pure,
    if_true]

/-- **The mapping gives the configuration.** -/
theorem ofDocument_document (c : Config) : ofDocument c.document = .ok c := by
  have hsome : c.document.orElse (.obj []) = c.document := rfl
  have hreport : part c.document "report" = .ok (.obj c.flags) := rfl
  have hscan : part c.document "scan" = .ok (.obj [("contracts", .arr (c.contracts.map .str))]) := rfl
  have hspace : flag (.obj c.flags) "space-limited" "space_limited" = .ok c.spaceLimited := flag_bool rfl _
  have hdebug : flag (.obj c.flags) "debug" "debug" = .ok c.debug := flag_bool rfl _
  have hstrict : flag (.obj c.flags) "strict" "strict" = .ok c.strict := flag_bool rfl _
  rw [ofDocument, hsome, ofJson, hreport, hscan]
  simp only [bind, Except.bind, pure, Except.pure, hspace, hdebug, hstrict, contractsOf_texts]

/-! ### Readers -/

/-- The reader for a way to get from a text to a configuration: it gives the mapping of the configuration, and a
number where there is one of a wrong type. -/
def readerOf (f : List Char → Except Fault Config) : Reader := fun text =>
  match f text with
  | .ok c => .ok c.document
  | .error (.malformed fault) => .error fault
  | .error _ => .ok (.int 1)

/-- **Every way to get from a text to a configuration is that of a reader,** if it fails for nothing but a text that
is malformed or a value of a wrong type. -/
theorem exists_reader (f : List Char → Except Fault Config)
    (hfaults : ∀ text e, f text = .error e → (∃ fault, e = .malformed fault) ∨ e = .content .wrongType) :
    ∃ yaml : Reader, ofText yaml = f := by
  refine ⟨readerOf f, funext fun text => ?_⟩
  unfold ofText readerOf
  cases h : f text with
  | ok c =>
    show (ofDocument c.document).mapError Fault.content = _
    rw [ofDocument_document]
    rfl
  | error e =>
    rcases hfaults text e h with ⟨fault, rfl⟩ | rfl
    · rfl
    · rfl

/-! ### The text -/

/-- A truth value behind its key, and what follows it. -/
def flagText (key : List Char) (b : Bool) (rest : List Char) : List Char :=
  key ++ ':' :: ' ' :: ((Writer.bool b).toList ++ '\n' :: rest)

/-- What stands below the key of the section on how to report, and what follows it. -/
def flagsText (c : Config) (rest : List Char) : List Char :=
  flagText "space-limited".toList c.spaceLimited (List.replicate 2 ' ' ++
    flagText "debug".toList c.debug (List.replicate 2 ' ' ++ flagText "strict".toList c.strict rest))

/-- The contracts as they are written behind their key. -/
def contractsText (contracts : List String) : List Char :=
  if contracts.isEmpty then ' ' :: '[' :: ']' :: ['\n'] else '\n' :: itemLines contracts

/-- The text of the section with the contracts. -/
def scanText (contracts : List String) : List Char :=
  below "scan".toList (List.replicate 2 ' ' ++ ("contracts".toList ++ ':' :: contractsText contracts))

/-- The text of both sections. -/
def sectionsText (c : Config) : List Char :=
  below "report".toList (List.replicate 2 ' ' ++ flagsText c (scanText c.contracts))

theorem flatMap_contractLines (contracts : List String) :
    ((contractLines contracts).map (· ++ "\n")).flatMap String.toList
      = List.replicate 2 ' ' ++ ("contracts".toList ++ ':' :: contractsText contracts) := by
  unfold contractLines contractsText
  split
  · rfl
  · have hitems : ((contracts.map fun s => "  - " ++ Writer.scalar s).map (· ++ "\n")).flatMap String.toList
        = itemLines contracts := by
      rw [List.map_map, List.flatMap_map, itemLines]
      refine List.flatMap_congr fun s hs => ?_
      simp only [Function.comp_apply, String.toList_append, Writer.scalar, String.toList_ofList]
      rfl
    rw [List.map_cons, List.flatMap_cons, hitems]
    rfl

theorem toList_toYaml (c : Config) : c.toYaml.toList
    = '#' :: (" .evmlint.yml: evmlint configuration".toList ++ '\n' :: '\n' :: sectionsText c) := by
  rw [toYaml, String.toList_join, lines, List.map_append, List.flatMap_append, flatMap_contractLines]
  simp only [List.map_cons, List.map_nil, List.flatMap_cons, List.flatMap_nil, String.toList_append, List.append_assoc]
  rfl

/-! ### Tidiness -/

theorem isTidy_flatMap {texts : List String} (h : ∀ s ∈ texts, IsTidy true s.toList) :
    IsTidy true ((texts.map (· ++ "\n")).flatMap String.toList) := by
  induction texts with
  | nil => trivial
  | cons s texts ih =>
    obtain ⟨hs, htexts⟩ := List.forall_mem_cons.mp h
    rw [List.map_cons, List.flatMap_cons, String.toList_append, List.append_assoc]
    exact hs.append (ih htexts).lineFeed

/-- The text of a configuration is tidy. -/
theorem isTidy_toYaml (c : Config) : IsTidy true c.toYaml.toList := by
  rw [toYaml, String.toList_join]
  refine isTidy_flatMap fun s hs => ?_
  have hitem (t : String) : IsTidy true ("  - " ++ Writer.scalar t).toList := by
    have hscalar : (Writer.scalar t).toList = Writer.scalarChars t.toList := String.toList_ofList
    have hfront : " - ".toList.all Writer.isVisible = true := rfl
    rw [String.toList_append, hscalar]
    exact .consLine rfl (by decide) (.append_visible (List.all_eq_true.mp hfront) (isTidy_scalarChars t.toList))
  simp only [lines, contractLines, List.cons_append, List.nil_append, List.mem_cons] at hs
  rcases hs with rfl | rfl | rfl | rfl | rfl | rfl | rfl | hs
  · decide
  · decide
  · decide
  · cases c.spaceLimited <;> decide
  · cases c.debug <;> decide
  · cases c.strict <;> decide
  · decide
  · split at hs
    · rw [List.mem_singleton.mp hs]
      decide
    · rcases List.mem_cons.mp hs with rfl | hs
      · decide
      · obtain ⟨t, -, rfl⟩ := List.mem_map.mp hs
        exact hitem t

/-! ### Reading the sections -/

theorem isName_bool (b : Bool) : IsName (Writer.bool b).toList := by
  cases b <;> decide

theorem resolve_bool (b : Bool) : Scalar.resolve (Writer.bool b).toList = .ok (.bool b) := by
  cases b <;> rfl

theorem startsNode_flagText (hkey : IsKey key) (b : Bool) (rest : List Char) : StartsNode (flagText key b rest) :=
  hkey.isName.startsNode _

/-- **A truth value behind its key.** -/
theorem blockPairs_flagText (hkey : IsKey key) (b : Bool) (hrest : EndsPlain 3 ('\n' :: rest)) (fuel line : Nat)
    (done : Json.Fields) :
    blockPairs (fuel + 2) 2 done ⟨flagText key b rest, line, 2⟩
      = blockPairs (fuel + 1) 2 (done.set (String.ofList key) (.bool b)) (Cursor.settle ⟨rest, line + 1, 0⟩) := by
  have hstarts := (isName_bool b).startsNode ('\n' :: rest)
  have hspace : Cursor.settle ⟨' ' :: ((Writer.bool b).toList ++ '\n' :: rest), line, 2 + key.length + 1⟩
      = ⟨(Writer.bool b).toList ++ '\n' :: rest, line, 2 + key.length + 2⟩ := hstarts.settle_eq 1 line _
  have hread : inlineNode fuel 3 ⟨(Writer.bool b).toList ++ '\n' :: rest, line, 2 + key.length + 2⟩
      = .ok (.bool b, ⟨'\n' :: rest, line, 2 + key.length + 2 + (Writer.bool b).toList.length⟩) :=
    inlineNode_name (isName_bool b) hrest (resolve_bool b)
  have hvalue := blockValue_inline hstarts.nonempty hread
  rw [← hspace] at hvalue
  rw [flagText, blockPairs_pair hkey rfl hvalue]

/-- **The section on how to report** is read up to the next one. -/
theorem blockNode_flagsText (c : Config) (hrest : StartsNode rest) (fuel line : Nat) :
    blockNode (fuel + 5) 1 ⟨flagsText c rest, line, 2⟩ = .ok (.obj c.flags, ⟨rest, line + 3, 0⟩) := by
  have hspace : IsKey "space-limited".toList := ⟨by decide, rfl⟩
  have hdebug : IsKey "debug".toList := ⟨by decide, rfl⟩
  have hstrict : IsKey "strict".toList := ⟨by decide, rfl⟩
  have hsecond := startsNode_flagText hdebug c.debug
    (List.replicate 2 ' ' ++ flagText "strict".toList c.strict rest)
  have hthird := startsNode_flagText hstrict c.strict rest
  have hends : EndsPlain 3 ('\n' :: rest) := .line 0 (by decide) hrest.solid
  have hnext : Cursor.settle ⟨rest, line + 1 + 1 + 1, 0⟩ = ⟨rest, line + 3, 0⟩ := hrest.settle_eq 0 _ _
  calc blockNode (fuel + 5) 1 ⟨flagsText c rest, line, 2⟩
      = blockPairs (fuel + 4) 2 [] ⟨flagsText c rest, line, 2⟩ := blockNode_key hspace rfl
    _ = blockPairs (fuel + 1) 2 c.flags ⟨rest, line + 3, 0⟩ := by
        rw [flagsText, blockPairs_flagText hspace _ (.line 2 (by decide) hsecond.solid), hsecond.settle_eq,
          blockPairs_flagText hdebug _ (.line 2 (by decide) hthird.solid), hthird.settle_eq,
          blockPairs_flagText hstrict _ hends, hnext]
        rfl
    _ = .ok (.obj c.flags, ⟨rest, line + 3, 0⟩) := blockPairs_end (.inr Nat.two_pos)

/-- **The contracts** are read behind their key: an empty list on its line, and another list below it. -/
theorem blockValue_contractsText (contracts : List String) {fuel : Nat} (hfuel : contracts.length + 4 ≤ fuel)
    (line column : Nat) : ∃ last, last.rest = [] ∧
      blockValue fuel 2 line (Cursor.settle ⟨contractsText contracts, line, column⟩)
        = .ok (.arr (contracts.map .str), last) := by
  obtain ⟨fuel, rfl⟩ : ∃ f, fuel = f + 3 := ⟨fuel - 3, by omega⟩
  unfold contractsText
  cases contracts with
  | nil =>
    have hread : inlineNode (fuel + 2) 3 ⟨['[', ']', '\n'], line, column + 1⟩
        = .ok (.arr [], ⟨['\n'], line, column + 1 + 2⟩) := inlineNode_emptyList fuel 3 line (column + 1) ['\n']
    exact ⟨_, rfl, blockValue_inline (List.cons_ne_nil _ _) hread⟩
  | cons s texts =>
    have hless : (s :: texts).length + 3 ≤ fuel + 2 := by omega
    obtain ⟨last, hlast, hitems⟩ := blockItems_itemLines (s :: texts) hless true [] (line + 1)
    -- the list stands at the column of its key
    have hlist : blockValue (fuel + 3) 2 line
        ⟨'-' :: ' ' :: (Writer.scalarChars s.toList ++ '\n' :: itemLines texts), line + 1, 2⟩
        = blockItems (fuel + 2) 2 true []
          ⟨'-' :: ' ' :: (Writer.scalarChars s.toList ++ '\n' :: itemLines texts), line + 1, 2⟩ :=
      blockValue_items (Nat.succ_ne_self line) rfl
    refine ⟨last, hlast, ?_⟩
    rw [List.isEmpty_cons, if_neg Bool.false_ne_true, settle_lineFeed, settle_itemLines_cons, hlist,
      ← settle_itemLines_cons, hitems, List.nil_append]

/-- **The section with the contracts** is read to its end. -/
theorem blockNode_contracts (contracts : List String) {fuel : Nat} (hfuel : contracts.length + 6 ≤ fuel)
    (line : Nat) : ∃ last, last.rest = [] ∧
      blockNode fuel 1 ⟨"contracts".toList ++ ':' :: contractsText contracts, line, 2⟩
        = .ok (.obj [("contracts", .arr (contracts.map .str))], last) := by
  have hkey : IsKey "contracts".toList := ⟨by decide, rfl⟩
  have hgap : atGap (contractsText contracts) = true := by
    unfold contractsText
    split <;> rfl
  obtain ⟨fuel, rfl⟩ : ∃ f, fuel = f + 3 := ⟨fuel - 3, by omega⟩
  have hless : contracts.length + 4 ≤ fuel + 1 := by omega
  obtain ⟨last, hlast, hvalue⟩ := blockValue_contractsText contracts hless line (2 + "contracts".toList.length + 1)
  refine ⟨last, hlast, ?_⟩
  rw [blockNode_key hkey hgap, blockPairs_pair hkey hgap hvalue, blockPairs_end (.inl hlast)]
  rfl

/-- **The two sections** are read as the mapping. -/
theorem blockNode_sectionsText (c : Config) {fuel : Nat} (hfuel : c.contracts.length + 10 ≤ fuel) (line : Nat) :
    ∃ last, last.rest = [] ∧ blockNode fuel 0 ⟨sectionsText c, line, 0⟩ = .ok (c.document, last) := by
  have hreport : IsKey "report".toList := ⟨by decide, rfl⟩
  have hspace : IsKey "space-limited".toList := ⟨by decide, rfl⟩
  have hscan : IsKey "scan".toList := ⟨by decide, rfl⟩
  have hcontracts : IsKey "contracts".toList := ⟨by decide, rfl⟩
  obtain ⟨fuel, rfl⟩ : ∃ f, fuel = f + 8 := ⟨fuel - 8, by omega⟩
  have hless : c.contracts.length + 6 ≤ fuel + 4 := by omega
  have hnext : StartsNode (scanText c.contracts) := hscan.isName.startsNode _
  have hflags := blockNode_flagsText c hnext fuel (line + 1)
  obtain ⟨last, hlast, hlisted⟩ := blockNode_contracts c.contracts hless (line + 5)
  refine ⟨last, hlast, ?_⟩
  calc blockNode (fuel + 8) 0 ⟨sectionsText c, line, 0⟩
      = blockPairs (fuel + 7) 0 [] ⟨sectionsText c, line, 0⟩ := blockNode_key hreport rfl
    _ = blockPairs (fuel + 6) 0 [("report", .obj c.flags)] ⟨scanText c.contracts, line + 4, 0⟩ :=
        blockPairs_below hreport (startsNode_flagText hspace _ _) Nat.two_pos hflags
    _ = blockPairs (fuel + 5) 0 [("report", .obj c.flags), ("scan", .obj [("contracts", .arr (c.contracts.map .str))])]
          last :=
        blockPairs_below hscan (hcontracts.isName.startsNode _) Nat.two_pos hlisted
    _ = .ok (c.document, last) := blockPairs_end (.inl hlast)

/-! ### Reading the text -/

theorem length_contracts_le (c : Config) : c.contracts.length ≤ (sectionsText c).length := by
  have hlisted : c.contracts.length ≤ (contractsText c.contracts).length := by
    unfold contractsText
    split
    next hnone =>
      rw [List.isEmpty_iff.mp hnone]
      exact Nat.zero_le _
    next => exact Nat.le_succ_of_le (length_le_length_itemLines c.contracts)
  simp only [sectionsText, flagsText, flagText, scanText, below, List.length_append, List.length_cons]
  omega

/-- **The text of a configuration is the mapping.** -/
theorem parse_toYaml (c : Config) : Yaml.parse c.toYaml.toList = .ok c.document := by
  have hcomment : " .evmlint.yml: evmlint configuration".toList.all Writer.isVisible = true := rfl
  have hreport : StartsNode (sectionsText c) := IsName.startsNode (by decide : IsName "report".toList) _
  have hstart : Cursor.settle ⟨c.toYaml.toList, 0, 0⟩ = ⟨sectionsText c, 2, 0⟩ := calc
    Cursor.settle ⟨c.toYaml.toList, 0, 0⟩
      = Cursor.settle
          ⟨'#' :: (" .evmlint.yml: evmlint configuration".toList ++ '\n' :: '\n' :: sectionsText c), 0, 0⟩ := by
        rw [toList_toYaml]
    _ = Cursor.settle ⟨'\n' :: sectionsText c, 1, 0⟩ := settle_comment (List.all_eq_true.mp hcomment) 0 0
    _ = Cursor.settle ⟨sectionsText c, 2, 0⟩ := settle_lineFeed 1 0
    _ = ⟨sectionsText c, 2, 0⟩ := hreport.settle_eq 0 2 0
  have hfuel : c.contracts.length + 10 ≤ 4 * c.toYaml.toList.length + 8 := by
    have hless := length_contracts_le c
    rw [toList_toYaml]
    simp only [List.length_cons, List.length_append]
    omega
  obtain ⟨last, hlast, hread⟩ := blockNode_sectionsText c hfuel 2
  have hend : last.settle.rest = [] := by
    unfold Cursor.settle
    rw [hlast]
    rfl
  have hsome : (sectionsText c).isEmpty = false := rfl
  rw [parse_of_isTidy c.isTidy_toYaml, Yaml.document, hstart]
  simp only [hsome, hread, hend, bind, Except.bind, pure, Except.pure, Bool.false_eq_true, Bool.false_and, if_false,
    List.isEmpty_nil, if_true]

/-- **A text is the configuration that it was written for.** -/
theorem ofText_toYaml (c : Config) : ofText Yaml.parse c.toYaml.toList = .ok c := by
  rw [ofText, parse_toYaml]
  show Except.mapError _ (ofDocument c.document) = _
  rw [ofDocument_document]
  rfl

end Pinpoint.Config
