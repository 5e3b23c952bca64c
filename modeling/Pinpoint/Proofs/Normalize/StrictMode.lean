import Pinpoint.Proofs.Normalize.Totality

/-!
# Strict and lenient analysis

An instruction without an entry in the source map is noted in lenient mode and ends the analysis in strict
mode. That is the only difference: `Trace.FollowsUntil` relates a run to another one that it follows note by
note until the other notes a fault, where it stops with an error. The relation goes through chains and
traversals (`FollowsUntil.bind`, `FollowsUntil.mapM`), and the two modes differ in it only where an
instruction is uncovered (`follows_uncovered`). So the strict analysis of any sources follows the
lenient one up to its first failed resolution (`follows_normalizeAll`).
-/

namespace Pinpoint

/-! ### A run that stops where another goes on -/

namespace Trace

variable {ν ε α β : Type} {errorOf : ν → Option ε}

/-- **A run follows another until the other notes a fault.** `errorOf` tells the faults among the notes, and
the error that each stands for. If no fault is noted the two runs are the same; at the first fault the
follower stops with its error, and has noted just what was noted before. -/
inductive FollowsUntil (errorOf : ν → Option ε) (strict lenient : Trace ν ε α) : Prop where
  | agree (clean : ∀ n ∈ lenient.notes, errorOf n = none) (same : strict = lenient)
  | stop (before : List ν) (fault : ν) (after : List ν) (e : ε)
      (notes_eq : lenient.notes = before ++ fault :: after)
      (clean : ∀ n ∈ before, errorOf n = none) (error : errorOf fault = some e)
      (stopped : strict = ⟨before, .error e⟩)

/-- A run that notes no fault follows itself. -/
theorem FollowsUntil.refl {x : Trace ν ε α} (h : x.Only fun n => errorOf n = none) :
    FollowsUntil errorOf x x :=
  .agree h rfl

/-- A chain notes all that its first part notes. -/
theorem exists_notes_bind (x : Trace ν ε α) (f : α → Trace ν ε β) :
    ∃ more, (x >>= f).notes = x.notes ++ more := by
  cases hx : x.outcome with
  | error e => exact ⟨[], by rw [bind_of_error hx, List.append_nil]⟩
  | ok a => exact ⟨(f a).notes, notes_bind hx f⟩

/-- **Chains** of which each part follows. -/
theorem FollowsUntil.bind {strict lenient : Trace ν ε α} {f g : α → Trace ν ε β}
    (h : FollowsUntil errorOf strict lenient) (hfg : ∀ a, FollowsUntil errorOf (f a) (g a)) :
    FollowsUntil errorOf (strict >>= f) (lenient >>= g) := by
  cases h with
  | agree clean same =>
    subst same
    cases hout : strict.outcome with
    | error e =>
      -- both chains end with the first part
      rw [bind_of_error hout, bind_of_error hout]
      exact .agree clean rfl
    | ok a =>
      rw [bind_of_ok hout, bind_of_ok hout]
      cases hfg a with
      | agree clean' same' =>
        refine .agree ?_ (by rw [same'])
        intro n hn
        rcases List.mem_append.mp hn with hn | hn
        · exact clean n hn
        · exact clean' n hn
      | stop before fault after e notes_eq clean' error stopped =>
        refine .stop (strict.notes ++ before) fault after e ?_ ?_ error ?_
        · rw [notes_eq, List.append_assoc]
        · intro n hn
          rcases List.mem_append.mp hn with hn | hn
          · exact clean n hn
          · exact clean' n hn
        · rw [stopped]
  | stop before fault after e notes_eq clean error stopped =>
    -- the follower has stopped for good, the other run may note more
    obtain ⟨more, hmore⟩ := exists_notes_bind lenient g
    have hout : strict.outcome = .error e := by rw [stopped]
    refine .stop before fault (after ++ more) e ?_ clean error ?_
    · rw [hmore, notes_eq, List.append_assoc, List.cons_append]
    · rw [bind_of_error hout, stopped]

/-- **Traversals** that follow at every element. -/
theorem FollowsUntil.mapM {f g : α → Trace ν ε β} (hfg : ∀ a, FollowsUntil errorOf (f a) (g a))
    (xs : List α) : FollowsUntil errorOf (xs.mapM f) (xs.mapM g) := by
  induction xs with
  | nil => exact .refl (only_pure [])
  | cons x xs ih =>
    rw [List.mapM_cons, List.mapM_cons]
    exact (hfg x).bind fun y => ih.bind fun ys => .refl (only_pure (y :: ys))

end Trace

/-! ### The two modes -/

namespace Tables

variable {t : Tables}

/-- The error that an event stands for in strict mode: an instruction that the source map does not
cover. -/
def mismatchOf (t : Tables) : Event → Option Error
  | .resolutionFailed _ instruction _ => some (.uncovered instruction t.sourceMap.size)
  | _ => none

theorem mismatchOf_eq_none_iff (t : Tables) (e : Event) :
    t.mismatchOf e = none ↔ e.kind ≠ .resolutionFailed := by
  cases e <;> simp [mismatchOf, Event.kind]

/-- The strict run follows the lenient one. -/
abbrev Follows {α : Type} (t : Tables) (strict lenient : Observed α) : Prop :=
  Trace.FollowsUntil t.mismatchOf strict lenient

theorem follows_lift {α : Type} (x : Except Error α) : t.Follows (Trace.lift x) (Trace.lift x) :=
  .refl (Trace.only_lift x)

theorem follows_pure {α : Type} (x : α) : t.Follows (pure x) (pure x) :=
  .refl (Trace.only_pure x)

/-- **Where the modes differ:** an uncovered instruction. -/
theorem follows_uncovered (t : Tables) (offset : Int) (instruction : Nat) :
    t.Follows (t.uncovered true offset instruction) (t.uncovered false offset instruction) :=
  .stop [] (.resolutionFailed offset instruction t.artifact.contractName) []
    (.uncovered instruction t.sourceMap.size) rfl (fun _ hn => absurd hn List.not_mem_nil) rfl rfl

theorem follows_resolve (t : Tables) (f : Finding) (kind : Option LocationKind) (source : Json) :
    t.Follows (t.resolve true f kind source) (t.resolve false f kind source) := by
  have hoffset (offset : Int) :
      t.Follows (t.resolveOffset true offset source) (t.resolveOffset false offset source) := by
    unfold resolveOffset
    split
    · exact follows_pure _
    · split
      · -- the instruction has no entry
        exact follows_uncovered t offset _
      · split
        · exact follows_pure _
        · exact follows_lift _
  unfold resolve
  split
  · unfold resolveBytecode
    refine Trace.FollowsUntil.bind (follows_lift _) fun text => ?_
    split
    · exact follows_pure _
    · exact hoffset _
  · exact follows_lift _
  · exact follows_pure _

/-- A finding that is resolved at all is resolved as in lenient mode. -/
theorem resolve_eq_lenient {strict : Bool} {f : Finding} {kind : Option LocationKind} {source : Json}
    {place : Resolution} (h : (t.resolve strict f kind source).outcome = .ok place) :
    t.resolve strict f kind source = t.resolve false f kind source := by
  cases strict with
  | false => rfl
  | true =>
    cases follows_resolve t f kind source with
    | agree clean same => exact same
    | stop before fault after e notes_eq clean error stopped =>
      -- a run that stops has no place
      rw [stopped] at h
      cases h

/-- A suppression is no fault. -/
theorem follows_isSuppressed (t : Tables) (f : Finding) (place : Resolution) (source : Json) :
    t.Follows (t.isSuppressed f place source) (t.isSuppressed f place source) := by
  unfold isSuppressed
  split
  · exact follows_pure _
  · refine Trace.FollowsUntil.bind (follows_lift _) fun around => ?_
    split
    · exact follows_pure _
    · exact Trace.FollowsUntil.bind (.refl (Trace.only_note rfl)) fun _ => follows_pure _

theorem follows_normalize (t : Tables) (spaceLimited : Bool) (f : Finding)
    (kind : Option LocationKind) (source : Json) (fatal : Bool) :
    t.Follows (t.normalize ⟨spaceLimited, true⟩ f kind source fatal)
      (t.normalize ⟨spaceLimited, false⟩ f kind source fatal) := by
  unfold normalize
  refine Trace.FollowsUntil.bind (follows_resolve t f kind source) fun place => ?_
  refine Trace.FollowsUntil.bind (follows_isSuppressed t f place source) fun dropped => ?_
  split
  · exact follows_pure _
  · -- what a message says does not depend on the mode
    exact Trace.FollowsUntil.bind (follows_lift _) fun m => follows_pure _

theorem follows_normalizeReport (t : Tables) (spaceLimited : Bool) (report : SourceReport) :
    t.Follows (t.normalizeReport ⟨spaceLimited, true⟩ report)
      (t.normalizeReport ⟨spaceLimited, false⟩ report) := by
  have hnote : t.Follows (noteUnsupported report) (noteUnsupported report) := by
    unfold noteUnsupported
    split
    · exact .refl (Trace.only_note rfl)
    · exact follows_pure _
  unfold normalizeReport
  refine hnote.bind fun _ => ?_
  refine Trace.FollowsUntil.bind (Trace.FollowsUntil.mapM (fun f =>
    follows_normalize t spaceLimited f _ report.source false) report.findings) fun messages => ?_
  exact follows_pure _

/-- **The strict analysis follows the lenient one.** -/
theorem follows_normalizeAll (t : Tables) (spaceLimited : Bool) (reports : List SourceReport) :
    t.Follows (t.normalizeAll ⟨spaceLimited, true⟩ reports)
      (t.normalizeAll ⟨spaceLimited, false⟩ reports) :=
  Trace.FollowsUntil.mapM (follows_normalizeReport t spaceLimited) reports

/-- **The ends that the analysis of well-typed sources may come to:** reports, or in strict mode an instruction
that the source map does not cover. -/
theorem normalizeAll_ends {a : Artifact} (ht : build a = .ok t) (htyped : a.WellTyped)
    (settings : Settings) {reports : List SourceReport}
    (hreports : ∀ report ∈ reports, report.WellTyped) :
    (∃ rs, (t.normalizeAll settings reports).outcome = .ok rs ∧ ∀ r ∈ rs, r.filePath.IsText) ∨
      ∃ e, (t.normalizeAll settings reports).outcome = .error e ∧ e.isUncovered = true := by
  obtain ⟨spaceLimited, strict⟩ := settings
  obtain ⟨rs, hrs, htexts⟩ := normalizeAll_of_wellTyped ht htyped
    (rfl : (⟨spaceLimited, false⟩ : Settings).strict = false) hreports
  cases strict with
  | false => exact .inl ⟨rs, hrs, htexts⟩
  | true =>
    -- the strict run follows the lenient one, which has its reports
    cases follows_normalizeAll t spaceLimited reports with
    | agree clean same =>
      rw [same]
      exact .inl ⟨rs, hrs, htexts⟩
    | stop before fault after e notes_eq clean error stopped =>
      refine .inr ⟨e, by rw [stopped], ?_⟩
      unfold mismatchOf at error
      split at error
      · obtain rfl := Option.some.inj error
        rfl
      · cases error

/-- **Strict and lenient analysis agree up to the first failed resolution.** Either the lenient analysis
notes none, and the strict one is the same; or the strict one has noted just what comes before the first,
and ends with the error for its instruction and the size of the source map. For sources of the right types
the lenient analysis always has its reports. -/
theorem normalizeAll_strict_lenient (t : Tables) (spaceLimited : Bool) (reports : List SourceReport) :
    ((∀ e ∈ (t.normalizeAll ⟨spaceLimited, false⟩ reports).notes, e.kind ≠ .resolutionFailed) ∧
        t.normalizeAll ⟨spaceLimited, true⟩ reports = t.normalizeAll ⟨spaceLimited, false⟩ reports ∨
      ∃ before offset instruction contract after,
        (t.normalizeAll ⟨spaceLimited, false⟩ reports).notes
            = before ++ .resolutionFailed offset instruction contract :: after ∧
          (∀ e ∈ before, e.kind ≠ .resolutionFailed) ∧
          (t.normalizeAll ⟨spaceLimited, true⟩ reports).notes = before ∧
          (t.normalizeAll ⟨spaceLimited, true⟩ reports).outcome
            = .error (.uncovered instruction t.sourceMap.size)) ∧
      ∀ a, build a = .ok t → a.WellTyped → (∀ report ∈ reports, report.WellTyped) →
        ∃ rs, (t.normalizeAll ⟨spaceLimited, false⟩ reports).outcome = .ok rs := by
  constructor
  · cases follows_normalizeAll t spaceLimited reports with
    | agree clean same =>
      exact .inl ⟨fun e he => (mismatchOf_eq_none_iff t e).mp (clean e he), same⟩
    | stop before fault after e notes_eq clean error stopped =>
      -- of all events only a failed resolution stands for an error
      cases fault with
      | resolutionFailed offset instruction contract =>
        obtain rfl := Option.some.inj error
        refine .inr ⟨before, offset, instruction, contract, after, notes_eq, ?_, ?_, ?_⟩
        · exact fun e he => (mismatchOf_eq_none_iff t e).mp (clean e he)
        · rw [stopped]
        · rw [stopped]
      | issueSuppressed swcId source declaration => cases error
      | unsupportedFormat source format count => cases error
      | emptyFieldDropped contract field => cases error
  · intro a ht htyped hreports
    obtain ⟨rs, hrs, -⟩ : ∃ rs, (t.normalizeAll ⟨spaceLimited, false⟩ reports).outcome = .ok rs ∧ _ :=
      normalizeAll_of_wellTyped ht htyped rfl hreports
    exact ⟨rs, hrs⟩

/-- A contract of two instructions whose source map has an entry for the first one only. -/
def halfCovered : Artifact :=
  { contractName := "A", deployedBytecode := "0000", bytecode := "", deployedSourceMap := "0:4:0"
    sourceMap := "", sourceList := ["a.sol"], sources := [⟨"a.sol", "f();\n", .null⟩] }

/-- The tables of the contract. -/
def halfCoveredTables : Tables :=
  ⟨halfCovered, ⟨[0, 1]⟩, ⟨[⟨0, 4, 0, .regular, 0⟩]⟩, [(.text "a.sol", [4])], []⟩

theorem halfCovered_build : build halfCovered = .ok halfCoveredTables := by
  cbv

/-- A report in an unknown format, and one with a finding at either instruction and a last one at the
first. -/
def bothInstructions : List SourceReport :=
  [⟨"a.sol", "solc", "", [⟨"Low", "", "", "", "0:4:0", ""⟩]⟩,
    ⟨"a.sol", "evm-byzantium-bytecode", "", [⟨"High", "", "", "", "0:1:0", ""⟩,
      ⟨"High", "", "", "", "1:1:0", ""⟩, ⟨"High", "", "", "", "0:1:0", ""⟩]⟩]

/-- The unknown format is noted in both modes. At the second instruction the strict analysis ends, where
the lenient one notes that it has no entry, and goes on to its reports. -/
theorem halfCovered_stops :
    build halfCovered = .ok halfCoveredTables ∧ halfCovered.WellTyped ∧
      (∀ report ∈ bothInstructions, report.WellTyped) ∧
      (halfCoveredTables.normalizeAll ⟨false, true⟩ bothInstructions).notes
        = [.unsupportedFormat "a.sol" "solc" 1] ∧
      (halfCoveredTables.normalizeAll ⟨false, true⟩ bothInstructions).outcome
        = .error (.uncovered 1 1) ∧
      ∃ rs, (halfCoveredTables.normalizeAll ⟨false, false⟩ bothInstructions).outcome = .ok rs := by
  have hbuild := halfCovered_build
  have htyped : halfCovered.WellTyped :=
    ⟨⟨by simp [halfCovered], by simp [halfCovered]⟩, by simp [halfCovered]⟩
  have hreports : ∀ report ∈ bothInstructions, report.WellTyped := by
    intro report hreport
    simp only [bothInstructions, List.mem_cons, List.not_mem_nil, or_false] at hreport
    rcases hreport with rfl | rfl
    · exact ⟨⟨_, rfl⟩, by simp [Finding.wellTyped_iff, Json.IsText]⟩
    · exact ⟨⟨_, rfl⟩, by simp [Finding.wellTyped_iff, Json.IsText]⟩
  obtain ⟨hmodes, hreturns⟩ := normalizeAll_strict_lenient halfCoveredTables false bothInstructions
  have hnotes : (halfCoveredTables.normalizeAll ⟨false, false⟩ bothInstructions).notes
      = [.unsupportedFormat "a.sol" "solc" 1, .resolutionFailed 1 1 "A"] := by
    have hunknown : LocationKind.ofFormat? "solc" = none := rfl
    have hbytecode : LocationKind.ofFormat? "evm-byzantium-bytecode" = some .bytecodeOffset := rfl
    simp only [normalizeAll, bothInstructions, List.mapM_cons, List.mapM_nil, normalizeReport,
      noteUnsupported, hunknown, hbytecode]
    cbv
  refine ⟨hbuild, htyped, hreports, ?_⟩
  rcases hmodes with ⟨hclean, -⟩ | ⟨before, offset, instruction, contract, after, heq, hclean, hbefore,
    hstopped⟩
  · -- the lenient analysis does note a failed resolution
    exact absurd rfl (hclean (.resolutionFailed 1 1 "A") (by rw [hnotes]; simp))
  · rw [hnotes] at heq
    rcases before with _ | ⟨e, _ | ⟨e', before⟩⟩
    · simp at heq
    · simp only [List.cons_append, List.nil_append, List.cons.injEq,
        Event.resolutionFailed.injEq] at heq
      obtain ⟨rfl, ⟨-, rfl, -⟩, -⟩ := heq
      exact ⟨hbefore, hstopped, hreturns halfCovered hbuild htyped hreports⟩
    · simp at heq

end Tables

end Pinpoint
