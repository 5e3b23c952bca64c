import Pinpoint.Proofs.Normalize.Messages
import Pinpoint.Proofs.PositionOrder
import Pinpoint.Proofs.Resolution.Places
import Pinpoint.Proofs.Resolution.Reference

/-!
# The positions of a message

A message either has no position at all, and then no end, or it has a line from one and a column from zero on.
If it has an end, that does not come before the start, and it is the same position only if the range is empty
(`WellPlaced`).

All tables of line breaks in a contract are in increasing order (`increasing_of_lineBreaksFor`), so positions
come in the order of offsets. The two ends of a range are `length` characters apart, which makes the range
well-placed (`wellPlaced_ofRange`). By `resolve_eq_ok` there is nothing else to look at: a finding that is
resolved points nowhere or to a range.
-/

namespace Pinpoint

/-- **Well-formed positions** of a range of `extent` characters. -/
structure WellPlaced (start : Position) (stop : Option Position) (extent : Int) : Prop where
  known : start = .unresolved ∧ stop = none ∨ 1 ≤ start.line ∧ 0 ≤ start.column
  resolved : stop.isSome = true → start.resolved = true
  bounds : ∀ p, stop = some p → 1 ≤ p.line ∧ 0 ≤ p.column
  ordered : ∀ p, stop = some p → comparePlaces start.line start.column p.line p.column ≤ 0
  empty_iff : ∀ p, stop = some p → (start = p ↔ extent = 0)

/-- Without an end only the start matters. -/
theorem wellPlaced_none {start : Position} {extent : Int}
    (h : start = .unresolved ∨ 1 ≤ start.line ∧ 0 ≤ start.column) : WellPlaced start none extent where
  known := h.imp_left fun hstart => ⟨hstart, rfl⟩
  resolved := fun hsome => absurd hsome Bool.false_ne_true
  bounds := fun p hp => absurd hp.symm (Option.some_ne_none p)
  ordered := fun p hp => absurd hp.symm (Option.some_ne_none p)
  empty_iff := fun p hp => absurd hp.symm (Option.some_ne_none p)

/-- **A range is well-placed** if the line breaks of its source are in increasing order. -/
theorem wellPlaced_ofRange {breaks : Option LineBreaks}
    (h : ∀ table, breaks = some table → table.Pairwise (· < ·)) (start : Int) (length : Option Int)
    (source : Json) :
    WellPlaced (Resolution.ofRange start length source breaks).start
      (Resolution.ofRange start length source breaks).stop
      (Resolution.ofRange start length source breaks).srcLength := by
  have hstart : (Resolution.ofRange start length source breaks).start = Position.ofOffset start breaks :=
    ofRange_fst start _ breaks
  by_cases hunknown : breaks = none ∨ start < 0
  · -- the start has no position, so the range has no end
    have hunresolved := ofOffset_eq_unresolved_iff.mpr hunknown
    have hstop : (Resolution.ofRange start length source breaks).stop = none :=
      ofRange_snd_of_unresolved hunresolved
    rw [hstop, hstart]
    exact wellPlaced_none (.inl hunresolved)
  · obtain ⟨hknown, hneg⟩ := not_or.mp hunknown
    obtain ⟨table, rfl⟩ := Option.ne_none_iff_exists'.mp hknown
    have hincreasing := h table rfl
    have hnonneg : 0 ≤ start := Int.not_lt.mp hneg
    have hbounds := Position.bounds_ofOffset hincreasing hnonneg
    have hresolved : (Position.ofOffset start (some table)).resolved = true := by
      rw [Position.resolved, bne_iff_ne]
      omega
    have hends : (Resolution.ofRange start length source (some table)).stop
        = if length.getD (-1) < 0 then none
          else some (Position.ofOffset (start + length.getD (-1)) (some table)) := by
      show (Position.ofRange start (length.getD (-1)) (some table)).2 = _
      rw [Position.ofRange, hresolved]
      by_cases hlength : length.getD (-1) < 0 <;> simp [hlength]
    rw [hends, hstart]
    split
    next => exact wellPlaced_none (.inr hbounds)
    next hlength =>
      -- the end lies as many characters behind the start as the range is long
      cases length with
      | none => exact absurd (show ((-1 : Int) < 0) by decide) hlength
      | some n =>
        rw [Option.getD_some] at hlength
        have hn : 0 ≤ n := Int.not_lt.mp hlength
        have hextent : (Resolution.ofRange start (some n) source (some table)).srcLength = n :=
          max_eq_left hn
        have hend : 0 ≤ start + n := Int.add_nonneg hnonneg hn
        rw [hextent, Option.getD_some]
        refine ⟨.inr hbounds, fun _ => hresolved, ?_, ?_, ?_⟩
        · rintro p ⟨⟩
          exact Position.bounds_ofOffset hincreasing hend
        · rintro p ⟨⟩
          exact Position.comparePlaces_ofOffset_nonpos hincreasing hnonneg (Int.le_add_of_nonneg_right hn)
        · rintro p ⟨⟩
          rw [Position.ofOffset_inj hincreasing hnonneg hend]
          omega

namespace Tables

variable {a : Artifact} {t : Tables}

/-- The line breaks of every source are in increasing order. -/
theorem increasing_of_lineBreaksFor (ht : build a = .ok t) {source : Json} {breaks : LineBreaks}
    (h : t.lineBreaksFor source = .ok (some breaks)) : breaks.Pairwise (· < ·) := by
  rw [lineBreaksFor_eq_chars ht] at h
  obtain ⟨file, -, hbreaks⟩ := Except.map_eq_ok.mp h
  obtain ⟨f, -, rfl⟩ := Option.map_eq_some_iff.mp hbreaks
  exact increasing_offsetsFrom _ _ _

/-- **Every message is well-placed.** Whatever the mode, the format of the location and the source, the
positions of the message for a finding are those of the place that the finding is resolved to, and they are
well-formed. -/
theorem wellPlaced_of_normalize (ht : build a = .ok t) (settings : Settings) (f : Finding)
    (kind : Option LocationKind) (source : Json) (fatal : Bool) {m : Message}
    (h : (t.normalize settings f kind source fatal).outcome = .ok (some m)) :
    ∃ place, (t.resolve settings.strict f kind source).outcome = .ok place ∧ m.start = place.start ∧
      m.stop = place.stop ∧ WellPlaced m.start m.stop place.srcLength := by
  obtain ⟨place, dropped, hplace, -, hmessage, -⟩ := normalize_eq_ok h
  obtain ⟨-, hnone⟩ | ⟨-, msg, hmsg, heq⟩ := hmessage
  · cases hnone
  · obtain rfl : m = msg := Option.some.inj heq
    obtain ⟨hstart, hstop⟩ := messageAt_positions hmsg
    refine ⟨place, hplace, hstart, hstop, ?_⟩
    rw [hstart, hstop]
    rcases resolve_eq_ok hplace with rfl | ⟨start, length, named, breaks, hbreaks, rfl⟩
    · exact wellPlaced_none (.inl rfl)
    · refine wellPlaced_ofRange (fun table htable => ?_) start length named
      exact increasing_of_lineBreaksFor ht (htable ▸ hbreaks)

/-- A contract with one source of two lines. -/
def twoLines : Artifact :=
  { contractName := "A", deployedBytecode := "", bytecode := "", deployedSourceMap := ""
    sourceMap := "", sourceList := ["a.sol"], sources := [⟨"a.sol", "f();\ng();\n", .null⟩] }

/-- The tables of the contract. -/
def twoLinesTables : Tables := ⟨twoLines, ⟨[]⟩, ⟨[]⟩, [(.text "a.sol", [4, 9])], []⟩

theorem twoLines_build : build twoLines = .ok twoLinesTables := by
  cbv

/-- A finding at five characters from the first line to the second. -/
def acrossLines : Finding := ⟨"High", "", "", "", "1:5:0", ""⟩

/-- The message for a range that goes on over the end of a line has its start on one line and its end on the
next, further left. -/
theorem acrossLines_wellPlaced :
    build twoLines = .ok twoLinesTables ∧
      (twoLinesTables.normalize ⟨false, true⟩ acrossLines (some .sourceText) "a.sol" false).outcome
        = .ok (some ⟨"", " ", 2, "High", true, ⟨1, 1⟩, some ⟨2, 1⟩⟩) ∧
      WellPlaced ⟨1, 1⟩ (some ⟨2, 1⟩) 5 := by
  have hmessage : (twoLinesTables.normalize ⟨false, true⟩ acrossLines (some .sourceText) "a.sol"
      false).outcome = .ok (some ⟨"", " ", 2, "High", true, ⟨1, 1⟩, some ⟨2, 1⟩⟩) := by
    cbv
  refine ⟨twoLines_build, hmessage, ?_⟩
  obtain ⟨place, hplace, -, -, hplaced⟩ :=
    wellPlaced_of_normalize twoLines_build ⟨false, true⟩ acrossLines (some .sourceText) "a.sol" false hmessage
  have hrange : (twoLinesTables.resolve true acrossLines (some .sourceText) "a.sol").outcome
      = .ok ⟨⟨1, 1⟩, some ⟨2, 1⟩, some 1, 5, "a.sol"⟩ := by
    cbv
  obtain rfl := Except.ok.inj (hplace.symm.trans hrange)
  exact hplaced

end Tables

end Pinpoint
