import Pinpoint.Proofs.LineCount
import Pinpoint.Proofs.Trace
import Pinpoint.Resolution

/-!
# What the place of a finding may be

A finding is resolved along several ways: by an offset of the bytecode or by a range of the text, with an
entry of the source map or without one. What comes out has one of two forms. Either the finding points nowhere,
or a range of some source was taken to its positions, which is `Resolution.ofRange`; `resolve_eq_ok` says so for
every location, and every law about places needs to look at these two only.

The first such law is about places that have no position (`range_of_unresolved`). They have no end either. Yet
they may have a range: that of a source whose line breaks are not known, or one that starts before the text.
-/

namespace Pinpoint

/-- The place of a range of a source, with the line breaks of that source. -/
def Resolution.ofRange (start : Int) (length : Option Int) (source : Json) (breaks : Option LineBreaks) :
    Resolution :=
  let ends := Position.ofRange start (length.getD (-1)) breaks
  ⟨ends.1, ends.2, some start, max (length.getD 0) 0, source⟩

namespace Tables

variable {t : Tables}

/-- A range is resolved with the line breaks of its source. -/
theorem resolveRange_eq_map (t : Tables) (start : Int) (length : Option Int) (source : Json) :
    t.resolveRange start length source
      = (t.lineBreaksFor source).map (Resolution.ofRange start length source) := by
  unfold resolveRange
  cases t.lineBreaksFor source <;> rfl

/-- The place is that of a range of some source. -/
def IsRangePlace (t : Tables) (place : Resolution) : Prop :=
  ∃ start length source breaks,
    t.lineBreaksFor source = .ok breaks ∧ place = .ofRange start length source breaks

theorem isRangePlace_of_resolveRange {start : Int} {length : Option Int} {source : Json}
    {place : Resolution} (h : t.resolveRange start length source = .ok place) : t.IsRangePlace place := by
  rw [resolveRange_eq_map] at h
  obtain ⟨breaks, hbreaks, hplace⟩ := Except.map_eq_ok.mp h
  exact ⟨start, length, source, breaks, hbreaks, hplace.symm⟩

/-- An offset that is resolved points nowhere or to a range. -/
theorem resolveOffset_eq_ok {strict : Bool} {offset : Int} {source : Json} {place : Resolution}
    (h : (t.resolveOffset strict offset source).outcome = .ok place) :
    place = .unresolved ∨ t.IsRangePlace place := by
  unfold resolveOffset at h
  split at h
  next => exact .inl (Except.ok.inj h).symm
  next instruction hinstruction =>
    split at h
    next hentry =>
      -- without an entry there is no range, and in strict mode no place at all
      unfold uncovered at h
      split at h
      · cases h
      · exact .inl (Except.ok.inj h).symm
    next e hentry =>
      split at h
      · exact .inl (Except.ok.inj h).symm
      · exact .inr (isRangePlace_of_resolveRange h)

/-- **A finding that is resolved** points nowhere or to a range. -/
theorem resolve_eq_ok {strict : Bool} {f : Finding} {kind : Option LocationKind} {source : Json}
    {place : Resolution} (h : (t.resolve strict f kind source).outcome = .ok place) :
    place = .unresolved ∨ t.IsRangePlace place := by
  unfold resolve at h
  split at h
  next =>
    unfold resolveBytecode at h
    rw [Trace.outcome_bind] at h
    obtain ⟨text, -, h⟩ := Except.bind_eq_ok.mp h
    split at h
    · exact .inl (Except.ok.inj h).symm
    · exact resolveOffset_eq_ok h
  next =>
    obtain ⟨text, -, h⟩ := Except.bind_eq_ok.mp h
    dsimp only at h
    split at h
    · exact .inl (Except.ok.inj h).symm
    · exact .inr (isRangePlace_of_resolveRange h)
  next => exact .inl (Except.ok.inj h).symm

/-- **A place without a position** has no end. If it has a range, then the range starts before the text, or the
line breaks of its source are not known. -/
theorem range_of_unresolved {strict : Bool} {f : Finding} {kind : Option LocationKind} {source : Json}
    {place : Resolution} (h : (t.resolve strict f kind source).outcome = .ok place)
    (hstart : place.start = .unresolved) :
    place.stop = none ∧ ∀ start, place.srcStart = some start →
      start < 0 ∨ t.lineBreaksFor place.source = .ok none := by
  rcases resolve_eq_ok h with rfl | ⟨start, length, named, breaks, hbreaks, rfl⟩
  · refine ⟨rfl, ?_⟩
    intro start hrange
    cases hrange
  · -- the start of the range has no position, for one of the two reasons
    have hfirst : Position.ofOffset start breaks = .unresolved := by
      rw [← ofRange_fst start (length.getD (-1))]
      exact hstart
    refine ⟨ofRange_snd_of_unresolved hfirst, ?_⟩
    intro first hrange
    obtain rfl : start = first := Option.some.inj hrange
    rcases ofOffset_eq_unresolved_iff.mp hfirst with rfl | hneg
    · exact .inr hbreaks
    · exact .inl hneg

end Tables

end Pinpoint
