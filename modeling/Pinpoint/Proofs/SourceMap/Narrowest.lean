import Pinpoint.SourceMap.Basic
import Mathlib

/-!
# The narrowest entry around a range

The search for the entry around a range keeps the shortest entry so far, and gives it up only for one that is
shorter still. Said without a state, this is `List.argmin` over the entries that surround the range
(`entryContaining?_eq_argmin`), and these stand in the order of their numbers (`increasing_surrounding`). So
the entry that is found is the shortest one, and the first of those that are just as short
(`entryContaining?_eq_some_iff`).

When the range is itself that of an entry, a shorter entry cannot surround it, and one that is just as long
surrounds it only by having the very same range (`SourceEntry.Surrounds.length_le`,
`SourceEntry.Surrounds.start_eq`). This is arithmetic about two ends and does not ask a length to be positive.
So the search leads from the range of an entry back to the first entry with that range
(`entryContaining?_finds_narrowest`).
-/

namespace Pinpoint

/-! ### Ranges around ranges -/

namespace SourceEntry

variable {e e' : SourceEntry} {start length : Int}

/-- **The entry surrounds `[start, start + length)`:** it has a place in the source, and its range begins no
later and ends no earlier than this one. -/
structure Surrounds (e : SourceEntry) (start length : Int) : Prop where
  placed : 0 ≤ e.start
  start_le : e.start ≤ start
  le_stop : start + length ≤ e.start + e.length

theorem surrounds_iff :
    (decide (0 ≤ e.start) && e.contains start length) = true ↔ e.Surrounds start length := by
  rw [contains, stop, Bool.and_eq_true, Bool.and_eq_true, decide_eq_true_iff, decide_eq_true_iff,
    decide_eq_true_iff]
  constructor
  · rintro ⟨hplaced, hstart, hstop⟩
    exact ⟨hplaced, hstart, hstop⟩
  · intro h
    exact ⟨h.placed, h.start_le, h.le_stop⟩

/-- An entry with a place surrounds its own range, even if its length is negative. -/
theorem surrounds_self (h : 0 ≤ e.start) : e.Surrounds e.start e.length :=
  ⟨h, le_rfl, le_rfl⟩

/-- An entry around the range of another one is not the shorter of the two. -/
theorem Surrounds.length_le (h : e'.Surrounds e.start e.length) : e.length ≤ e'.length := by
  have hstart := h.start_le
  have hstop := h.le_stop
  omega

/-- An entry around the range of another one that is just as long starts at the same place. -/
theorem Surrounds.start_eq (h : e'.Surrounds e.start e.length) (hlength : e'.length = e.length) :
    e'.start = e.start := by
  have hstart := h.start_le
  have hstop := h.le_stop
  omega

/-- An entry that has the range of another one surrounds it. -/
theorem surrounds_of_eq (h : 0 ≤ e.start) (hstart : e'.start = e.start)
    (hlength : e'.length = e.length) : e'.Surrounds e.start e.length := by
  rw [← hstart, ← hlength]
  exact surrounds_self (hstart ▸ h)

end SourceEntry

namespace SourceMap

variable {m : SourceMap} {start length : Int}

/-! ### The search as a minimum -/

/-- The entries around a range, each with its number, in the order of the numbers. -/
def surrounding (m : SourceMap) (start length : Int) : List (Nat × SourceEntry) :=
  (m.entries.zipIdx.filter fun e => 0 ≤ e.1.start && e.1.contains start length).map fun e => (e.2, e.1)

theorem mem_surrounding {i : Nat} {e : SourceEntry} :
    (i, e) ∈ m.surrounding start length ↔ m.entries[i]? = some e ∧ e.Surrounds start length := by
  rw [← SourceEntry.surrounds_iff, ← List.mk_mem_zipIdx_iff_getElem?, surrounding, List.mem_map]
  constructor
  · rintro ⟨pair, hpair, heq⟩
    obtain ⟨rfl, rfl⟩ := Prod.mk.inj heq
    exact List.mem_filter.mp hpair
  · intro h
    exact ⟨(e, i), List.mem_filter.mpr h, rfl⟩

/-- The numbers of the entries around a range increase. -/
theorem increasing_surrounding : (m.surrounding start length).Pairwise fun a b => a.1 < b.1 := by
  have hall : m.entries.zipIdx.Pairwise fun a b => a.2 < b.2 := by
    rw [List.pairwise_iff_getElem]
    intro i j hi hj hlt
    rw [List.getElem_zipIdx, List.getElem_zipIdx]
    omega
  exact (hall.filter _).map _ fun a b hlt => hlt

/-- **The search is a minimum:** keeping what is narrower so far is how the first least element is found. -/
theorem entryContaining?_eq_argmin : m.entryContaining? start length
    = ((m.surrounding start length).argmin fun c => c.2.length).map (·.1) := by
  have hstep : narrower = List.argAux fun (b c : Nat × SourceEntry) => b.2.length < c.2.length := by
    funext best candidate
    cases best <;> rfl
  show ((m.surrounding start length).foldl narrower none).map (·.1) = _
  rw [hstep]
  rfl

/-- In a list whose numbers increase, what stands further in front has the smaller number. -/
theorem number_le_of_idxOf_le {α : Type} [DecidableEq α] {number : α → Nat} {xs : List α} {a b : α}
    (hxs : xs.Pairwise fun a b => number a < number b) (ha : a ∈ xs) (hb : b ∈ xs)
    (hle : xs.idxOf a ≤ xs.idxOf b) : number a ≤ number b := by
  rcases Nat.lt_or_eq_of_le hle with hlt | heq
  · have hnumber := List.pairwise_iff_getElem.mp hxs _ _ (List.idxOf_lt_length_of_mem ha)
      (List.idxOf_lt_length_of_mem hb) hlt
    rw [List.getElem_idxOf, List.getElem_idxOf] at hnumber
    exact Nat.le_of_lt hnumber
  · rw [(List.idxOf_inj ha).mp heq]

/-! ### What the search finds -/

/-- **Entry `i` is the narrowest around the range:** no entry around it is shorter, and none that is just as
short has a smaller number. -/
structure IsNarrowest (m : SourceMap) (start length : Int) (i : Nat) (e : SourceEntry) : Prop where
  entry : m.entries[i]? = some e
  surrounds : e.Surrounds start length
  length_le : ∀ (j : Nat) e', m.entries[j]? = some e' → e'.Surrounds start length → e.length ≤ e'.length
  first : ∀ (j : Nat) e', m.entries[j]? = some e' → e'.Surrounds start length →
    e'.length = e.length → i ≤ j

/-- There is only one narrowest entry. -/
theorem IsNarrowest.unique {i j : Nat} {e e' : SourceEntry} (h : m.IsNarrowest start length i e)
    (h' : m.IsNarrowest start length j e') : i = j := by
  -- neither is shorter than the other, so each of them comes no later than the other
  have hlength : e.length = e'.length := le_antisymm
    (h.length_le j e' h'.entry h'.surrounds) (h'.length_le i e h.entry h.surrounds)
  exact Nat.le_antisymm (h.first j e' h'.entry h'.surrounds hlength.symm)
    (h'.first i e h.entry h.surrounds hlength)

theorem isNarrowest_of_argmin {i : Nat} {e : SourceEntry}
    (h : (m.surrounding start length).argmin (fun c => c.2.length) = some (i, e)) :
    m.IsNarrowest start length i e := by
  obtain ⟨hmem, hleast, hfirst⟩ := List.argmin_eq_some_iff.mp h
  obtain ⟨hentry, hsurrounds⟩ := mem_surrounding.mp hmem
  refine ⟨hentry, hsurrounds, ?_, ?_⟩
  · intro j e' he' hsurrounds'
    exact hleast (j, e') (mem_surrounding.mpr ⟨he', hsurrounds'⟩)
  · intro j e' he' hsurrounds' hlength
    have hmem' : (j, e') ∈ m.surrounding start length := mem_surrounding.mpr ⟨he', hsurrounds'⟩
    exact number_le_of_idxOf_le increasing_surrounding hmem hmem' (hfirst _ hmem' (le_of_eq hlength))

/-- Nothing is found exactly if no entry is around the range. -/
theorem entryContaining?_eq_none_iff :
    m.entryContaining? start length = none ↔ ∀ e ∈ m.entries, ¬ e.Surrounds start length := by
  rw [entryContaining?_eq_argmin, Option.map_eq_none_iff, List.argmin_eq_none, List.eq_nil_iff_forall_not_mem]
  constructor
  · intro h e he hsurrounds
    obtain ⟨i, hi⟩ := List.mem_iff_getElem?.mp he
    exact h (i, e) (mem_surrounding.mpr ⟨hi, hsurrounds⟩)
  · rintro h ⟨i, e⟩ hmem
    obtain ⟨hentry, hsurrounds⟩ := mem_surrounding.mp hmem
    exact h e (List.mem_of_getElem? hentry) hsurrounds

/-- **What is found** is the narrowest entry. -/
theorem entryContaining?_eq_some_iff {i : Nat} :
    m.entryContaining? start length = some i ↔ ∃ e, m.IsNarrowest start length i e := by
  constructor
  · intro h
    rw [entryContaining?_eq_argmin] at h
    obtain ⟨⟨_, e⟩, hargmin, rfl⟩ := Option.map_eq_some_iff.mp h
    exact ⟨e, isNarrowest_of_argmin hargmin⟩
  · rintro ⟨e, h⟩
    -- something is found, and that can only be this entry
    cases hfound : (m.surrounding start length).argmin fun c => c.2.length with
    | none =>
      rw [List.argmin_eq_none] at hfound
      have hmem : (i, e) ∈ m.surrounding start length := mem_surrounding.mpr ⟨h.entry, h.surrounds⟩
      rw [hfound] at hmem
      cases hmem
    | some c =>
      have hunique : c.1 = i := (isNarrowest_of_argmin (i := c.1) (e := c.2) hfound).unique h
      rw [entryContaining?_eq_argmin, hfound, Option.map_some, hunique]

/-- Entry `j` is the first one that has the range of `e`. -/
structure IsFirstWithRange (m : SourceMap) (e : SourceEntry) (j : Nat) : Prop where
  entry : ∃ e', m.entries[j]? = some e' ∧ e'.start = e.start ∧ e'.length = e.length
  first : ∀ (k : Nat) e', m.entries[k]? = some e' → e'.start = e.start → e'.length = e.length → j ≤ k

/-- The narrowest entry around the range of an entry is the first one with that range. -/
theorem IsNarrowest.isFirstWithRange {i j : Nat} {e e' : SourceEntry} (hi : m.entries[i]? = some e)
    (hplaced : 0 ≤ e.start) (h : m.IsNarrowest e.start e.length j e') : m.IsFirstWithRange e j := by
  -- the entry itself is around its range, so the narrowest one is no longer; and it is no shorter either
  have hlength : e'.length = e.length := le_antisymm
    (h.length_le i e hi (SourceEntry.surrounds_self hplaced)) h.surrounds.length_le
  refine ⟨⟨e', h.entry, h.surrounds.start_eq hlength, hlength⟩, ?_⟩
  intro k e'' hk hstart'' hlength''
  have hsurrounds := SourceEntry.surrounds_of_eq hplaced hstart'' hlength''
  exact h.first k e'' hk hsurrounds (hlength''.trans hlength.symm)

/-- **The search finds the narrowest entry,** whatever the map and the range: nothing exactly if no entry is
around the range, and an entry exactly if it is the shortest of them, the first one if there are several. So from
the range of any entry that has a place it leads back to the first entry with this range. -/
theorem entryContaining?_finds_narrowest (m : SourceMap) :
    (∀ start length,
      (m.entryContaining? start length = none ↔ ∀ e ∈ m.entries, ¬ e.Surrounds start length) ∧
      ∀ i, m.entryContaining? start length = some i ↔ ∃ e, m.IsNarrowest start length i e) ∧
    ∀ (i : Nat) e, m.entries[i]? = some e → 0 ≤ e.start →
      ∃ j ≤ i, m.entryContaining? e.start e.length = some j ∧ m.IsFirstWithRange e j := by
  refine ⟨fun start length => ⟨entryContaining?_eq_none_iff, fun i => entryContaining?_eq_some_iff⟩, ?_⟩
  intro i e hi hplaced
  cases hfound : m.entryContaining? e.start e.length with
  | none =>
    have hnone := entryContaining?_eq_none_iff.mp hfound
    exact absurd (SourceEntry.surrounds_self hplaced) (hnone e (List.mem_of_getElem? hi))
  | some j =>
    obtain ⟨e', h⟩ := entryContaining?_eq_some_iff.mp hfound
    have hfirst := h.isFirstWithRange hi hplaced
    exact ⟨j, hfirst.first i e hi rfl rfl, rfl, hfirst⟩

/-- Of four entries around each other, the second and the last have the same range of negative length; both lead
back to the second. The first entry has no place. -/
theorem repeatedRange_found :
    let m : SourceMap := ⟨[⟨-1, 90, 0, .regular, 0⟩, ⟨7, -3, 0, .into, 0⟩, ⟨2, 9, 1, .regular, 0⟩,
      ⟨7, -3, 1, .out, 2⟩]⟩
    m.entries[3]? = some ⟨7, -3, 1, .out, 2⟩ ∧ m.entryContaining? 7 (-3) = some 1 ∧
      m.IsFirstWithRange ⟨7, -3, 1, .out, 2⟩ 1 := by
  intro m
  obtain ⟨j, -, hfound, hfirst⟩ :=
    (entryContaining?_finds_narrowest m).2 3 ⟨7, -3, 1, .out, 2⟩ rfl (by decide)
  have hsecond : m.entryContaining? 7 (-3) = some 1 := by decide
  obtain rfl : j = 1 := Option.some.inj (hfound.symm.trans hsecond)
  exact ⟨rfl, hsecond, hfirst⟩

end SourceMap

end Pinpoint
