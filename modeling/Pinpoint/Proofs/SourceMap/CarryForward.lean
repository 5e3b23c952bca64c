import Pinpoint.Proofs.Trace
import Pinpoint.SourceMap.Decode

/-!
# Source-map entries without an accumulator

The decoder goes through the segments of a source map once and carries the values written last. Here an
entry is described without that state: entry `k` has in each field the value of the last text that is not
empty in that column of the segments up to `k` (`lastWritten`, `carriedAt?`).

The invariant of the decoder is that its carry is `Carry.after` the segments read so far. One segment
keeps it (`next_eq_ok`), so a run from any such state gives the entries described
(`decodeFrom_eq_ok`), and `entryAt?_of_decode` is the whole map.
-/

namespace Pinpoint.SourceMap

/-! ### What is written in a column -/

/-- The text in column `i` of a segment; empty if the segment ends before. -/
def fieldOf (i : Nat) (segment : List Char) : List Char :=
  (Text.splitOn ':' segment).getD i []

/-- The last text in column `i` that is not empty. -/
def lastWritten (i : Nat) (segments : List (List Char)) : Option (List Char) :=
  ((segments.map (fieldOf i)).filter fun cs => !cs.isEmpty).getLast?

/-- The integer that a text is in the plain notation. -/
def plainValue? (cs : List Char) : Option Int :=
  match Text.readPlain cs with
  | .value n => some n
  | _ => none

theorem plainValue?_eq_some_iff {cs : List Char} {n : Int} :
    plainValue? cs = some n ↔ Text.readPlain cs = .value n := by
  unfold plainValue?
  cases Text.readPlain cs <;> simp

/-- The number written last in column `i`. -/
def lastNumber (i : Nat) (segments : List (List Char)) : Option Int :=
  (lastWritten i segments).bind plainValue?

/-- The jump written last; a regular one if none is. -/
def lastJump (segments : List (List Char)) : JumpType :=
  ((lastWritten 3 segments).bind JumpType.ofLetter?).getD .regular

/-- **The entry of segment `k`**, read off the segments up to there; none if there is no such segment. -/
def carriedAt? (segments : List (List Char)) (k : Nat) : Option SourceEntry :=
  if k < segments.length then do
    let written := segments.take (k + 1)
    let start ← lastNumber 0 written
    let length ← lastNumber 1 written
    let fileIndex ← lastNumber 2 written
    return ⟨start, length, fileIndex, lastJump written, (lastNumber 4 written).getD 0⟩
  else none

theorem lastWritten_append (i : Nat) (done : List (List Char)) (segment : List Char) :
    lastWritten i (done ++ [segment])
      = if (fieldOf i segment).isEmpty then lastWritten i done else some (fieldOf i segment) := by
  unfold lastWritten
  rw [List.map_append, List.filter_append, List.map_singleton, List.filter_singleton]
  cases (fieldOf i segment).isEmpty <;> simp

/-! ### Reading one field -/

theorem readNumber_eq_ok {entry : Nat} {field : SegmentField} {cs : List Char} {n : Int} :
    readNumber entry field cs = .ok n ↔ plainValue? cs = some n := by
  unfold readNumber plainValue? fail
  cases Text.readPlain cs <;> simp

theorem readJump_eq_ok {entry : Nat} {cs : List Char} {j : JumpType} :
    readJump entry cs = .ok j ↔ JumpType.ofLetter? cs = some j := by
  unfold readJump fail
  cases JumpType.ofLetter? cs <;> simp

/-- A field that is read is empty and keeps the old value, or it is not and has a value of its own. -/
theorem fieldOr_eq_ok {β : Type} {old v : β} {read : List Char → Except Error β} {cs : List Char}
    (h : fieldOr old read cs = .ok v) :
    cs.isEmpty = true ∧ old = v ∨ ¬ cs.isEmpty = true ∧ read cs = .ok v := by
  unfold fieldOr at h
  split at h
  next hempty => exact .inl ⟨hempty, Except.ok.inj h⟩
  next hfull => exact .inr ⟨hfull, h⟩

/-- A numeric field is read: the number last written is the one in the field, if there is one. -/
theorem lastNumber_append {i : Nat} {done : List (List Char)} {segment : List Char} {entry : Nat}
    {field : SegmentField} {n : Option Int}
    (h : fieldOr (lastNumber i done) (fun cs => (readNumber entry field cs).map some)
      (fieldOf i segment) = .ok n) : lastNumber i (done ++ [segment]) = n := by
  rw [lastNumber, lastWritten_append]
  rcases fieldOr_eq_ok h with ⟨hempty, hold⟩ | ⟨hfull, hread⟩
  · rw [if_pos hempty]
    exact hold
  · obtain ⟨m, hm, rfl⟩ := Except.map_eq_ok.mp hread
    rw [if_neg hfull, Option.bind_some]
    exact readNumber_eq_ok.mp hm

/-- The modifier depth is read: it has a value from the beginning. -/
theorem lastDepth_append {done : List (List Char)} {segment : List Char} {entry : Nat} {n : Int}
    (h : fieldOr ((lastNumber 4 done).getD 0) (readNumber entry .modifierDepth)
      (fieldOf 4 segment) = .ok n) : (lastNumber 4 (done ++ [segment])).getD 0 = n := by
  rw [lastNumber, lastWritten_append]
  rcases fieldOr_eq_ok h with ⟨hempty, hold⟩ | ⟨hfull, hread⟩
  · rw [if_pos hempty]
    exact hold
  · rw [if_neg hfull, Option.bind_some, readNumber_eq_ok.mp hread, Option.getD_some]

/-- The jump is read. -/
theorem lastJump_append {done : List (List Char)} {segment : List Char} {entry : Nat} {j : JumpType}
    (h : fieldOr (lastJump done) (readJump entry) (fieldOf 3 segment) = .ok j) :
    lastJump (done ++ [segment]) = j := by
  rw [lastJump, lastWritten_append]
  rcases fieldOr_eq_ok h with ⟨hempty, hold⟩ | ⟨hfull, hread⟩
  · rw [if_pos hempty]
    exact hold
  · rw [if_neg hfull, Option.bind_some, readJump_eq_ok.mp hread, Option.getD_some]

/-! ### The carry -/

/-- The values carried after some segments. -/
def Carry.after (done : List (List Char)) : Carry :=
  ⟨lastNumber 0 done, lastNumber 1 done, lastNumber 2 done, lastJump done,
    (lastNumber 4 done).getD 0⟩

@[simp] theorem Carry.after_nil : Carry.after [] = Carry.initial := rfl

/-- **One segment keeps the invariant:** the values carried are those written last. -/
theorem next_eq_ok {done : List (List Char)} {segment : List Char} {entry : Nat} {carry : Carry}
    (h : (Carry.after done).next entry segment = .ok carry) :
    carry = Carry.after (done ++ [segment]) := by
  unfold Carry.next at h
  dsimp only at h
  split at h
  · -- a segment with too many fields gives no carry at all
    cases h
  · -- each of the five fields is read on its own, whatever the others hold
    obtain ⟨start, hstart, h⟩ := Except.bind_eq_ok.mp h
    obtain ⟨length, hlength, h⟩ := Except.bind_eq_ok.mp h
    obtain ⟨fileIndex, hfile, h⟩ := Except.bind_eq_ok.mp h
    obtain ⟨jump, hjump, h⟩ := Except.bind_eq_ok.mp h
    obtain ⟨depth, hdepth, h⟩ := Except.bind_eq_ok.mp h
    obtain rfl := Except.pure_eq_ok.mp h
    rw [Carry.after, lastNumber_append hstart, lastNumber_append hlength, lastNumber_append hfile,
      lastJump_append hjump, lastDepth_append hdepth]

/-- The entry made from a carry holds the values carried. -/
theorem entry_eq_ok {done : List (List Char)} {k : Nat} {e : SourceEntry}
    (h : (Carry.after done).entry k = .ok e) :
    lastNumber 0 done = some e.start ∧ lastNumber 1 done = some e.length ∧
      lastNumber 2 done = some e.fileIndex ∧ lastJump done = e.jump ∧
      (lastNumber 4 done).getD 0 = e.modifierDepth := by
  unfold Carry.entry Carry.after at h
  split at h
  next hstart hlength hfile =>
    obtain rfl := Except.ok.inj h
    exact ⟨hstart, hlength, hfile, rfl, rfl⟩
  next => cases h

/-! ### The whole map -/

/-- The entry of the segment that stands behind `done`. -/
theorem carriedAt?_append {done rest : List (List Char)} {segment : List Char} {k : Nat}
    {e : SourceEntry} (h : (Carry.after (done ++ [segment])).entry k = .ok e) :
    carriedAt? (done ++ segment :: rest) done.length = some e := by
  obtain ⟨hstart, hlength, hfile, hjump, hdepth⟩ := entry_eq_ok h
  have htake : (done ++ segment :: rest).take (done.length + 1) = done ++ [segment] := by
    rw [List.take_length_add_append]
    rfl
  have hlt : done.length < (done ++ segment :: rest).length := by
    rw [List.length_append, List.length_cons]
    omega
  rw [carriedAt?, if_pos hlt, htake]
  dsimp only
  rw [hstart, hlength, hfile, hjump, hdepth]
  rfl

/-- **A run of the decoder** over the segments that are left gives their entries. -/
theorem decodeFrom_eq_ok {done rest : List (List Char)} {i : Nat} {entries : List SourceEntry}
    (h : decodeFrom i (Carry.after done) rest = .ok entries) :
    entries.length = rest.length ∧
      ∀ k < rest.length, entries[k]? = carriedAt? (done ++ rest) (done.length + k) := by
  -- The segments read so far grow by one in each step, and the carry stays the one after them.
  induction rest generalizing done i entries with
  | nil =>
    obtain rfl := Except.ok.inj h
    exact ⟨rfl, fun k hk => absurd hk (Nat.not_lt_zero k)⟩
  | cons segment rest ih =>
    obtain ⟨carry, hcarry, h⟩ := Except.bind_eq_ok.mp h
    obtain rfl := next_eq_ok hcarry
    obtain ⟨e, he, h⟩ := Except.bind_eq_ok.mp h
    obtain ⟨others, hothers, h⟩ := Except.bind_eq_ok.mp h
    obtain rfl := Except.pure_eq_ok.mp h
    obtain ⟨hlen, hget⟩ := ih hothers
    rw [List.append_assoc, List.singleton_append, List.length_append, List.length_singleton] at hget
    refine ⟨by rw [List.length_cons, List.length_cons, hlen], fun k hk => ?_⟩
    cases k with
    | zero => rw [List.getElem?_cons_zero, Nat.add_zero, carriedAt?_append he]
    | succ k =>
      -- entry `k + 1` from here is entry `k` once the segment counts as read
      rw [List.length_cons] at hk
      rw [List.getElem?_cons_succ, hget k (by omega)]
      congr 1
      omega

/-- A decoded map has one entry for each segment. -/
theorem size_of_decode {text : String} {m : SourceMap} (h : decode text = .ok m) :
    m.size = (segments text).length := by
  obtain ⟨entries, hentries, rfl⟩ := Except.map_eq_ok.mp h
  rw [← Carry.after_nil] at hentries
  exact (decodeFrom_eq_ok hentries).1

/-- **The entries of a decoded map** are those read off its segments. -/
theorem entryAt?_of_decode {text : String} {m : SourceMap} (h : decode text = .ok m) (k : Nat) :
    m.entryAt? k = carriedAt? (segments text) k := by
  have hsize := size_of_decode h
  obtain ⟨entries, hentries, rfl⟩ := Except.map_eq_ok.mp h
  rw [← Carry.after_nil] at hentries
  have hget := (decodeFrom_eq_ok hentries).2 k
  rw [List.nil_append, List.length_nil, Nat.zero_add] at hget
  rw [entryAt?_natCast]
  by_cases hlt : k < (segments text).length
  · exact hget hlt
  · change entries.length = (segments text).length at hsize
    rw [carriedAt?, if_neg hlt]
    change entries[k]? = none
    exact List.getElem?_eq_none (by omega)

/-- The second entry takes its length from the first, the third its start from the second. -/
example : carriedAt? ["10:5:0".toList, "20".toList, ":7".toList] 2
    = some ⟨20, 7, 0, .regular, 0⟩ := by cbv

end Pinpoint.SourceMap
