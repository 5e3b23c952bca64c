import Pinpoint.Json.Reader
import Pinpoint.Proofs.Trace

/-!
# The objects of a value

A property of objects may be asked of every object in a value, at whatever depth it stands
(`Json.Everywhere`). The first such property is that an object has no two fields of the same name
(`Json.DistinctNames`): a name that is given again replaces the value that was there, so it holds of all
that is read from a text (`distinctNames_of_parse`).
-/

namespace Pinpoint.Json

/-! ### Every object in a value -/

mutual

/-- Every object in a value has a property. -/
def Everywhere (p : Fields → Prop) : Json → Prop
  | .arr items => EveryItem p items
  | .obj fields => p fields ∧ EveryField p fields
  | _ => True

/-- Every object in the items of a list has a property. -/
def EveryItem (p : Fields → Prop) : List Json → Prop
  | [] => True
  | item :: rest => item.Everywhere p ∧ EveryItem p rest

/-- Every object in the values of fields has a property. -/
def EveryField (p : Fields → Prop) : List (String × Json) → Prop
  | [] => True
  | (_, value) :: rest => value.Everywhere p ∧ EveryField p rest

end

variable {p : Fields → Prop}

theorem everyItem_iff {items : List Json} :
    EveryItem p items ↔ ∀ item ∈ items, item.Everywhere p := by
  induction items with
  | nil => exact ⟨fun _ _ h => absurd h List.not_mem_nil, fun _ => trivial⟩
  | cons item rest ih => rw [EveryItem, ih, List.forall_mem_cons]

theorem everyField_iff {fields : Fields} :
    EveryField p fields ↔ ∀ f ∈ fields, f.2.Everywhere p := by
  induction fields with
  | nil => exact ⟨fun _ _ h => absurd h List.not_mem_nil, fun _ => trivial⟩
  | cons f rest ih => rw [EveryField, ih, List.forall_mem_cons]

@[simp] theorem everywhere_arr {items : List Json} :
    (Json.arr items).Everywhere p ↔ ∀ item ∈ items, item.Everywhere p := by
  rw [Everywhere, everyItem_iff]

@[simp] theorem everywhere_obj {fields : Fields} :
    (Json.obj fields).Everywhere p ↔ p fields ∧ ∀ f ∈ fields, f.2.Everywhere p := by
  rw [Everywhere, everyField_iff]

/-- What a field of an object holds is in the object. -/
theorem Everywhere.get? {fields : Fields} {name : String} {value : Json}
    (h : (Json.obj fields).Everywhere p) (hvalue : Fields.get? fields name = some value) :
    value.Everywhere p := by
  obtain ⟨f, hf, rfl⟩ := Option.map_eq_some_iff.mp hvalue
  exact (everywhere_obj.mp h).2 f (List.mem_of_find?_eq_some hf)

/-! ### Names -/

/-- An object has no two fields of the same name. -/
def DistinctNames (fields : Fields) : Prop := (fields.map (·.1)).Nodup

/-- Among distinct names every field is found under its name. -/
theorem DistinctNames.get?_of_mem {fields : Fields} (h : DistinctNames fields) {f : String × Json}
    (hf : f ∈ fields) : Fields.get? fields f.1 = some f.2 := by
  induction fields with
  | nil => cases hf
  | cons g rest ih =>
    obtain ⟨hnew, hrest⟩ := List.nodup_cons.mp h
    rw [Fields.get?_cons]
    rcases List.mem_cons.mp hf with rfl | hlater
    · exact if_pos rfl
    · have hne : g.1 ≠ f.1 := by
        intro heq
        exact hnew (List.mem_map.mpr ⟨f, hlater, heq.symm⟩)
      rw [if_neg hne]
      exact ih hrest hlater

namespace Fields

/-- A field that is set keeps the names apart: it is there already, or it is new. -/
theorem distinctNames_set {fields : Fields} (h : DistinctNames fields) (name : String) (value : Json) :
    DistinctNames (set fields name value) := by
  unfold DistinctNames set at *
  split
  next =>
    -- the names stay as they are
    have hnames : ((fields.map fun f => if f.1 = name then (name, value) else f).map (·.1))
        = fields.map (·.1) := by
      rw [List.map_map]
      refine List.map_congr_left fun f _ => ?_
      show (if f.1 = name then (name, value) else f).1 = f.1
      split
      next hf => exact hf.symm
      next => rfl
    rw [hnames]
    exact h
  next hnew =>
    rw [List.map_append, List.map_singleton, List.nodup_append]
    refine ⟨h, List.nodup_singleton name, ?_⟩
    intro other hother last hlast
    rw [List.mem_singleton.mp hlast]
    rintro rfl
    obtain ⟨f, hf, hname⟩ := List.mem_map.mp hother
    exact hnew (List.any_eq_true.mpr ⟨f, hf, decide_eq_true hname⟩)

/-- A field that is set holds its value, and the others hold theirs. -/
theorem mem_set {fields : Fields} {name : String} {value : Json} {f : String × Json}
    (h : f ∈ set fields name value) : f = (name, value) ∨ f ∈ fields := by
  unfold set at h
  split at h
  · obtain ⟨g, hg, rfl⟩ := List.mem_map.mp h
    split
    · exact .inl rfl
    · exact .inr hg
  · rcases List.mem_append.mp h with h | h
    · exact .inr h
    · exact .inl (List.mem_singleton.mp h)

/-- Fields named one after the other have distinct names, and nothing but what was named. -/
theorem ofPairs_spec (pairs : List (String × Json)) :
    DistinctNames (ofPairs pairs) ∧ ∀ f ∈ ofPairs pairs, f ∈ pairs := by
  induction pairs using List.reverseRecOn with
  | nil => exact ⟨List.nodup_nil, fun f h => h⟩
  | append_singleton pairs last ih =>
    obtain ⟨hnames, hmem⟩ := ih
    have hset : ofPairs (pairs ++ [last]) = set (ofPairs pairs) last.1 last.2 :=
      List.foldl_append ..
    rw [hset]
    refine ⟨distinctNames_set hnames last.1 last.2, fun f hf => ?_⟩
    rcases mem_set hf with rfl | hf
    · exact List.mem_append_right _ (List.mem_singleton.mpr rfl)
    · exact List.mem_append_left _ (hmem f hf)

end Fields

/-! ### What is read -/

namespace Reader

/-- Digits are read as a number, which has no objects in it. -/
theorem everywhere_readDigits {start cs rest : List Char} {negative : Bool} {j : Json}
    (h : readDigits start negative cs = .ok (j, rest)) : j.Everywhere p := by
  unfold readDigits at h
  split at h
  next => cases h
  next whole behind _ =>
    dsimp only at h
    split at h
    next =>
      obtain ⟨rfl, -⟩ := Prod.mk.inj (Except.ok.inj h)
      trivial
    next =>
      split at h
      next =>
        unfold integer at h
        split at h
        · cases h
        · obtain ⟨rfl, -⟩ := Prod.mk.inj (Except.ok.inj h)
          trivial
      next =>
        obtain ⟨rfl, -⟩ := Prod.mk.inj (Except.ok.inj h)
        trivial

/-- Neither has infinity. -/
theorem everywhere_readUnsigned {start cs rest : List Char} {negative : Bool} {j : Json}
    (h : readUnsigned start negative cs = .ok (j, rest)) : j.Everywhere p := by
  unfold readUnsigned at h
  split at h
  next r hinfinity =>
    unfold infinity? at hinfinity
    split at hinfinity
    next =>
      obtain rfl := Option.some.inj hinfinity
      obtain ⟨rfl, -⟩ := Prod.mk.inj (Except.ok.inj h)
      trivial
    next => cases hinfinity
  next => exact everywhere_readDigits h

theorem everywhere_readNumber {cs rest : List Char} {j : Json} (h : readNumber cs = .ok (j, rest)) :
    j.Everywhere p := by
  unfold readNumber at h
  split at h
  next => exact everywhere_readUnsigned h
  next => exact everywhere_readUnsigned h

/-- The names of every object are distinct in what is read with a bound on the depth, if they are in what was
read before. -/
structure ReadsDistinct (fuel : Nat) : Prop where
  value : ∀ {cs rest j}, readValue fuel cs = .ok (j, rest) → j.Everywhere DistinctNames
  items : ∀ {done cs rest j}, (∀ item ∈ done, item.Everywhere DistinctNames) →
    readItems fuel done cs = .ok (j, rest) → j.Everywhere DistinctNames
  fields : ∀ {done cs rest j}, (∀ f ∈ done, f.2.Everywhere DistinctNames) →
    readFields fuel done cs = .ok (j, rest) → j.Everywhere DistinctNames

section Step

variable {fuel : Nat} {cs rest : List Char} {j : Json}

theorem ReadsDistinct.value_succ (ih : ReadsDistinct fuel)
    (h : readValue (fuel + 1) cs = .ok (j, rest)) : j.Everywhere DistinctNames := by
  unfold readValue at h
  split at h
  next =>
    obtain ⟨r, -, hr⟩ := Except.map_eq_ok.mp h
    obtain ⟨rfl, -⟩ := Prod.mk.inj hr
    trivial
  next =>
    split at h
    · obtain ⟨rfl, -⟩ := Prod.mk.inj (Except.ok.inj h)
      trivial
    · exact ih.items (fun item hitem => absurd hitem List.not_mem_nil) h
  next =>
    split at h
    · obtain ⟨rfl, -⟩ := Prod.mk.inj (Except.ok.inj h)
      exact everywhere_obj.mpr ⟨List.nodup_nil, fun f hf => absurd hf List.not_mem_nil⟩
    · exact ih.fields (fun f hf => absurd hf List.not_mem_nil) h
  next =>
    obtain ⟨rfl, -⟩ := Prod.mk.inj (Except.ok.inj h)
    trivial
  next =>
    obtain ⟨rfl, -⟩ := Prod.mk.inj (Except.ok.inj h)
    trivial
  next =>
    obtain ⟨rfl, -⟩ := Prod.mk.inj (Except.ok.inj h)
    trivial
  next =>
    obtain ⟨rfl, -⟩ := Prod.mk.inj (Except.ok.inj h)
    trivial
  next => exact everywhere_readNumber h

theorem ReadsDistinct.items_succ (ih : ReadsDistinct fuel) {done : List Json}
    (hdone : ∀ item ∈ done, item.Everywhere DistinctNames)
    (h : readItems (fuel + 1) done cs = .ok (j, rest)) : j.Everywhere DistinctNames := by
  unfold readItems at h
  split at h
  next => cases h
  next item behind hitem =>
    have hall : ∀ i ∈ item :: done, i.Everywhere DistinctNames :=
      List.forall_mem_cons.mpr ⟨ih.value hitem, hdone⟩
    split at h
    · obtain ⟨rfl, -⟩ := Prod.mk.inj (Except.ok.inj h)
      exact everywhere_arr.mpr fun i hi => hall i (List.mem_reverse.mp hi)
    · exact ih.items hall h
    · cases h

theorem ReadsDistinct.fields_succ (ih : ReadsDistinct fuel) {done : Fields}
    (hdone : ∀ f ∈ done, f.2.Everywhere DistinctNames)
    (h : readFields (fuel + 1) done cs = .ok (j, rest)) : j.Everywhere DistinctNames := by
  unfold readFields at h
  split at h
  next =>
    split at h
    next => cases h
    next name behind hname =>
      split at h
      next =>
        split at h
        next => cases h
        next value behind hvalue =>
          have hall : ∀ f ∈ (name, value) :: done, f.2.Everywhere DistinctNames :=
            List.forall_mem_cons.mpr ⟨ih.value hvalue, hdone⟩
          split at h
          · -- only here an object is made, of fields whose values are all known
            obtain ⟨rfl, -⟩ := Prod.mk.inj (Except.ok.inj h)
            obtain ⟨hnames, hmem⟩ := Fields.ofPairs_spec ((name, value) :: done).reverse
            exact everywhere_obj.mpr
              ⟨hnames, fun f hf => hall f (List.mem_reverse.mp (hmem f hf))⟩
          · exact ih.fields hall h
          · cases h
      next => cases h
  next => cases h

end Step

theorem readsDistinct (fuel : Nat) : ReadsDistinct fuel := by
  induction fuel with
  | zero =>
    refine ⟨fun h => ?_, fun _ h => ?_, fun _ h => ?_⟩
    · cases h
    · cases h
    · cases h
  | succ fuel ih => exact ⟨ih.value_succ, ih.items_succ, ih.fields_succ⟩

end Reader

/-- **What is read from a text** has no two fields of the same name in one object. -/
theorem distinctNames_of_parse {text : List Char} {j : Json} (h : parse text = .ok j) :
    j.Everywhere DistinctNames := by
  unfold parse at h
  cases hread : Reader.readAll text with
  | error stop =>
    rw [hread] at h
    cases h
  | ok value =>
    rw [hread] at h
    obtain rfl := Except.ok.inj h
    unfold Reader.readAll at hread
    split at hread
    · cases hread
    · split at hread
      next => cases hread
      next value' rest hvalue =>
        split at hread
        · obtain rfl := Except.ok.inj hread
          exact (Reader.readsDistinct _).value hvalue
        · cases hread

end Pinpoint.Json
