import Pinpoint.Trace
import Mathlib

/-!
# Results and notes of a sequence of computations

What a chain of computations gives when it comes to its end. For results alone (`Except`) a bind or a
traversal succeeds exactly if all its parts do (`Except.bind_eq_ok`, `List.mapM_eq_ok`). A trace adds the
notes to that: its outcome is the outcome of the plain computation (`Trace.outcome_bind`,
`Trace.outcome_mapM`), and once it has a result its notes are those of its parts, one after the other
(`Trace.notes_bind`, `Trace.notes_mapM`). What a trace may note at all is `Trace.Only`.

These are the only lemmas by which later modules take a chain apart.
-/

namespace Pinpoint

variable {ν ε α β : Type}

/-! ### Results -/

/-- A bind has a result exactly if both of its parts have one. -/
theorem Except.bind_eq_ok {x : Except ε α} {f : α → Except ε β} {b : β} :
    x >>= f = .ok b ↔ ∃ a, x = .ok a ∧ f a = .ok b := by
  cases x with
  | error e => simp [bind, Except.bind]
  | ok a => simp [bind, Except.bind]

/-- A bind fails exactly if its first part fails, or its second one does after a result. -/
theorem Except.bind_eq_error {x : Except ε α} {f : α → Except ε β} {e : ε} :
    x >>= f = .error e ↔ x = .error e ∨ ∃ a, x = .ok a ∧ f a = .error e := by
  cases x with
  | error e => simp [bind, Except.bind]
  | ok a => simp [bind, Except.bind]

/-- A mapped result is the image of a result. -/
theorem Except.map_eq_ok {x : Except ε α} {f : α → β} {b : β} :
    x.map f = .ok b ↔ ∃ a, x = .ok a ∧ f a = b := by
  cases x with
  | error e => simp [Except.map]
  | ok a => simp [Except.map]

/-- What an error is called does not matter for a result. -/
theorem Except.mapError_eq_ok {δ : Type} {x : Except ε α} {f : ε → δ} {a : α} :
    x.mapError f = .ok a ↔ x = .ok a := by
  cases x with
  | error e => simp [Except.mapError]
  | ok b => simp [Except.mapError]

/-- A renamed error is the image of an error. -/
theorem Except.mapError_eq_error {δ : Type} {x : Except ε α} {f : ε → δ} {d : δ} :
    x.mapError f = .error d ↔ ∃ e, x = .error e ∧ f e = d := by
  cases x with
  | error e => simp [Except.mapError]
  | ok b => simp [Except.mapError]

/-- After a result the chain goes on with it. -/
theorem Except.ok_bind (a : α) (f : α → Except ε β) : (.ok a >>= f : Except ε β) = f a := rfl

@[simp] theorem Except.pure_eq_ok {a b : α} : (pure a : Except ε α) = .ok b ↔ a = b := by
  simp [pure, Except.pure]

/-- **A traversal** has a result exactly if it has one at every element, and then its result lists
theirs. -/
theorem List.mapM_eq_ok {f : α → Except ε β} {xs : List α} {ys : List β} :
    xs.mapM f = .ok ys ↔ List.Forall₂ (fun x y => f x = .ok y) xs ys := by
  induction xs generalizing ys with
  | nil => cases ys <;> simp
  | cons x xs ih =>
    rw [List.mapM_cons, Except.bind_eq_ok]
    constructor
    · rintro ⟨y, hy, h⟩
      obtain ⟨rest, hrest, h⟩ := Except.bind_eq_ok.mp h
      obtain rfl := Except.pure_eq_ok.mp h
      exact .cons hy (ih.mp hrest)
    · rintro (_ | ⟨hy, hrest⟩)
      exact ⟨_, hy, Except.bind_eq_ok.mpr ⟨_, ih.mpr hrest, rfl⟩⟩

/-- What there is for each element can be listed. -/
theorem List.exists_forall₂_of_forall {R : α → β → Prop} {p : β → Prop} {xs : List α}
    (h : ∀ x ∈ xs, ∃ y, R x y ∧ p y) : ∃ ys, List.Forall₂ R xs ys ∧ ∀ y ∈ ys, p y := by
  induction xs with
  | nil => exact ⟨[], .nil, fun y hy => absurd hy List.not_mem_nil⟩
  | cons x xs ih =>
    obtain ⟨⟨y, hy, hp⟩, hrest⟩ := List.forall_mem_cons.mp h
    obtain ⟨ys, hys, hall⟩ := ih hrest
    exact ⟨y :: ys, .cons hy hys, List.forall_mem_cons.mpr ⟨hp, hall⟩⟩

/-- A traversal whose elements all have a result with some property has a list of such results. -/
theorem List.mapM_ok_of_forall {f : α → Except ε β} {p : β → Prop} {xs : List α}
    (h : ∀ x ∈ xs, ∃ y, f x = .ok y ∧ p y) : ∃ ys, xs.mapM f = .ok ys ∧ ∀ y ∈ ys, p y := by
  obtain ⟨ys, hys, hall⟩ := List.exists_forall₂_of_forall h
  exact ⟨ys, List.mapM_eq_ok.mpr hys, hall⟩

/-- Traversals that agree on the elements are the same. -/
theorem List.mapM_congr_of_forall {f g : α → Except ε β} {xs : List α} (h : ∀ x ∈ xs, f x = g x) :
    xs.mapM f = xs.mapM g := by
  induction xs with
  | nil => rfl
  | cons x xs ih =>
    obtain ⟨hhead, htail⟩ := List.forall_mem_cons.mp h
    rw [List.mapM_cons, List.mapM_cons, hhead, ih htail]

/-- A traversal has a result if it has one at every element. -/
theorem List.mapM_isOk {f : α → Except ε β} {xs : List α} (h : ∀ x ∈ xs, ∃ y, f x = .ok y) :
    ∃ ys, xs.mapM f = .ok ys := by
  have hall : ∀ x ∈ xs, ∃ y, f x = .ok y ∧ True := by
    intro x hx
    obtain ⟨y, hy⟩ := h x hx
    exact ⟨y, hy, trivial⟩
  obtain ⟨ys, hys, -⟩ := List.mapM_ok_of_forall hall
  exact ⟨ys, hys⟩

/-- A traversal in which nothing else can go wrong ends with an error if one of its elements does. -/
theorem List.mapM_eq_error {f : α → Except ε β} {e : ε} {xs : List α}
    (h : ∀ x ∈ xs, (∃ y, f x = .ok y) ∨ f x = .error e) (hx : ∃ x ∈ xs, f x = .error e) :
    xs.mapM f = .error e := by
  induction xs with
  | nil =>
    obtain ⟨x, hx, -⟩ := hx
    cases hx
  | cons x xs ih =>
    obtain ⟨hhead, htail⟩ := List.forall_mem_cons.mp h
    rw [List.mapM_cons]
    rcases hhead with ⟨y, hy⟩ | herror
    · -- the element that fails comes later
      have hlater : ∃ x ∈ xs, f x = .error e := by
        obtain ⟨z, hz, hfz⟩ := hx
        rcases List.mem_cons.mp hz with rfl | hz
        · rw [hy] at hfz
          cases hfz
        · exact ⟨z, hz, hfz⟩
      rw [hy, ih htail hlater]
      rfl
    · rw [herror]
      rfl

/-- A traversal has a result, or it ends with the error of one of its elements. -/
theorem List.mapM_ends (f : α → Except ε β) (xs : List α) :
    (∃ ys, xs.mapM f = .ok ys) ∨ ∃ x ∈ xs, ∃ e, f x = .error e ∧ xs.mapM f = .error e := by
  induction xs with
  | nil => exact .inl ⟨[], rfl⟩
  | cons x xs ih =>
    rw [List.mapM_cons]
    cases hx : f x with
    | error e => exact .inr ⟨x, List.mem_cons_self, e, hx, rfl⟩
    | ok y =>
      rcases ih with ⟨ys, hys⟩ | ⟨z, hz, e, he, hxs⟩
      · rw [hys]
        exact .inl ⟨_, rfl⟩
      · rw [hxs]
        exact .inr ⟨z, List.mem_cons_of_mem x hz, e, he, rfl⟩

/-- Two relations between lists, one after the other. -/
theorem List.forall₂_comp {γ : Type} {R : α → β → Prop} {S : β → γ → Prop} {xs : List α}
    {ys : List β} {zs : List γ} (hxy : List.Forall₂ R xs ys) (hyz : List.Forall₂ S ys zs) :
    List.Forall₂ (fun x z => ∃ y, R x y ∧ S y z) xs zs := by
  induction hxy generalizing zs with
  | nil =>
    cases hyz
    exact .nil
  | cons hR _ ih =>
    obtain _ | ⟨hS, hyz⟩ := hyz
    exact .cons ⟨_, hR, hS⟩ (ih hyz)

/-- Every element on the right stands for one on the left. -/
theorem List.exists_of_mem_forall₂ {R : α → β → Prop} {xs : List α} {ys : List β}
    (h : List.Forall₂ R xs ys) {y : β} (hy : y ∈ ys) : ∃ x ∈ xs, R x y := by
  induction h with
  | nil => cases hy
  | @cons x z xs ys hR _ ih =>
    rcases List.mem_cons.mp hy with rfl | hy
    · exact ⟨x, List.mem_cons_self, hR⟩
    · obtain ⟨w, hw, hR⟩ := ih hy
      exact ⟨w, List.mem_cons_of_mem x hw, hR⟩

/-- Every element on the left has one on the right at the same place. -/
theorem List.exists_getElem?_of_forall₂ {R : α → β → Prop} {xs : List α} {ys : List β}
    (h : List.Forall₂ R xs ys) {i : Nat} {x : α} (hx : xs[i]? = some x) :
    ∃ y, ys[i]? = some y ∧ R x y := by
  induction h generalizing i with
  | nil => cases hx
  | @cons z y xs ys hR _ ih =>
    cases i with
    | zero =>
      obtain rfl := Option.some.inj hx
      exact ⟨y, rfl, hR⟩
    | succ i => exact ih hx

/-! ### Traces -/

namespace Trace

/-- Notes do not matter for how a chain ends. -/
@[simp] theorem outcome_bind (x : Trace ν ε α) (f : α → Trace ν ε β) :
    (x >>= f).outcome = x.outcome >>= fun a => (f a).outcome := by
  cases hx : x.outcome with
  | error e => rw [bind_of_error hx]; rfl
  | ok a => rw [bind_of_ok hx]; rfl

/-- The notes of a chain whose first part has a result. -/
theorem notes_bind {x : Trace ν ε α} {a : α} (h : x.outcome = .ok a) (f : α → Trace ν ε β) :
    (x >>= f).notes = x.notes ++ (f a).notes := by
  rw [bind_of_ok h]

/-- A result that is only handed on notes nothing. -/
theorem notes_lift_bind_pure (x : Except ε α) (f : α → β) :
    (lift x >>= fun a => pure (f a) : Trace ν ε β).notes = [] := by
  cases x <;> rfl

/-- A traversal ends as the traversal of the outcomes does. -/
theorem outcome_mapM (f : α → Trace ν ε β) (xs : List α) :
    (xs.mapM f).outcome = xs.mapM fun x => (f x).outcome := by
  induction xs with
  | nil => rfl
  | cons x xs ih =>
    rw [List.mapM_cons, List.mapM_cons, outcome_bind]
    congr 1
    funext y
    rw [outcome_bind, ih]
    rfl

/-- **The notes of a traversal** that comes to its end are those of its elements, in their order. -/
theorem notes_mapM {f : α → Trace ν ε β} {xs : List α} {ys : List β}
    (h : (xs.mapM f).outcome = .ok ys) : (xs.mapM f).notes = xs.flatMap fun x => (f x).notes := by
  induction xs generalizing ys with
  | nil => rfl
  | cons x xs ih =>
    rw [outcome_mapM, List.mapM_cons, Except.bind_eq_ok] at h
    obtain ⟨y, hy, h⟩ := h
    obtain ⟨rest, hrest, -⟩ := Except.bind_eq_ok.mp h
    rw [← outcome_mapM] at hrest
    rw [List.mapM_cons, notes_bind hy, notes_bind hrest, ih hrest, List.flatMap_cons, pure_notes,
      List.append_nil]

/-- **A traversal, element by element.** Once it comes to its end, its notes and its results are those of the
elements, which can be told apart. -/
theorem exists_parts_of_mapM {f : α → Trace ν ε β} {xs : List α} {ys : List β}
    (h : (xs.mapM f).outcome = .ok ys) :
    ∃ parts : List (List ν × β), List.Forall₂ (fun x p => f x = ⟨p.1, .ok p.2⟩) xs parts ∧
      (xs.mapM f).notes = parts.flatMap (·.1) ∧ ys = parts.map (·.2) := by
  rw [notes_mapM h]
  rw [outcome_mapM, List.mapM_eq_ok] at h
  induction h with
  | nil => exact ⟨[], .nil, rfl, rfl⟩
  | @cons x y xs ys hx _ ih =>
    obtain ⟨parts, hparts, hnotes, hresults⟩ := ih
    refine ⟨((f x).notes, y) :: parts, .cons (Trace.ext rfl hx) hparts, ?_, ?_⟩
    · rw [List.flatMap_cons, List.flatMap_cons, hnotes]
    · rw [List.map_cons, hresults]

/-! ### What a trace may note -/

/-- All notes of a trace have a property. -/
def Only (p : ν → Prop) (x : Trace ν ε α) : Prop := ∀ n ∈ x.notes, p n

section Only

variable {p : ν → Prop}

theorem only_pure (a : α) : Only p (pure a : Trace ν ε α) :=
  fun _ hn => absurd hn List.not_mem_nil

theorem only_lift (x : Except ε α) : Only p (lift x : Trace ν ε α) :=
  fun _ hn => absurd hn List.not_mem_nil

theorem only_note {n : ν} (hn : p n) : Only p (note n : Trace ν ε Unit) := by
  intro m hm
  rw [note_notes, List.mem_singleton] at hm
  exact hm ▸ hn

/-- A chain notes nothing but what its parts note. -/
theorem Only.bind {x : Trace ν ε α} {f : α → Trace ν ε β} (hx : Only p x)
    (hf : ∀ a, Only p (f a)) : Only p (x >>= f) := by
  intro n hn
  cases h : x.outcome with
  | error e =>
    rw [bind_of_error h] at hn
    exact hx n hn
  | ok a =>
    rw [notes_bind h, List.mem_append] at hn
    rcases hn with hn | hn
    · exact hx n hn
    · exact hf a n hn

theorem only_note_pure {n : ν} (hn : p n) (a : α) :
    Only p (note n >>= fun _ => pure a : Trace ν ε α) :=
  (only_note hn).bind fun _ => only_pure a

theorem only_mapM {f : α → Trace ν ε β} (hf : ∀ a, Only p (f a)) (xs : List α) :
    Only p (xs.mapM f) := by
  induction xs with
  | nil => exact only_pure []
  | cons x xs ih =>
    rw [List.mapM_cons]
    exact (hf x).bind fun y => ih.bind fun ys => only_pure (y :: ys)

theorem only_foldlM {f : β → α → Trace ν ε β} (hf : ∀ b a, Only p (f b a)) (xs : List α) (b : β) :
    Only p (xs.foldlM f b) := by
  induction xs generalizing b with
  | nil => exact only_pure b
  | cons x xs ih =>
    rw [List.foldlM_cons]
    exact (hf b x).bind fun b => ih b

end Only

end Trace

end Pinpoint
