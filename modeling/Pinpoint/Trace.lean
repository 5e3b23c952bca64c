/-!
# Computations that note things on their way

A `Trace ν ε α` is what a computation noted, in order, and how it ended: with a result, or with an error
that stopped it. Notes made before an error are kept. Sequencing (`bind`) puts the notes of the two
computations after each other and stops at the first error, which makes traces a lawful monad.
-/

namespace Pinpoint

/-- The notes of a computation and its outcome. -/
structure Trace (ν ε α : Type) where
  notes : List ν
  outcome : Except ε α

namespace Trace

variable {ν ε α β : Type}

@[ext] theorem ext {x y : Trace ν ε α} (hn : x.notes = y.notes) (ho : x.outcome = y.outcome) :
    x = y := by
  cases x
  cases y
  simp_all

/-- A result, and nothing noted. -/
protected def pure (a : α) : Trace ν ε α := ⟨[], .ok a⟩

/-- First `x`; if it gives a result, then `f` of the result. -/
protected def bind (x : Trace ν ε α) (f : α → Trace ν ε β) : Trace ν ε β :=
  match x.outcome with
  | .ok a => ⟨x.notes ++ (f a).notes, (f a).outcome⟩
  | .error e => ⟨x.notes, .error e⟩

instance : Monad (Trace ν ε) where
  pure := Trace.pure
  bind := Trace.bind

/-- Notes one thing. -/
def note (n : ν) : Trace ν ε Unit := ⟨[n], .ok ()⟩

/-- An outcome, and nothing noted. -/
def lift (x : Except ε α) : Trace ν ε α := ⟨[], x⟩

instance : MonadLift (Except ε) (Trace ν ε) := ⟨lift⟩

/-- The same computation with its errors read as others. -/
def mapError {δ : Type} (f : ε → δ) (x : Trace ν ε α) : Trace ν δ α :=
  ⟨x.notes, x.outcome.mapError f⟩

/-! ### Laws -/

@[simp] theorem pure_notes (a : α) : (pure a : Trace ν ε α).notes = [] := rfl

@[simp] theorem pure_outcome (a : α) : (pure a : Trace ν ε α).outcome = .ok a := rfl

@[simp] theorem note_notes (n : ν) : (note n : Trace ν ε Unit).notes = [n] := rfl

@[simp] theorem note_outcome (n : ν) : (note n : Trace ν ε Unit).outcome = .ok () := rfl

@[simp] theorem lift_notes (x : Except ε α) : (lift x : Trace ν ε α).notes = [] := rfl

@[simp] theorem lift_outcome (x : Except ε α) : (lift x : Trace ν ε α).outcome = x := rfl

/-- After a result the second computation's notes follow the first one's. -/
theorem bind_of_ok {x : Trace ν ε α} {a : α} (h : x.outcome = .ok a) (f : α → Trace ν ε β) :
    x >>= f = ⟨x.notes ++ (f a).notes, (f a).outcome⟩ := by
  show Trace.bind x f = _
  simp [Trace.bind, h]

/-- After an error nothing follows. -/
theorem bind_of_error {x : Trace ν ε α} {e : ε} (h : x.outcome = .error e) (f : α → Trace ν ε β) :
    x >>= f = ⟨x.notes, .error e⟩ := by
  show Trace.bind x f = _
  simp [Trace.bind, h]

private theorem bind_pure_self (x : Trace ν ε α) : Trace.bind x Trace.pure = x := by
  unfold Trace.bind
  split <;> ext1 <;> simp_all [Trace.pure]

private theorem pure_bind_apply (a : α) (f : α → Trace ν ε β) :
    Trace.bind (Trace.pure a) f = f a := by
  ext1 <;> simp [Trace.bind, Trace.pure]

private theorem bind_assoc_apply {γ : Type} (x : Trace ν ε α) (f : α → Trace ν ε β)
    (g : β → Trace ν ε γ) :
    Trace.bind (Trace.bind x f) g = Trace.bind x (fun a => Trace.bind (f a) g) := by
  cases hx : x.outcome with
  | error e => simp [Trace.bind, hx]
  | ok a =>
    cases hf : (f a).outcome with
    | error e => simp [Trace.bind, hx, hf]
    | ok b => simp [Trace.bind, hx, hf]

instance : LawfulMonad (Trace ν ε) :=
  LawfulMonad.mk' _ bind_pure_self pure_bind_apply bind_assoc_apply

end Trace

end Pinpoint
