import Mathlib.Data.Option.Basic

/-!
Contract: computations that can stop with an arithmetic fault.

Owns: `Faulty`, a computation that faults, refuses or returns; the division that faults on zero;
and `Erases`, that a computation, unless it faults, does what a given one in `Option` does.
-/

namespace Clarity.Library

variable {α β : Type} {numerator divisor : Nat}

inductive Faulty (α : Type)
  | fault
  | refused
  | value (result : α)

namespace Faulty

def bind (run : Faulty α) (next : α → Faulty β) : Faulty β :=
  match run with
  | fault => fault
  | refused => refused
  | value result => next result

instance : Monad Faulty where
  pure := value
  bind := bind

def divide (numerator divisor : Nat) : Faulty Nat :=
  if divisor = 0 then fault else value (numerator / divisor)

def remainder (numerator divisor : Nat) : Faulty Nat :=
  if divisor = 0 then fault else value (numerator % divisor)

/-- A computation without divisions. -/
def lift : Option α → Faulty α
  | none => refused
  | some result => value result

def isFault : Faulty α → Bool
  | fault => true
  | _ => false

variable {run : Faulty α} {next : α → Faulty β}

theorem isFault_iff : run.isFault = true ↔ run = fault := by
  cases run <;> simp [isFault]

@[simp] theorem pure_eq (result : α) : (pure result : Faulty α) = value result := rfl

@[simp] theorem value_bind (result : α) : value result >>= next = next result := rfl

@[simp] theorem divide_of_ne (positive : divisor ≠ 0) :
    divide numerator divisor = value (numerator / divisor) := if_neg positive

@[simp] theorem remainder_of_ne (positive : divisor ≠ 0) :
    remainder numerator divisor = value (numerator % divisor) := if_neg positive

@[simp] theorem divide_eq_fault_iff : divide numerator divisor = fault ↔ divisor = 0 := by
  unfold divide
  split <;> simp_all

@[simp] theorem lift_ne_fault (plain : Option α) : lift plain ≠ fault := by
  cases plain <;> simp [lift]

@[simp] theorem lift_eq_value_iff {plain : Option α} {result : α} :
    lift plain = value result ↔ plain = some result := by
  cases plain <;> simp [lift]

theorem lift_bind (plain : Option α) (plainNext : α → Option β) :
    lift (plain.bind plainNext) = lift plain >>= fun result => lift (plainNext result) := by
  cases plain <;> rfl

@[simp] theorem bind_eq_fault_iff :
    run >>= next = fault ↔ run = fault ∨ ∃ result, run = value result ∧ next result = fault := by
  cases run <;> simp [Bind.bind, bind]

/-- Without a fault, the computation does what the plain one does. -/
def Erases (run : Faulty α) (plain : Option α) : Prop := run = fault ∨ run = lift plain

namespace Erases

theorem lift (plain : Option α) : Erases (lift plain) plain := Or.inr rfl

theorem value (result : α) : Erases (value result) (some result) := Or.inr rfl

theorem divide (numerator divisor : Nat) :
    Erases (divide numerator divisor) (some (numerator / divisor)) := by
  by_cases zero : divisor = 0
  · exact Or.inl (divide_eq_fault_iff.mpr zero)
  · exact Or.inr (divide_of_ne zero)

theorem bind {plain : Option α} {plainNext : α → Option β} (first : Erases run plain)
    (second : ∀ result, Erases (next result) (plainNext result)) :
    Erases (run >>= next) (plain.bind plainNext) := by
  rcases first with faults | same
  · exact Or.inl (bind_eq_fault_iff.mpr (Or.inl faults))
  · rw [same]
    cases plain with
    | none => exact Or.inr rfl
    | some result => exact second result

/-- A step that the plain computation does without a chance to refuse. -/
theorem bind_some {result : α} {plain : Option β} (first : Erases run (some result))
    (second : Erases (next result) plain) : Erases (run >>= next) plain := by
  rcases first with faults | same
  · exact Or.inl (bind_eq_fault_iff.mpr (Or.inl faults))
  · rw [same]
    exact second

theorem map {plain : Option α} (erases : Erases run plain) (f : α → β) :
    Erases (run >>= fun result => pure (f result)) (plain.map f) := by
  rw [Option.map_eq_bind]
  exact erases.bind fun result => .value (f result)

end Erases

end Faulty

end Clarity.Library
