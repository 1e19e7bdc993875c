import Mathlib.Data.Option.Basic
import Mathlib.Control.Lawful

/-!
Contract: what a computation that may fail guarantees when it succeeds.

Owns: `Ensures`, the postcondition of a computation in `Option`, with one rule for each
construct such computations are written in, and the rule for a loop over a list; the
inversion of a step of a computation in `Except`.

A failed computation guarantees nothing. The rules are equivalences, so `simp` turns a
postcondition of a whole program into conditions on what it returns.
-/

namespace Clarity.Library

variable {α β ι : Type} {Post Other : α → Prop}

/-- Whatever the computation returns satisfies `Post`. -/
def Ensures (Post : α → Prop) (outcome : Option α) : Prop :=
  ∀ value, outcome = some value → Post value

namespace Ensures

@[simp] theorem none_iff : Ensures Post none ↔ True := by
  simp [Ensures]

@[simp] theorem some_iff {value : α} : Ensures Post (some value) ↔ Post value := by
  simp [Ensures]

@[simp] theorem bind_iff {first : Option β} {next : β → Option α} :
    Ensures Post (first.bind next) ↔ ∀ value, first = some value → Ensures Post (next value) := by
  unfold Ensures
  constructor
  · intro ensures value ran final ranNext
    exact ensures final (Option.bind_eq_some_iff.mpr ⟨value, ran, ranNext⟩)
  · intro ensures final ran
    obtain ⟨value, ranFirst, ranNext⟩ := Option.bind_eq_some_iff.mp ran
    exact ensures value ranFirst final ranNext

theorem do_iff {first : Option β} {next : β → Option α} :
    Ensures Post (first >>= next) ↔ ∀ value, first = some value → Ensures Post (next value) :=
  bind_iff

theorem pure_iff {value : α} : Ensures Post (pure value) ↔ Post value := some_iff

@[simp] theorem guard_eq_some_iff {condition : Prop} [Decidable condition] {done : Unit} :
    (guard condition : Option Unit) = some done ↔ condition := by
  by_cases holds : condition <;> simp [guard, holds]

@[simp] theorem ite_iff {condition : Prop} [Decidable condition] {yes no : Option α} :
    Ensures Post (if condition then yes else no) ↔
      (condition → Ensures Post yes) ∧ (¬condition → Ensures Post no) := by
  by_cases holds : condition <;> simp [holds]

theorem map_iff {outcome : Option β} {f : β → α} :
    Ensures Post (outcome.map f) ↔ Ensures (fun value => Post (f value)) outcome := by
  cases outcome <;> simp

theorem mono {outcome : Option α} (ensures : Ensures Post outcome)
    (stronger : ∀ value, Post value → Other value) : Ensures Other outcome :=
  fun value ran => stronger value (ensures value ran)

end Ensures

/-- A computation with errors succeeds when both its parts do. -/
theorem bind_eq_ok_iff {ε : Type} {first : Except ε β} {next : β → Except ε α} {value : α} :
    first >>= next = .ok value ↔ ∃ middle, first = .ok middle ∧ next middle = .ok value := by
  cases first <;> simp [bind, Except.bind]

/-- A check in front of the rest is passed. -/
theorem ite_error_eq_ok_iff {ε : Type} {error : ε} {bad : Prop} [Decidable bad] {rest : Except ε α}
    {value : α} : (if bad then .error error else rest) = .ok value ↔ ¬bad ∧ rest = .ok value := by
  split <;> simp [*]

theorem foldl_keeps {Invariant : α → Prop} {body : α → ι → α} (items : List ι)
    (each : ∀ item ∈ items, ∀ state, Invariant state → Invariant (body state item)) :
    ∀ {start}, Invariant start → Invariant (items.foldl body start) := by
  induction items with
  | nil =>
    intro start holds
    exact holds
  | cons item rest ih =>
    intro start holds
    apply ih
    · intro other member
      exact each other (List.mem_cons_of_mem item member)
    · exact each item List.mem_cons_self start holds

end Clarity.Library
