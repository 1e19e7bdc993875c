import Mathlib.Logic.Relation

/-!
Contract: partial programs on a state, described by the moves they are made of.

Owns: `Reaches`, "from a state with the invariant, whatever the program returns is a path of
moves away that keep it", its rules for the constructs of such programs, and the rule that turns
a property kept by every move into a property kept by every path.

A program is a function into `Option`; `none` says nothing.
-/

namespace Clarity.Library

open Relation

variable {σ ι : Type} {Keeps : σ → Prop} {Move : σ → σ → Prop}

/-- A move that keeps the invariant. -/
structure Keeping (Keeps : σ → Prop) (Move : σ → σ → Prop) (before after : σ) : Prop where
  move : Move before after
  keeps : Keeps before → Keeps after

/-- From a state with `Keeps`, every state the program returns is a path of moves that keep it
away. -/
def Reaches (Keeps : σ → Prop) (Move : σ → σ → Prop) (start : σ) (result : Option σ) : Prop :=
  Keeps start → ∀ final, result = some final → ReflTransGen (Keeping Keeps Move) start final

theorem path_invariant {Property : σ → Prop}
    (kept : ∀ before after, Move before after → Property before → Property after)
    {start final : σ} (path : ReflTransGen Move start final) (holds : Property start) :
    Property final := by
  induction path with
  | refl => exact holds
  | tail _ move ih => exact kept _ _ move ih

namespace Reaches

variable {start middle final : σ} {result : Option σ}

theorem path (moves : ReflTransGen (Keeping Keeps Move) start final) :
    Reaches Keeps Move start (some final) := by
  rintro _ other ⟨⟩
  exact moves

/-- The invariant may be used of the start. -/
theorem given (reaches : Keeps start → Reaches Keeps Move start result) :
    Reaches Keeps Move start result :=
  fun keeps => reaches keeps keeps

theorem stay : Reaches Keeps Move start (some start) :=
  path .refl

/-- A guard that stops the program where it is. -/
theorem guard {stops : Prop} [Decidable stops] (goesOn : ¬stops → Reaches Keeps Move start result) :
    Reaches Keeps Move start (if stops then some start else result) := by
  split
  · exact stay
  next going => exact goesOn going

theorem step (move : Keeping Keeps Move start final) : Reaches Keeps Move start (some final) :=
  path (.single move)

/-- What is reached after some moves is reached from before them. -/
theorem after (moves : ReflTransGen (Keeping Keeps Move) start middle)
    (reaches : Reaches Keeps Move middle result) : Reaches Keeps Move start result := by
  intro keeps final ran
  have keepsMiddle := path_invariant (fun _ _ => Keeping.keeps) moves keeps
  exact moves.trans (reaches keepsMiddle final ran)

theorem afterStep (move : Keeping Keeps Move start middle)
    (reaches : Reaches Keeps Move middle result) : Reaches Keeps Move start result :=
  after (.single move) reaches

theorem bind {next : σ → Option σ} (first : Reaches Keeps Move start result)
    (second : ∀ middle, ReflTransGen (Keeping Keeps Move) start middle →
      Reaches Keeps Move middle (next middle)) :
    Reaches Keeps Move start (result >>= next) := by
  intro keeps final ran
  obtain ⟨middle, firstRan, secondRan⟩ := Option.bind_eq_some_iff.mp ran
  have path := first keeps middle firstRan
  exact after path (second middle path) keeps final secondRan

theorem foldlM {body : σ → ι → Option σ} (items : List ι)
    (each : ∀ item ∈ items, ∀ state, Reaches Keeps Move state (body state item)) :
    ∀ {start}, Reaches Keeps Move start (items.foldlM body start) := by
  induction items with
  | nil => exact stay
  | cons item rest ih =>
    intro start
    rw [List.foldlM_cons]
    apply bind (each item List.mem_cons_self start)
    intro middle _
    apply ih
    intro other member
    exact each other (List.mem_cons_of_mem item member)

end Reaches

end Clarity.Library
