import Clarity.Library.Table
import Mathlib.Algebra.Order.BigOperators.Group.List
import Mathlib.Algebra.Order.Ring.Int

/-!
Contract: totals over the entries of a table, and proportional shares of an amount.

Owns: `Table.total` with what a write does to it; `lossAlong`, what the steps of a loop lose
together; and the bound on the shares of an amount that is split in proportion to weights.
-/

namespace Clarity.Library

/-! ## Totals of tables -/

namespace Table

variable {K V : Type}

/-- The sum of a weight over the entries. -/
def total (table : Table K V) (weight : K → V → Nat) : Nat :=
  (table.entries.map fun entry => weight entry.1 entry.2).sum

variable [DecidableEq K]

/-- The weight of what is stored under a key. -/
def weightAt (table : Table K V) (weight : K → V → Nat) (key : K) : Nat :=
  (table.find? key).elim 0 (weight key)

theorem total_eq_erase (table : Table K V) (weight : K → V → Nat) (key : K) :
    table.total weight = table.weightAt weight key + (table.erase key).total weight := by
  have untouched (entries : List (K × V)) (absent : key ∉ entries.map Prod.fst) :
      entries.filter (fun entry => entry.1 ≠ key) = entries :=
    List.filter_eq_self.mpr fun entry member => decide_eq_true fun isKey =>
      absent (isKey ▸ List.mem_map_of_mem member)
  unfold weightAt total erase filter
  cases found : table.find? key with
  | none =>
    dsimp only
    rw [untouched _ (find?_eq_none_iff.mp found)]
    exact (Nat.zero_add _).symm
  | some value =>
    obtain ⟨before, after, isEntries⟩ := List.append_of_mem (find?_eq_some_iff.mp found)
    have distinct := table.distinct
    rw [isEntries, List.map_append, List.map_cons, List.nodup_middle, List.nodup_cons,
      ← List.map_append] at distinct
    dsimp only
    rw [isEntries, List.filter_append, List.filter_cons_of_neg (by simp), ← List.filter_append,
      untouched _ distinct.1, (List.perm_middle.map _).sum_eq]
    rfl

theorem erase_put (table : Table K V) (key : K) (value : V) :
    ((table.put key value).erase key).entries = (table.erase key).entries := by
  unfold put
  split
  next present =>
    show (List.map _ table.entries).filter _ = table.entries.filter _
    rw [List.filter_map]
    have same : table.entries.filter ((fun entry : K × V => decide (entry.1 ≠ key)) ∘ fun entry =>
        if entry.1 = key then (key, value) else entry) =
          table.entries.filter fun entry => entry.1 ≠ key := by
      apply List.filter_congr
      intro entry _
      by_cases isKey : entry.1 = key <;> simp [isKey]
    rw [same]
    refine (List.map_congr_left ?_).trans (List.map_id _)
    intro entry member
    have other : entry.1 ≠ key := by simpa using List.of_mem_filter member
    simp [other]
  next absent =>
    show (table.entries ++ [(key, value)]).filter _ = table.entries.filter _
    simp

/-- A write replaces the weight under its key. -/
theorem total_put (table : Table K V) (weight : K → V → Nat) (key : K) (value : V) :
    (table.put key value).total weight + table.weightAt weight key =
      table.total weight + weight key value := by
  have written : (table.put key value).weightAt weight key = weight key value := by
    unfold weightAt
    rw [find?_put, if_pos rfl]
    rfl
  have others : ((table.put key value).erase key).total weight = (table.erase key).total weight := by
    unfold total
    rw [erase_put]
  have before := table.total_eq_erase weight key
  have after := (table.put key value).total_eq_erase weight key
  rw [written, others] at after
  omega

end Table

/-! ## Losses along a loop -/

section Loops

variable {σ ι : Type} {step : σ → ι → σ} {loss : σ → ι → Int}

/-- What the steps of a loop lose together. -/
def lossAlong (step : σ → ι → σ) (loss : σ → ι → Int) : σ → List ι → Int
  | _, [] => 0
  | state, item :: rest => loss state item + lossAlong step loss (step state item) rest

theorem lossAlong_nonneg (nonneg : ∀ state item, 0 ≤ loss state item) (items : List ι) (state : σ) :
    0 ≤ lossAlong step loss state items := by
  induction items generalizing state with
  | nil => exact le_rfl
  | cons item rest ih => exact add_nonneg (nonneg state item) (ih _)

theorem lossAlong_cons_eq_zero_iff (nonneg : ∀ state item, 0 ≤ loss state item) {item : ι}
    {rest : List ι} {state : σ} : lossAlong step loss state (item :: rest) = 0 ↔
      loss state item = 0 ∧ lossAlong step loss (step state item) rest = 0 := by
  have first := nonneg state item
  have later := @lossAlong_nonneg _ _ step _ nonneg rest (step state item)
  rw [lossAlong]
  omega

end Loops

/-! ## Shares -/

/-- Integers below natural numbers have a sum below the sum of these. -/
theorem sum_le_sum_cast {ι : Type} {amounts : ι → Int} {bounds : ι → Nat} (items : List ι)
    (each : ∀ item ∈ items, amounts item ≤ bounds item) :
    (items.map amounts).sum ≤ ((items.map bounds).sum : Nat) := by
  induction items with
  | nil => exact Int.le_refl 0
  | cons item rest ih =>
    have first := each item List.mem_cons_self
    have later := ih fun other member =>
      each other (List.mem_cons_of_mem item member)
    simp only [List.map_cons, List.sum_cons, Int.natCast_add]
    omega

theorem sum_map_cast {ι : Type} (items : List ι) (amounts : ι → Nat) :
    (items.map fun item => (amounts item : Int)).sum = ((items.map amounts).sum : Nat) := by
  induction items with
  | nil => rfl
  | cons item rest ih => simp only [List.map_cons, List.sum_cons, Int.natCast_add, ih]

/-- Shares in proportion to weights and what their roundings take make up the amount. -/
theorem sum_shares_add_rests (amount total : Nat) (weights : List Nat) :
    (weights.map fun weight => amount * weight / total).sum * total +
        (weights.map fun weight => amount * weight % total).sum = amount * weights.sum := by
  induction weights with
  | nil => simp
  | cons weight rest ih =>
    have split := Nat.div_add_mod (amount * weight) total
    rw [Nat.mul_comm total] at split
    simp only [List.map_cons, List.sum_cons, Nat.add_mul, Nat.mul_add]
    omega

/-- Shares in proportion to weights, rounded down, do not exceed the amount. -/
theorem sum_shares_le (amount total : Nat) (weights : List Nat) (covers : weights.sum ≤ total) :
    (weights.map fun weight => amount * weight / total).sum ≤ amount := by
  have parts := sum_shares_add_rests amount total weights
  by_cases positive : 0 < total
  · have bound := Nat.mul_le_mul_left amount covers
    exact Nat.le_of_mul_le_mul_right (by omega) positive
  · have zero : total = 0 := by omega
    rw [zero]
    simp

end Clarity.Library
