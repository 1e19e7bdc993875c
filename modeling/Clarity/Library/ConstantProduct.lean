import Mathlib.Algebra.Order.Floor.Div
import Mathlib.Algebra.Order.Ring.Nat
import Mathlib.Tactic.LinearCombination

/-!
Contract: the constant product rule in integers.

Owns: what a pool pays for an input, rounded down; that it pays less than it has and never
loses in the product of its reserves; and when it pays at least a given ratio, also for an input
that was bounded by a price.
-/

namespace Clarity.Library.ConstantProduct

variable {reserveIn reserveOut net gross : Nat}

def output (reserveIn reserveOut net : Nat) : Nat := reserveOut * net / (reserveIn + net)

theorem output_lt (hasIn : 0 < reserveIn) (hasOut : 0 < reserveOut) :
    output reserveIn reserveOut net < reserveOut := by
  unfold output
  apply Nat.div_lt_of_lt_mul
  rw [Nat.mul_comm]
  exact Nat.mul_lt_mul_of_pos_right (Nat.lt_add_of_pos_left hasIn) hasOut

theorem le_output_iff {amount : Nat} (hasIn : 0 < reserveIn) :
    amount ≤ output reserveIn reserveOut net ↔ amount * (reserveIn + net) ≤ reserveOut * net := by
  unfold output
  exact Nat.le_div_iff_mul_le (Nat.add_pos_left hasIn net)

/-- The product of the reserves does not fall, whatever part of the input the fee keeps. -/
theorem product_le (hasIn : 0 < reserveIn) (fee : net ≤ gross) :
    reserveIn * reserveOut ≤ (reserveIn + gross) * (reserveOut - output reserveIn reserveOut net) := by
  have paid : output reserveIn reserveOut net * (reserveIn + net) ≤ reserveOut * net :=
    (le_output_iff hasIn).mp (Nat.le_refl _)
  have more : (reserveIn + net) * (reserveOut - output reserveIn reserveOut net) ≤
      (reserveIn + gross) * (reserveOut - output reserveIn reserveOut net) :=
    Nat.mul_le_mul_right _ (Nat.add_le_add_left fee reserveIn)
  refine Nat.le_trans ?_ more
  rw [Nat.mul_sub]
  have spent : (reserveIn + net) * output reserveIn reserveOut net ≤ reserveOut * net := by
    rw [Nat.mul_comm]
    exact paid
  have expanded : (reserveIn + net) * reserveOut = reserveIn * reserveOut + reserveOut * net := by
    rw [Nat.add_mul, Nat.mul_comm net]
  omega

/-- A pool pays at least the ratio `minBuy : sell` for `amountIn` exactly when the least amount
that does is on its curve. -/
theorem ratio_le_output_iff {amountIn sell minBuy : Nat} (hasIn : 0 < reserveIn) (sells : 0 < sell) :
    amountIn * minBuy ≤ output reserveIn reserveOut net * sell ↔
      (amountIn * minBuy ⌈/⌉ sell) * (reserveIn + net) ≤ reserveOut * net := by
  rw [← le_output_iff hasIn, ceilDiv_le_iff_le_mul sells, Nat.mul_comm sell]

/-! ### Inputs within a price

A router that is given the least price `limit / scale` of an output lets in what keeps the sum of
the input and of `reserveIn * unit / keep` at or below `reserveOut * scale / limit`, where the fee
leaves `keep` of every `unit`. -/

section Bounded
variable {keep unit limit scale amountIn sell minBuy : Nat}

/-- What is left of the bound on an input. -/
def slack (reserveIn reserveOut keep unit limit scale amountIn : Nat) : Nat :=
  reserveOut * scale - limit * (amountIn + reserveIn * unit / keep)

/-- What the roundings take of the bound: those of the reserve and of the fee, that of the least
output within `minBuy : sell`, and the difference between that ratio and the limit. -/
def roundings (reserveIn keep unit limit scale amountIn sell minBuy : Nat) : Int :=
  sell * limit * (amountIn * (reserveIn * unit % keep : Nat) +
      (reserveIn * unit / keep : Nat) * (amountIn * keep % unit : Nat)) +
    unit * (reserveIn + (amountIn * keep / unit : Nat)) *
      (scale * ((amountIn * minBuy ⌈/⌉ sell : Nat) * sell - amountIn * minBuy) +
        amountIn * (minBuy * scale - limit * sell))

/-- A pool pays at least the ratio for an input within the bound exactly when what is left of the
bound makes up for the roundings. -/
theorem ratio_le_output_iff_roundings (hasIn : 0 < reserveIn) (sells : 0 < sell)
    (hasUnit : 0 < unit) (hasScale : 0 < scale)
    (bounded : limit * (amountIn + reserveIn * unit / keep) ≤ reserveOut * scale) :
    amountIn * minBuy ≤ output reserveIn reserveOut (amountIn * keep / unit) * sell ↔
      roundings reserveIn keep unit limit scale amountIn sell minBuy ≤
        sell * unit * (amountIn * keep / unit : Nat) *
          slack reserveIn reserveOut keep unit limit scale amountIn := by
  rw [ratio_le_output_iff hasIn sells]
  have isSlack : (slack reserveIn reserveOut keep unit limit scale amountIn : Int) =
      reserveOut * scale - limit * (amountIn + (reserveIn * unit / keep : Nat)) := by
    unfold slack
    rw [Nat.cast_sub bounded]
    push_cast
    rfl
  unfold roundings
  rw [isSlack]
  have held : (keep * (reserveIn * unit / keep : Nat) + (reserveIn * unit % keep : Nat) : Int) =
      reserveIn * unit := mod_cast Nat.div_add_mod (reserveIn * unit) keep
  have fee : (unit * (amountIn * keep / unit : Nat) + (amountIn * keep % unit : Nat) : Int) =
      amountIn * keep := mod_cast Nat.div_add_mod (amountIn * keep) unit
  generalize reserveIn * unit / keep = adjusted at *
  generalize reserveIn * unit % keep = heldRest at *
  generalize amountIn * keep / unit = net at *
  generalize amountIn * keep % unit = feeRest at *
  generalize amountIn * minBuy ⌈/⌉ sell = need at *
  have positive : (0 : Int) < sell * unit * scale :=
    mod_cast Nat.mul_pos (Nat.mul_pos sells hasUnit) hasScale
  have both : (sell * unit * net *
        (reserveOut * scale - limit * (amountIn + adjusted)) -
      (sell * limit * (amountIn * heldRest + adjusted * feeRest) +
        unit * (reserveIn + net) * (scale * (need * sell - amountIn * minBuy) +
          amountIn * (minBuy * scale - limit * sell))) : Int) =
      sell * unit * scale * (reserveOut * net - need * (reserveIn + net)) := by
    linear_combination (-(sell * limit * amountIn) : Int) * held - (sell * limit * adjusted : Int) * fee
  have onCurve : need * (reserveIn + net) ≤ reserveOut * net ↔
      (0 : Int) ≤ reserveOut * net - need * (reserveIn + net) := by
    rw [sub_nonneg]
    norm_cast
  rw [onCurve, ← mul_nonneg_iff_of_pos_left positive, ← both, sub_nonneg]

end Bounded
end Clarity.Library.ConstantProduct
