import Mathlib.Algebra.Group.Nat.Defs
import Mathlib.Data.List.Basic

/-!
Contract: big-endian numerals and the order of their bytes.

Owns: `bigEndian`, the bytes of a number from the most significant one on, how they are read back,
and that the lexicographic order of such bytes, with anything behind them, is the order of the
numbers.
-/

namespace Clarity.Library

/-- The lowest `width` bytes of a number, the most significant one first. -/
def bigEndian : Nat → Nat → List UInt8
  | 0, _ => []
  | width + 1, value => UInt8.ofNat (value / 256 ^ width) :: bigEndian width value

@[simp] theorem bigEndian_length (width value : Nat) : (bigEndian width value).length = width := by
  induction width with
  | zero => rfl
  | succ width ih => rw [bigEndian, List.length_cons, ih]

/-- The bytes are read back by shifting one in at a time. -/
theorem foldl_bigEndian (width value start : Nat) :
    (bigEndian width value).foldl (fun number byte => number * 256 + byte.toNat) start =
      start * 256 ^ width + value % 256 ^ width := by
  induction width generalizing start with
  | zero => simp [bigEndian, Nat.mod_one]
  | succ width ih =>
    have digits : value % 256 ^ (width + 1) = _ := Nat.mod_pow_succ
    rw [bigEndian, List.foldl_cons, ih, UInt8.toNat_ofNat', digits, pow_succ 256 width, Nat.add_mul,
      Nat.mul_assoc, Nat.mul_comm 256, Nat.add_assoc, Nat.add_comm (value % _),
      Nat.mul_comm (256 ^ width) (_ % _)]

theorem bigEndian_mod (width value more : Nat) (fits : width ≤ more) :
    bigEndian width (value % 256 ^ more) = bigEndian width value := by
  induction width with
  | zero => rfl
  | succ width ih =>
    have digit : value % 256 ^ more / 256 ^ width % 256 = value / 256 ^ width % 256 := by
      rw [← Nat.add_sub_of_le fits, Nat.pow_add, Nat.pow_succ, Nat.mul_assoc,
        Nat.mod_mul_right_div_self, Nat.mod_mul_right_mod]
    unfold bigEndian
    rw [ih (Nat.le_of_succ_le fits)]
    congr 1
    rw [UInt8.ofNat_eq_iff_mod_eq_toNat, UInt8.toNat_ofNat']
    exact digit

/-- The bytes of the greater number are the greater bytes. -/
theorem bigEndian_append_lt_iff {width left right : Nat} (leftFits : left < 256 ^ width)
    (rightFits : right < 256 ^ width) (leftTail rightTail : List UInt8) :
    bigEndian width left ++ leftTail < bigEndian width right ++ rightTail ↔
      left < right ∨ (left = right ∧ leftTail < rightTail) := by
  induction width generalizing left right with
  | zero =>
    rw [Nat.pow_zero, Nat.lt_one_iff] at leftFits rightFits
    simp [bigEndian, leftFits, rightFits]
  | succ width ih =>
    have positive : 0 < 256 ^ width := Nat.pow_pos (by decide)
    have leftDigit : left / 256 ^ width < 256 :=
      Nat.div_lt_of_lt_mul (by rwa [Nat.pow_succ] at leftFits)
    have rightDigit : right / 256 ^ width < 256 :=
      Nat.div_lt_of_lt_mul (by rwa [Nat.pow_succ] at rightFits)
    unfold bigEndian
    rw [List.cons_append, List.cons_append, List.cons_lt_cons_iff,
      ← bigEndian_mod width left width (Nat.le_refl _),
      ← bigEndian_mod width right width (Nat.le_refl _),
      ih (Nat.mod_lt _ positive) (Nat.mod_lt _ positive), UInt8.lt_iff_toNat_lt, ← UInt8.toNat_inj,
      UInt8.toNat_ofNat', UInt8.toNat_ofNat', Nat.mod_eq_of_lt leftDigit,
      Nat.mod_eq_of_lt rightDigit]
    have isLeft := Nat.div_add_mod left (256 ^ width)
    have isRight := Nat.div_add_mod right (256 ^ width)
    have leftRest := Nat.mod_lt left positive
    have rightRest := Nat.mod_lt right positive
    generalize left / 256 ^ width = leftHigh at *
    generalize right / 256 ^ width = rightHigh at *
    rcases Nat.lt_trichotomy leftHigh rightHigh with below | same | above
    · have gap : 256 ^ width * leftHigh + 256 ^ width ≤ 256 ^ width * rightHigh := by
        rw [← Nat.mul_succ]
        exact Nat.mul_le_mul_left _ below
      have less : left < right := by omega
      simp [below, less]
    · subst same
      simp only [Nat.lt_irrefl, true_and, false_or]
      have sameOrder : left % 256 ^ width < right % 256 ^ width ↔ left < right := by omega
      have sameValue : left % 256 ^ width = right % 256 ^ width ↔ left = right := by omega
      rw [sameOrder, sameValue]
    · have gap : 256 ^ width * rightHigh + 256 ^ width ≤ 256 ^ width * leftHigh := by
        rw [← Nat.mul_succ]
        exact Nat.mul_le_mul_left _ above
      have greater : right < left := by omega
      simp [Nat.lt_asymm above, Nat.ne_of_gt above, Nat.lt_asymm greater, Nat.ne_of_gt greater]

end Clarity.Library
