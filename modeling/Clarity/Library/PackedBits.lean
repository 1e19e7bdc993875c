import Mathlib.Data.List.Basic
import Mathlib.Data.Nat.Bitwise

/-!
Contract: bit strings packed into bytes, most significant bit first.

Owns:
- `packed`, which reads one bit of a byte string, and `packBits`, which writes bits into a
  zeroed buffer one after the other;
- that the bits written are the bits read, with zeros behind them;
- `firstDifference`, the loop that compares two bit strings position by position.
-/

namespace Clarity.Library.PackedBits

def byteCount (count : Nat) : Nat := (count + 7) / 8

/-- Bit `index` of a packed string; there are zeros behind its end. -/
def packed (bytes : List UInt8) (index : Nat) : Bool :=
  (bytes.getD (index / 8) 0).toNat.testBit (7 - index % 8)

/-- Bit `index` is set. -/
def setBit (buffer : List UInt8) (index : Nat) : List UInt8 :=
  buffer.modify (index / 8) (· ||| UInt8.ofNat (2 ^ (7 - index % 8)))

/-- The bits of `bit` below `count`, written into a buffer of zeros. -/
def packBits (count : Nat) (bit : Nat → Bool) : List UInt8 :=
  (List.range count).foldl (fun buffer index => if bit index then setBit buffer index else buffer)
    (List.replicate (byteCount count) 0)

/-- A list of bits, packed. -/
def pack (bits : List Bool) : List UInt8 := packBits bits.length (bits.getD · false)

/-! ## Reading what was written -/

@[simp] theorem setBit_length (buffer : List UInt8) (index : Nat) :
    (setBit buffer index).length = buffer.length := by
  simp [setBit]

theorem mask_toNat (place : Nat) (below : place < 8) :
    (UInt8.ofNat (2 ^ place)).toNat = 2 ^ place := by
  rw [UInt8.toNat_ofNat']
  apply Nat.mod_eq_of_lt
  exact Nat.pow_lt_pow_right (by decide) below

theorem packed_setBit (buffer : List UInt8) (index other : Nat) (inside : index / 8 < buffer.length) :
    packed (setBit buffer index) other = (packed buffer other || decide (index = other)) := by
  unfold packed setBit
  have changed (change : UInt8 → UInt8) : (buffer.modify (index / 8) change).getD (other / 8) 0 =
      if other / 8 = index / 8 then change (buffer.getD (other / 8) 0)
      else buffer.getD (other / 8) 0 := by
    simp only [List.getD_eq_getElem?_getD, List.getElem?_modify]
    by_cases same : other / 8 = index / 8
    · simp [same, inside]
    · simp [same, Ne.symm same]
  rw [changed]
  by_cases sameByte : other / 8 = index / 8
  · rw [if_pos sameByte, UInt8.toNat_or, Nat.testBit_or, mask_toNat _ (by omega),
      Nat.testBit_two_pow]
    congr 1
    apply decide_eq_decide.mpr
    omega
  · rw [if_neg sameByte]
    have different : index ≠ other := fun same => sameByte (by rw [same])
    simp [different]

/-- The loop after `count` positions, in a buffer that has room for them. -/
theorem packed_foldl (buffer : List UInt8) (bit : Nat → Bool) (count index : Nat)
    (room : count ≤ 8 * buffer.length) :
    let written := (List.range count).foldl
      (fun buffer index => if bit index then setBit buffer index else buffer) buffer
    written.length = buffer.length ∧
      packed written index = (packed buffer index || (decide (index < count) && bit index)) := by
  induction count with
  | zero => simp
  | succ count ih =>
    obtain ⟨length, found⟩ := ih (by omega)
    simp only [List.range_succ, List.foldl_append, List.foldl_cons, List.foldl_nil]
    by_cases isSet : bit count = true
    · rw [if_pos isSet]
      refine ⟨by rw [setBit_length, length], ?_⟩
      rw [packed_setBit _ _ _ (by rw [length]; omega), found]
      by_cases same : count = index
      · subst same
        simp [isSet]
      · have bound : (index < count + 1) ↔ index < count := by omega
        simp [same, bound]
    · rw [if_neg isSet]
      refine ⟨length, ?_⟩
      rw [found]
      by_cases same : index = count
      · subst same
        simp [isSet]
      · have bound : (index < count + 1) ↔ index < count := by omega
        simp [bound]

theorem packed_zeros (count index : Nat) : packed (List.replicate count 0) index = false := by
  have zero : (List.replicate count (0 : UInt8)).getD (index / 8) 0 = 0 := by
    rw [List.getD_eq_getElem?_getD, List.getElem?_replicate]
    split <;> rfl
  unfold packed
  rw [zero]
  exact Nat.zero_testBit _

theorem packBits_spec (count : Nat) (bit : Nat → Bool) (index : Nat) :
    (packBits count bit).length = byteCount count ∧
      packed (packBits count bit) index = (decide (index < count) && bit index) := by
  have room : count ≤ 8 * (List.replicate (byteCount count) (0 : UInt8)).length := by
    rw [List.length_replicate]
    unfold byteCount
    omega
  have written := packed_foldl _ bit count index room
  rw [packed_zeros, Bool.false_or, List.length_replicate] at written
  exact written

@[simp] theorem packBits_length (count : Nat) (bit : Nat → Bool) :
    (packBits count bit).length = byteCount count := (packBits_spec count bit 0).1

@[simp] theorem pack_length (bits : List Bool) : (pack bits).length = byteCount bits.length :=
  packBits_length _ _

theorem packed_pack (bits : List Bool) (index : Nat) :
    packed (pack bits) index = bits.getD index false := by
  rw [pack, (packBits_spec _ _ _).2]
  by_cases inside : index < bits.length
  · simp [inside]
  · simp [inside, List.getD_eq_getElem?_getD]

/-- Only the bits below `count` are written. -/
theorem packBits_eq_pack {count : Nat} {bit : Nat → Bool} {bits : List Bool}
    (length : count = bits.length) (same : ∀ index < count, bit index = bits.getD index false) :
    packBits count bit = pack bits := by
  subst length
  unfold pack packBits
  apply List.foldl_ext
  intro buffer index member
  rw [same index (List.mem_range.mp member)]

/-- Packed strings of one length are equal only when the bits are. -/
theorem pack_injective {left right : List Bool} (lengths : left.length = right.length)
    (same : pack left = pack right) : left = right := by
  apply List.ext_getElem lengths
  intro index inLeft inRight
  have read : packed (pack left) index = packed (pack right) index := by rw [same]
  rw [packed_pack, packed_pack] at read
  simpa [inLeft, inRight] using read

/-! ## Comparing position by position -/

/-- The first position below `limit` at which two bit strings differ, or `limit`. -/
def firstDifference (limit : Nat) (left right : Nat → Bool) : Nat :=
  (List.range limit).findIdx fun index => left index != right index

theorem firstDifference_eq {limit place : Nat} {left right : Nat → Bool} (below : place < limit)
    (different : left place ≠ right place)
    (before : ∀ index < place, left index = right index) :
    firstDifference limit left right = place := by
  have inRange : place < (List.range limit).length := by simpa using below
  apply (List.findIdx_eq inRange).mpr
  simp only [List.getElem_range, bne_iff_ne, ne_eq, bne_eq_false_iff_eq]
  exact ⟨different, fun index smaller => before index smaller⟩

end Clarity.Library.PackedBits
