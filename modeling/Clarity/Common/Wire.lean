import Mathlib.Tactic.Ring
import Mathlib.Tactic.NormNum

/-!
Contract: the little-endian wire format of `Common/Wire.h`.

Owns:
- fixed-width unsigned integers as byte strings, and back;
- the bounds-checked `Reader`, as a parser that fails on underflow;
- the law that a reader gets back what a writer put, followed by any rest.

The source's `Reader` raises a sticky error flag and returns zeros; every caller
tests the flag before it uses what it read. Here the first underflow ends the parse.
-/

namespace Clarity.Common

abbrev Bytes := List UInt8

/-- The low `width` bytes of `value`, least significant first (`putU8` to `putU64`). -/
def putUInt : Nat → Nat → Bytes
  | 0, _ => []
  | width + 1, value => UInt8.ofNat (value % 256) :: putUInt width (value / 256)

/-- The number whose little-endian bytes are given. -/
def getUInt : Bytes → Nat
  | [] => 0
  | byte :: rest => byte.toNat + 256 * getUInt rest

def putU8 (value : Nat) : Bytes := putUInt 1 value
def putU16 (value : Nat) : Bytes := putUInt 2 value
def putU32 (value : Nat) : Bytes := putUInt 4 value
def putU64 (value : Nat) : Bytes := putUInt 8 value

/-- The bytes of a string literal (the domain tags are plain ASCII). -/
def putText (text : List Char) : Bytes := text.map fun char => UInt8.ofNat char.toNat

abbrev Reader (α : Type) := StateT Bytes Option α

namespace Reader

/-- `Reader::readVector`: the next `count` bytes. -/
def readVector (count : Nat) : Reader Bytes := fun input =>
  if input.length < count then none else some (input.take count, input.drop count)

def readUInt (width : Nat) : Reader Nat := do
  let bytes ← readVector width
  pure (getUInt bytes)

def readU8 : Reader Nat := readUInt 1
def readU16 : Reader Nat := readUInt 2
def readU32 : Reader Nat := readUInt 4
def readU64 : Reader Nat := readUInt 8

def remaining : Reader Nat := fun input => some (input.length, input)

/-- The failing reader: what a `return false` of a decoder stands for. -/
def fail {α : Type} : Reader α := fun _ => none

/-- Reject the input unless `condition` holds. -/
def require (condition : Bool) : Reader Unit := if condition then pure () else fail

def replicate {α : Type} (reader : Reader α) : Nat → Reader (List α)
  | 0 => pure []
  | count + 1 => do
    let first ← reader
    let rest ← replicate reader count
    pure (first :: rest)

end Reader

/-! ## Integers -/

@[simp] theorem putUInt_length (width value : Nat) : (putUInt width value).length = width := by
  induction width generalizing value with
  | zero => rfl
  | succ width ih => simp [putUInt, ih]

theorem getUInt_putUInt (width value : Nat) :
    getUInt (putUInt width value) = value % 256 ^ width := by
  induction width generalizing value with
  | zero => simp [putUInt, getUInt, Nat.mod_one]
  | succ width ih =>
    have lowByte : (UInt8.ofNat (value % 256)).toNat = value % 256 := by
      simp
    rw [putUInt, getUInt, ih, lowByte, pow_succ', Nat.mod_mul]

theorem getUInt_lt (bytes : Bytes) : getUInt bytes < 256 ^ bytes.length := by
  induction bytes with
  | nil => simp [getUInt]
  | cons byte rest ih =>
    have byteBound : byte.toNat < 256 := byte.toNat_lt
    rw [getUInt, List.length_cons, pow_succ]
    omega

/-- Two byte strings of one length with the same value are equal. -/
theorem getUInt_injective {left right : Bytes} (lengths : left.length = right.length)
    (same : getUInt left = getUInt right) : left = right := by
  induction left generalizing right with
  | nil => exact (List.length_eq_zero_iff.mp lengths.symm).symm
  | cons byte rest ih =>
    cases right with
    | nil => cases lengths
    | cons other others =>
      have byteBound : byte.toNat < 256 := byte.toNat_lt
      have otherBound : other.toNat < 256 := other.toNat_lt
      simp only [getUInt] at same
      have heads : byte = other := UInt8.toNat_inj.mp (by omega)
      have tails : rest = others :=
        ih (Nat.succ.inj lengths) (by omega)
      rw [heads, tails]

/-- Two values below the width's bound with the same bytes are equal. -/
theorem putUInt_injective {width left right : Nat} (leftFits : left < 256 ^ width)
    (rightFits : right < 256 ^ width) (same : putUInt width left = putUInt width right) :
    left = right := by
  have values := congrArg getUInt same
  rwa [getUInt_putUInt, getUInt_putUInt, Nat.mod_eq_of_lt leftFits,
    Nat.mod_eq_of_lt rightFits] at values

theorem putUInt_append_injective {width left right : Nat} {leftRest rightRest : Bytes}
    (leftFits : left < 256 ^ width) (rightFits : right < 256 ^ width)
    (same : putUInt width left ++ leftRest = putUInt width right ++ rightRest) :
    left = right ∧ leftRest = rightRest := by
  have lengths : (putUInt width left).length = (putUInt width right).length := by simp
  obtain ⟨heads, tails⟩ := List.append_inj same lengths
  exact ⟨putUInt_injective leftFits rightFits heads, tails⟩

/-! ## Readers after writers -/

theorem Reader.bind_of_read {α β : Type} {reader : Reader α} {input rest : Bytes} {value : α}
    (read : reader input = some (value, rest)) (next : α → Reader β) :
    (reader >>= next) input = next value rest := by
  change (reader input).bind _ = _
  rw [read]
  rfl

@[simp] theorem Reader.readVector_append (bytes rest : Bytes) :
    Reader.readVector bytes.length (bytes ++ rest) = some (bytes, rest) := by
  simp [Reader.readVector]

@[simp] theorem Reader.readUInt_append (width value : Nat) (rest : Bytes) :
    Reader.readUInt width (putUInt width value ++ rest) = some (value % 256 ^ width, rest) := by
  have read := Reader.readVector_append (putUInt width value) rest
  rw [putUInt_length] at read
  change (Reader.readVector width (putUInt width value ++ rest)).bind _ = _
  rw [read, ← getUInt_putUInt]
  rfl

/-! ## What a reader returns -/

namespace Reader

variable {α β : Type}

/-- Every value the reader returns satisfies `Property`. -/
def Yields (Property : α → Prop) (reader : Reader α) : Prop :=
  ∀ bytes value rest, reader bytes = some (value, rest) → Property value

theorem Yields.pure {Property : α → Prop} {value : α} (holds : Property value) :
    Yields Property (Pure.pure value) := by
  intro bytes other rest read
  cases read
  exact holds

theorem Yields.fail {Property : α → Prop} : Yields Property (fail : Reader α) := by
  intro bytes value rest read
  cases read

theorem Yields.bind {Middle : α → Prop} {Property : β → Prop} {reader : Reader α}
    {next : α → Reader β} (first : Yields Middle reader)
    (second : ∀ value, Middle value → Yields Property (next value)) :
    Yields Property (reader >>= next) := by
  intro bytes value rest read
  obtain ⟨⟨middle, left⟩, readFirst, readSecond⟩ := Option.bind_eq_some_iff.mp read
  exact second middle (first bytes middle left readFirst) left value rest readSecond

/-- A value that is read and not looked at. -/
theorem Yields.skip {Property : β → Prop} {reader : Reader α} {next : α → Reader β}
    (second : ∀ value, Yields Property (next value)) : Yields Property (reader >>= next) :=
  Yields.bind (fun _ _ _ _ => trivial) fun value _ => second value

theorem readUInt_yields (width : Nat) : Yields (· < 256 ^ width) (readUInt width) := by
  intro bytes value rest read
  obtain ⟨⟨taken, left⟩, readBytes, isValue⟩ := Option.bind_eq_some_iff.mp read
  have length : taken.length = width := by
    unfold readVector at readBytes
    split at readBytes
    · cases readBytes
    next enough =>
      cases readBytes
      exact List.length_take_of_le (by omega)
  cases isValue
  have bound := getUInt_lt taken
  rwa [length] at bound

end Reader

end Clarity.Common
