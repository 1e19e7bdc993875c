import Clarity.Crypto.Types

/-!
Contract: how a reader runs over what a writer put.

Owns: for each step of a reader, what it makes of the bytes its writer put in front: fixed-width
integers and byte arrays, a length with that many bytes behind it, a counted list of items, and the
checks in between; and which bytes a step that succeeded has read.

A reader is run step by step by rewriting with these equations. A step whose check fails ends the
run, so one equation says both when the bytes are read back and when they are rejected.
-/

namespace Clarity.Common.Reader

open Crypto

variable {α β γ : Type} {value limit : Nat} {reader : Reader α} {write : γ → Bytes}

/-! ## Fixed widths -/

theorem readUInt_bind {width : Nat} (fits : value < 256 ^ width) (next : Nat → Reader β)
    (rest : Bytes) : (readUInt width >>= next) (putUInt width value ++ rest) = next value rest := by
  apply bind_of_read
  rw [readUInt_append, Nat.mod_eq_of_lt fits]

theorem readU8_bind (fits : value < 2 ^ 8) (next : Nat → Reader β) (rest : Bytes) :
    (readU8 >>= next) (putU8 value ++ rest) = next value rest :=
  readUInt_bind fits next rest

theorem readU16_bind (fits : value < 2 ^ 16) (next : Nat → Reader β) (rest : Bytes) :
    (readU16 >>= next) (putU16 value ++ rest) = next value rest :=
  readUInt_bind fits next rest

theorem readU32_bind (fits : value < 2 ^ 32) (next : Nat → Reader β) (rest : Bytes) :
    (readU32 >>= next) (putU32 value ++ rest) = next value rest :=
  readUInt_bind fits next rest

theorem readU64_bind (fits : value < 2 ^ 64) (next : Nat → Reader β) (rest : Bytes) :
    (readU64 >>= next) (putU64 value ++ rest) = next value rest :=
  readUInt_bind fits next rest

theorem readBytes32_bind (value : BitVec 256) (next : BitVec 256 → Reader β) (rest : Bytes) :
    (readBytes32 >>= next) (bytes32 value ++ rest) = next value rest :=
  bind_of_read (readBytes32_append value rest) next

theorem readBytes64_bind (value : BitVec 512) (next : BitVec 512 → Reader β) (rest : Bytes) :
    (readBytes64 >>= next) (bytes64 value ++ rest) = next value rest :=
  bind_of_read (readBytes64_append value rest) next

/-! ## Checks -/

theorem require_bind (condition : Bool) (next : Unit → Reader β) (input : Bytes) :
    (require condition >>= next) input = if condition then next () input else none := by
  cases condition with
  | false => rfl
  | true => rfl

theorem remaining_bind (next : Nat → Reader β) (input : Bytes) :
    (remaining >>= next) input = next input.length input :=
  rfl

theorem readVector_bind (bytes : Bytes) (next : Bytes → Reader β) (rest : Bytes) :
    (readVector bytes.length >>= next) (bytes ++ rest) = next bytes rest :=
  bind_of_read (readVector_append bytes rest) next

theorem sized_bind {bytes : Bytes} (fits : bytes.length < 2 ^ 32) (next : Bytes → Reader β)
    (rest : Bytes) :
    (readU32 >>= fun size => require (size ≤ limit) >>= fun _ => readVector size >>= next)
        (putU32 bytes.length ++ (bytes ++ rest)) =
      if bytes.length ≤ limit then next bytes rest else none := by
  rw [readU32_bind fits, require_bind, readVector_bind]
  simp only [decide_eq_true_eq]

theorem sized_bind_last {bytes : Bytes} (fits : bytes.length < 2 ^ 32) (next : Bytes → Reader β) :
    (readU32 >>= fun size => require (size ≤ limit) >>= fun _ => readVector size >>= next)
        (putU32 bytes.length ++ bytes) =
      if bytes.length ≤ limit then next bytes [] else none := by
  have ended := @sized_bind β limit bytes fits next []
  rwa [List.append_nil] at ended

/-! ## Lists -/

/-- A reader run once for each item: it gets all values back, or fails on the first item it does
not take. -/
theorem replicate_flatMap {takes : γ → Bool} {value : γ → α} (items : List γ)
    (each : ∀ item ∈ items, ∀ rest, reader (write item ++ rest) =
      if takes item then some (value item, rest) else none) (rest : Bytes) :
    replicate reader items.length (items.flatMap write ++ rest) =
      if items.all takes then some (items.map value, rest) else none := by
  induction items with
  | nil => rfl
  | cons item items ih =>
    have first := each item List.mem_cons_self (items.flatMap write ++ rest)
    have others := ih fun other member =>
      each other (List.mem_cons_of_mem _ member)
    rw [List.flatMap_cons, List.append_assoc]
    change (reader (write item ++ (items.flatMap write ++ rest))).bind _ = _
    rw [first]
    cases taken : takes item with
    | false => simp [taken]
    | true =>
      change (replicate reader items.length (items.flatMap write ++ rest)).bind _ = _
      rw [others, List.all_cons, taken, Bool.true_and]
      split
      · rfl
      · rfl

theorem counted_bind {takes : γ → Bool} {value : γ → α} {items : List γ}
    (fits : items.length < 2 ^ 32)
    (each : ∀ item ∈ items, ∀ rest, reader (write item ++ rest) =
      if takes item then some (value item, rest) else none) (next : List α → Reader β)
    (rest : Bytes) :
    (readU32 >>= fun count => require (count ≤ limit) >>= fun _ => replicate reader count >>= next)
        (putU32 items.length ++ (items.flatMap write ++ rest)) =
      if items.length ≤ limit ∧ items.all takes = true then next (items.map value) rest
      else none := by
  rw [readU32_bind fits, require_bind]
  by_cases few : items.length ≤ limit
  · rw [if_pos (decide_eq_true few)]
    change (replicate reader items.length (items.flatMap write ++ rest)).bind _ = _
    rw [replicate_flatMap items each]
    by_cases all : items.all takes = true
    · rw [if_pos all, if_pos ⟨few, all⟩]
      rfl
    · rw [if_neg all, if_neg fun both => all both.2]
      rfl
  · rw [if_neg (by simpa using few), if_neg fun both => few both.1]

theorem counted_bind_all {value : γ → α} {items : List γ} (fits : items.length < 2 ^ 32)
    (each : ∀ item ∈ items, ∀ rest, reader (write item ++ rest) = some (value item, rest))
    (next : List α → Reader β) (rest : Bytes) :
    (readU32 >>= fun count => require (count ≤ limit) >>= fun _ => replicate reader count >>= next)
        (putU32 items.length ++ (items.flatMap write ++ rest)) =
      if items.length ≤ limit then next (items.map value) rest else none := by
  have taken : ∀ item ∈ items, ∀ rest, reader (write item ++ rest) =
      if (fun _ : γ => true) item then some (value item, rest) else none :=
    fun item member rest => (each item member rest).trans (if_pos rfl).symm
  refine (counted_bind fits taken next rest).trans ?_
  refine if_congr ?_ rfl rfl
  simp

/-! ## What was read -/

variable {input rest : Bytes}

theorem bind_eq_some_iff {next : α → Reader β} {out : β × Bytes} :
    (reader >>= next) input = some out ↔
      ∃ value rest, reader input = some (value, rest) ∧ next value rest = some out := by
  change (reader input).bind _ = _ ↔ _
  simp [Option.bind_eq_some_iff]

theorem readVector_eq_some_iff {count : Nat} {bytes : Bytes} :
    readVector count input = some (bytes, rest) ↔ bytes.length = count ∧ input = bytes ++ rest := by
  constructor
  · intro read
    unfold readVector at read
    split at read
    · cases read
    next enough =>
      cases read
      exact ⟨List.length_take_of_le (by omega), (List.take_append_drop count input).symm⟩
  · rintro ⟨rfl, rfl⟩
    exact readVector_append bytes rest

/-- An integer is read from its bytes, and from no others. -/
theorem readUInt_eq_some_iff {width value : Nat} :
    readUInt width input = some (value, rest) ↔
      value < 256 ^ width ∧ input = putUInt width value ++ rest := by
  constructor
  · intro read
    have fits := readUInt_yields width input value rest read
    obtain ⟨bytes, _, taken, isValue⟩ := bind_eq_some_iff.mp read
    obtain ⟨length, rfl⟩ := readVector_eq_some_iff.mp taken
    cases isValue
    refine ⟨fits, congrArg (· ++ rest) (getUInt_injective ?_ ?_)⟩
    · rw [putUInt_length, length]
    · rw [getUInt_putUInt, Nat.mod_eq_of_lt fits]
  · rintro ⟨fits, rfl⟩
    rw [readUInt_append, Nat.mod_eq_of_lt fits]

theorem require_eq_some_iff {condition : Bool} {done : Unit} :
    require condition input = some (done, rest) ↔ condition = true ∧ input = rest := by
  cases condition
  · simp [require, fail]
  · exact Option.some_inj.trans (by simp)

end Clarity.Common.Reader
