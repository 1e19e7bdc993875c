import Clarity.Common.Framing
import Clarity.Consensus.Types

/-!
Contract: the vote codec and the signing hashes of `Consensus/Message.cpp`.

Owns: `encodeVote`, `decodeVote` and their round trip; the signed payloads of votes and
proposals, and that the payload of a vote determines height, round and value.

The signed payload of a vote says nothing about its type: a prevote and a precommit for
one value at one height and round have the same payload.
-/

namespace Clarity.Consensus

open Common Crypto Reader

def PROPOSAL_DOMAIN : Bytes := putText "CLRTY_PROPOSAL_V1".toList
def VOTE_DOMAIN : Bytes := putText "CLRTY_VOTE_V1".toList

def boolByte (flag : Bool) : Nat := if flag then 1 else 0

/-- The eight bytes `uint8_t(round >> (i * 8))` of a round, which has 32 bits. A shift by 32 or more
is undefined in C++; the processor takes the count modulo 32, so that the four bytes of the round
are written twice. -/
def roundBytes (round : Nat) : Bytes := putU32 round ++ putU32 round

def proposalPayload (height : Nat) (round : Nat) (blockHash : Hash) : Bytes :=
  putU64 height ++ roundBytes round ++ bytes32 blockHash

def proposalSigningHash (crypto : Primitives) (height : Nat) (round : Nat)
    (blockHash : Hash) : Hash :=
  crypto.hashDomain PROPOSAL_DOMAIN (proposalPayload height round blockHash)

def votePayload (height : Nat) (round : Nat) (isNil : Bool) (blockHash : Hash) : Bytes :=
  putU64 height ++ roundBytes round ++ putU8 (boolByte isNil) ++ bytes32 blockHash

/-- `voteSigningHash`: the round parameter has 32 bits, a wider argument is cut. -/
def voteSigningHash (crypto : Primitives) (height : Nat) (round : Nat) (isNil : Bool)
    (blockHash : Hash) : Hash :=
  crypto.hashDomain VOTE_DOMAIN (votePayload height (u32 round) isNil blockHash)

def Vote.signingHash (crypto : Primitives) (vote : Vote) : Hash :=
  voteSigningHash crypto vote.height vote.round vote.isNil vote.blockHash

/-! ## Codec -/

def encodeVote (vote : Vote) : Bytes :=
  putU64 vote.height ++ (putU64 vote.round ++ (putU64 vote.signerId ++
    (putU16 vote.signerIndex ++ (putU8 (boolByte vote.isNil) ++
      (bytes32 vote.blockHash ++ bytes64 vote.signature)))))

def readVote : Reader Vote := do
  let height ← readU64
  let round ← readU64
  let signerId ← readU64
  let signerIndex ← readU16
  let isNil ← readU8
  let blockHash ← readBytes32
  let signature ← readBytes64
  pure { height, round := u32 round, signerId, signerIndex, isNil := isNil != 0, blockHash,
         signature }

/-- `decodeVote`; trailing bytes are not looked at. -/
def decodeVote (data : Bytes) : Option Vote := readVote.run' data

def VOTE_WIRE_SIZE : Nat := 123

/-- The integers of a vote fit the types the source gives them. -/
structure Vote.InRange (vote : Vote) : Prop where
  height : vote.height < 2 ^ 64
  round : vote.round < 2 ^ 32
  signerId : vote.signerId < 2 ^ 64
  signerIndex : vote.signerIndex < 2 ^ 16

theorem encodeVote_length (vote : Vote) : (encodeVote vote).length = VOTE_WIRE_SIZE := by
  simp [encodeVote, putU64, putU16, putU8, VOTE_WIRE_SIZE]

theorem boolByte_lt (flag : Bool) : boolByte flag < 2 ^ 8 := by
  cases flag <;> decide

theorem boolByte_ne_zero (flag : Bool) : (boolByte flag != 0) = flag := by
  cases flag <;> rfl

/-- What was written is read back, whatever follows it. -/
theorem readVote_encodeVote {vote : Vote} (inRange : vote.InRange) (rest : Bytes) :
    readVote (encodeVote vote ++ rest) = some (vote, rest) := by
  obtain ⟨height, round, signerId, signerIndex⟩ := inRange
  have roundFits : vote.round < 2 ^ 64 := round.trans (by decide)
  have roundKept : u32 vote.round = vote.round := Nat.mod_eq_of_lt round
  unfold readVote encodeVote
  simp only [List.append_assoc]
  rw [readU64_bind height, readU64_bind roundFits, readU64_bind signerId,
    readU16_bind signerIndex, readU8_bind (boolByte_lt vote.isNil),
    readBytes32_bind, readBytes64_bind, roundKept, boolByte_ne_zero]
  rfl

theorem decodeVote_encodeVote {vote : Vote} (inRange : vote.InRange) (rest : Bytes) :
    decodeVote (encodeVote vote ++ rest) = some vote := by
  simp [decodeVote, StateT.run', readVote_encodeVote inRange]

/-! ## What a signed payload determines -/

/-- A payload with the flag and the hash of a vote at its end determines them and what is before. -/
theorem payload_injective {width : Nat} {startA startB : Bytes} {nilA nilB : Bool} {hashA hashB : Hash}
    (widthA : startA.length = width) (widthB : startB.length = width)
    (same : startA ++ putU8 (boolByte nilA) ++ bytes32 hashA =
      startB ++ putU8 (boolByte nilB) ++ bytes32 hashB) :
    startA = startB ∧ nilA = nilB ∧ hashA = hashB := by
  rw [List.append_assoc, List.append_assoc] at same
  obtain ⟨starts, same⟩ := List.append_inj same (widthA.trans widthB.symm)
  obtain ⟨nils, same⟩ := putUInt_append_injective (boolByte_lt nilA) (boolByte_lt nilB) same
  refine ⟨starts, ?_, bytes32_injective same⟩
  cases nilA <;> cases nilB <;> first | rfl | exact absurd nils (by decide)

theorem length_putU64_roundBytes (height round : Nat) :
    (putU64 height ++ roundBytes round).length = 16 := by
  simp [putU64, roundBytes, putU32]

/-- The payload of a vote determines its height, round and value, and nothing else. -/
theorem votePayload_injective {heightA heightB : Nat} {roundA roundB : Nat}
    {nilA nilB : Bool} {hashA hashB : Hash} (heightAFits : heightA < 2 ^ 64)
    (heightBFits : heightB < 2 ^ 64) (roundAFits : roundA < 2 ^ 32) (roundBFits : roundB < 2 ^ 32)
    (same : votePayload heightA roundA nilA hashA = votePayload heightB roundB nilB hashB) :
    heightA = heightB ∧ roundA = roundB ∧ nilA = nilB ∧ hashA = hashB := by
  obtain ⟨starts, values⟩ := payload_injective (length_putU64_roundBytes heightA roundA)
    (length_putU64_roundBytes heightB roundB) same
  obtain ⟨heights, rounds⟩ := putUInt_append_injective (by omega) (by omega) starts
  exact ⟨heights, (putUInt_append_injective (by omega) (by omega) rounds).1, values⟩

end Clarity.Consensus
