import Clarity.Core.Block
import Clarity.State.SmtNodes

/-!
Contract: what the hash of a block binds.

Owns: `BlockHeader.message`, the bytes a block hash is taken over, and `SameHashed`, the fields that
two headers share when these bytes are the same. The commit round is not among them, nor is any part
of the body: the transactions stand behind their root, the certificate behind its hash, and nothing
stands for the participants.
-/

namespace Clarity.Core

open Common Crypto State

/-- Fixed-width fields are read off from the front, modulo their width. -/
theorem putUInt_append_mod {width left right : Nat} {leftRest rightRest : Bytes}
    (same : putUInt width left ++ leftRest = putUInt width right ++ rightRest) :
    left % 256 ^ width = right % 256 ^ width ∧ leftRest = rightRest := by
  have lengths : (putUInt width left).length = (putUInt width right).length := by simp
  obtain ⟨heads, tails⟩ := List.append_inj same lengths
  refine ⟨?_, tails⟩
  rw [← getUInt_putUInt, ← getUInt_putUInt, heads]

theorem bytes32_append_inj {left right : BitVec 256} {leftRest rightRest : Bytes}
    (same : bytes32 left ++ leftRest = bytes32 right ++ rightRest) :
    left = right ∧ leftRest = rightRest := by
  obtain ⟨heads, tails⟩ := List.append_inj same (by simp)
  exact ⟨bytes32_injective heads, tails⟩

/-- The fields of a header that its hash covers. -/
structure SameHashed (left right : BlockHeader) : Prop where
  version : u16 left.version = u16 right.version
  chainId : u64 left.chainId = u64 right.chainId
  height : u64 left.height = u64 right.height
  parentHash : left.parentHash = right.parentHash
  timestampMs : u64 left.timestampMs = u64 right.timestampMs
  proposer : left.proposer = right.proposer
  epoch : u64 left.epoch = u64 right.epoch
  rotationIndex : u64 left.rotationIndex = u64 right.rotationIndex
  emergencyRotation : u64 left.emergencyRotation = u64 right.emergencyRotation
  stateRoot : left.stateRoot = right.stateRoot
  txRoot : left.txRoot = right.txRoot
  receiptsRoot : left.receiptsRoot = right.receiptsRoot
  epochFillsRoot : left.epochFillsRoot = right.epochFillsRoot
  validatorSetRoot : left.validatorSetRoot = right.validatorSetRoot
  totalFees : u64 left.totalFees = u64 right.totalFees
  txCount : u32 left.txCount = u32 right.txCount
  activeValidatorCount : u32 left.activeValidatorCount = u32 right.activeValidatorCount
  timeoutCertificateHash : left.timeoutCertificateHash = right.timeoutCertificateHash

namespace BlockHeader

variable {crypto : Primitives} {left right : BlockHeader}

def message (header : BlockHeader) : Bytes := BLOCK_HEADER_DOMAIN ++ header.serializeForHash

theorem serializeForHash_sameHashed (same : left.serializeForHash = right.serializeForHash) :
    SameHashed left right := by
  unfold serializeForHash at same
  simp only [putU16, putU32, putU64, List.append_assoc] at same
  obtain ⟨version, same⟩ := putUInt_append_mod same
  obtain ⟨chainId, same⟩ := putUInt_append_mod same
  obtain ⟨height, same⟩ := putUInt_append_mod same
  obtain ⟨parentHash, same⟩ := bytes32_append_inj same
  obtain ⟨timestampMs, same⟩ := putUInt_append_mod same
  obtain ⟨proposer, same⟩ := bytes32_append_inj same
  obtain ⟨epoch, same⟩ := putUInt_append_mod same
  obtain ⟨rotationIndex, same⟩ := putUInt_append_mod same
  obtain ⟨emergencyRotation, same⟩ := putUInt_append_mod same
  obtain ⟨stateRoot, same⟩ := bytes32_append_inj same
  obtain ⟨txRoot, same⟩ := bytes32_append_inj same
  obtain ⟨receiptsRoot, same⟩ := bytes32_append_inj same
  obtain ⟨epochFillsRoot, same⟩ := bytes32_append_inj same
  obtain ⟨validatorSetRoot, same⟩ := bytes32_append_inj same
  obtain ⟨totalFees, same⟩ := putUInt_append_mod same
  obtain ⟨txCount, same⟩ := putUInt_append_mod same
  obtain ⟨activeValidatorCount, same⟩ := putUInt_append_mod same
  exact ⟨version, chainId, height, parentHash, timestampMs, proposer, epoch, rotationIndex,
    emergencyRotation, stateRoot, txRoot, receiptsRoot, epochFillsRoot, validatorSetRoot, totalFees,
    txCount, activeValidatorCount, bytes32_injective same⟩

/-- Headers with one hash share the fields it covers, unless they are a collision. -/
theorem sameHashed_of_hash (free : CollisionFree crypto [left.message, right.message])
    (same : left.hash crypto = right.hash crypto) : SameHashed left right := by
  have messages : left.message = right.message := free _ (by simp) _ (by simp) same
  exact serializeForHash_sameHashed (List.append_cancel_left messages)

end BlockHeader

end Clarity.Core
