import Clarity.Consensus.Message

/-!
Contract: the on-chain verifier of equivocation proofs, `Core/EquivocationProof.cpp`.

Owns: the payload of a Slash transaction, `verifyEquivocationProof`, and what the
verifier accepts on a payload that carries two given votes.
-/

namespace Clarity.Core

open Common Crypto Consensus

variable {voteA voteB : Vote}

/-- `encodeSlashPayload`: the two votes back to back. -/
def encodeSlashPayload (voteA voteB : Bytes) : Bytes := voteA ++ voteB

/-- The bytes `localVoteSigningHash` hashes: here the round has 64 bits, and so its eight bytes. -/
def localVotePayload (height round : Nat) (isNil : Bool) (blockHash : Hash) : Bytes :=
  putU64 height ++ putU64 round ++ putU8 (boolByte isNil) ++ bytes32 blockHash

def localVoteSigningHash (crypto : Primitives) (height round : Nat) (isNil : Bool)
    (blockHash : Hash) : Hash :=
  crypto.hashDomain VOTE_DOMAIN (localVotePayload height round isNil blockHash)

/-- The two encoders write the same bytes for the votes of the first round alone. -/
theorem votePayload_eq_local {height heightB round roundB : Nat} {isNil nilB : Bool}
    {blockHash hashB : Hash} (heightFits : height < 2 ^ 64) (heightBFits : heightB < 2 ^ 64)
    (roundFits : round < 2 ^ 32) (roundBFits : roundB < 2 ^ 32)
    (same : votePayload heightB roundB nilB hashB = localVotePayload height round isNil blockHash) :
    round = 0 := by
  have width : (putU64 height ++ putU64 round).length = 16 := by simp [putU64]
  obtain ⟨starts, _⟩ := payload_injective (length_putU64_roundBytes heightB roundB) width same
  obtain ⟨_, rounds⟩ := putUInt_append_injective (by omega) (by omega) starts
  -- the upper half of a zero-extended round is zero
  have split : putU64 round = putU32 round ++ putU32 0 := by
    rw [show (0 : Nat) = round / 2 ^ 32 from (Nat.div_eq_of_lt roundFits).symm]
    simp [putU64, putU32, putUInt, Nat.div_div_eq_div_mul]
  rw [roundBytes, split] at rounds
  obtain ⟨sameRound, upper⟩ := List.append_inj rounds (by simp [putU32])
  have isZero := putUInt_injective (by omega) (by omega) upper
  rw [isZero] at sameRound
  exact (putUInt_injective (by omega) (by omega) sameRound).symm

theorem localVotePayload_zero (height : Nat) (isNil : Bool) (blockHash : Hash) :
    localVotePayload height 0 isNil blockHash = votePayload height 0 isNil blockHash :=
  rfl

/-- What the verifier reads from the state. -/
structure StateView where
  getValidator : Nat → Option ValidatorInfo
  validatorKeyAtHeight : Nat → Nat → Option PublicKey

/-- The two votes a payload carries, if it is exactly two votes long. -/
def decodeSlashVotes (payload : Bytes) : Option (Vote × Vote) :=
  if payload.length ≠ 2 * VOTE_WIRE_SIZE then none
  else do
    let voteA ← decodeVote (payload.take VOTE_WIRE_SIZE)
    let voteB ← decodeVote (payload.drop VOTE_WIRE_SIZE)
    pure (voteA, voteB)

def decodeSlashEvidence (payload : Bytes) : Option EquivocationEvidence := do
  let votes ← decodeSlashVotes payload
  pure { voteA := votes.1, voteB := votes.2, signerId := votes.1.signerId }

/-- The checks of `verifyEquivocationProof` on the two decoded votes. -/
def checkEquivocation (crypto : Primitives) (activeSet : List Nat) (state : StateView)
    (voteA voteB : Vote) : Option Nat :=
  if voteA.height ≠ voteB.height then none
  else if voteA.round ≠ voteB.round then none
  else if voteA.signerId = INVALID_ID ∨ voteB.signerId = INVALID_ID then none
  else if voteA.signerId ≠ voteB.signerId then none
  else if voteA.signerIndex ≠ INVALID_INDEX ∧ voteB.signerIndex ≠ INVALID_INDEX ∧
      voteA.signerIndex ≠ voteB.signerIndex then none
  else if voteA.blockHash = voteB.blockHash ∧ voteA.isNil = voteB.isNil then none
  else if (state.getValidator voteA.signerId).isNone then none
  else if activeSet ≠ [] ∧ voteA.signerId ∉ activeSet then none
  else match state.validatorKeyAtHeight voteA.signerId voteA.height with
  | none => none
  | some key =>
    if crypto.verify (localVoteSigningHash crypto voteA.height voteA.round voteA.isNil
        voteA.blockHash) key voteA.signature = false then none
    else if crypto.verify (localVoteSigningHash crypto voteB.height voteB.round voteB.isNil
        voteB.blockHash) key voteB.signature = false then none
    else some voteA.signerId

/-- `verifyEquivocationProof`: the id the proof is against. -/
def verifyEquivocationProof (crypto : Primitives) (payload : Bytes) (activeSet : List Nat)
    (state : StateView) : Option Nat := do
  let votes ← decodeSlashVotes payload
  checkEquivocation crypto activeSet state votes.1 votes.2

/-- Checks that pass are against the signer of the first vote. -/
theorem checkEquivocation_eq_some {crypto : Primitives} {activeSet : List Nat} {state : StateView} {offender : Nat}
    (passed : checkEquivocation crypto activeSet state voteA voteB = some offender) :
    offender = voteA.signerId := by
  simp only [checkEquivocation, Option.ite_none_left_eq_some] at passed
  obtain ⟨_, _, _, _, _, _, _, _, keyed⟩ := passed
  split at keyed
  · cases keyed
  · simp only [Option.ite_none_left_eq_some] at keyed
    exact (Option.some.inj keyed.2.2).symm

/-- The proof built from two votes: what the proposer puts into a Slash transaction. -/
def proofOf (voteA voteB : Vote) : Bytes :=
  encodeSlashPayload (encodeVote voteA) (encodeVote voteB)

theorem decodeSlashVotes_proofOf (inRangeA : voteA.InRange)
    (inRangeB : voteB.InRange) : decodeSlashVotes (proofOf voteA voteB) = some (voteA, voteB) := by
  have lengthA := encodeVote_length voteA
  have lengthB := encodeVote_length voteB
  have decodedA := decodeVote_encodeVote inRangeA []
  have decodedB := decodeVote_encodeVote inRangeB []
  rw [List.append_nil] at decodedA decodedB
  have total : (proofOf voteA voteB).length = 2 * VOTE_WIRE_SIZE := by
    rw [proofOf, encodeSlashPayload, List.length_append, lengthA, lengthB]
    omega
  unfold decodeSlashVotes
  rw [if_neg (by simpa using total), proofOf, encodeSlashPayload, List.take_left' lengthA,
    List.drop_left' lengthA, decodedA, decodedB]
  rfl

/-- On a proof built from two votes the verifier runs its checks on these votes. -/
theorem verifyEquivocationProof_proofOf (crypto : Primitives)
    (inRangeA : voteA.InRange) (inRangeB : voteB.InRange) (activeSet : List Nat)
    (state : StateView) :
    verifyEquivocationProof crypto (proofOf voteA voteB) activeSet state =
      checkEquivocation crypto activeSet state voteA voteB := by
  unfold verifyEquivocationProof
  rw [decodeSlashVotes_proofOf inRangeA inRangeB]
  rfl

end Clarity.Core
