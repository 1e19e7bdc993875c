import Clarity.Consensus.Message
import Clarity.Core.BlockCodec

/-!
Contract: the proposal codec of `Consensus/Message.cpp`.

Owns: `encodeProposal`, `decodeProposal`, and what the bytes of a proposal are read back as.

The block hash does not travel. The receiver takes it from the block bytes, and leaves it null
when they are no block.
-/

namespace Clarity.Consensus

open Common Crypto Clarity.Core Reader

def MAX_BLOCK_BYTES_WIRE : Nat := 8 * 1024 * 1024

def encodeProposal (proposal : Proposal) : Bytes :=
  putU64 proposal.height ++ putU64 proposal.round ++ putU64 proposal.signerId ++
    putU16 proposal.signerIndex ++ putU32 proposal.blockBytes.length ++ proposal.blockBytes ++
    bytes64 proposal.signature

def hashOfBytes (crypto : Primitives) (bytes : Bytes) : Hash :=
  match Block.deserialize bytes with
  | some block => block.hash crypto
  | none => 0

def readProposal (crypto : Primitives) : Reader Proposal := do
  let height ← readU64
  let round ← readU64
  let signerId ← readU64
  let signerIndex ← readU16
  let size ← readU32
  require (size ≤ MAX_BLOCK_BYTES_WIRE)
  let left ← remaining
  require (left ≥ size + 64)
  let blockBytes ← readVector size
  let signature ← readBytes64
  pure { height, round := u32 round, signerId, signerIndex,
         blockHash := hashOfBytes crypto blockBytes, blockBytes, signature }

/-- `decodeProposal`; trailing bytes are not looked at. -/
def decodeProposal (crypto : Primitives) (data : Bytes) : Option Proposal :=
  (readProposal crypto).run' data

/-- The integers of a proposal fit the types the source gives them. -/
@[mk_iff]
structure Proposal.InRange (proposal : Proposal) : Prop where
  height : proposal.height < 2 ^ 64
  round : proposal.round < 2 ^ 32
  signerId : proposal.signerId < 2 ^ 64
  signerIndex : proposal.signerIndex < 2 ^ 16
  blockBytes : proposal.blockBytes.length < 2 ^ 32

instance (proposal : Proposal) : Decidable proposal.InRange :=
  decidable_of_iff _ (Proposal.inRange_iff proposal).symm

/-- A proposal is read back when its block bytes keep the limit of the wire, and only then. -/
theorem decodeProposal_encodeProposal {crypto : Primitives} {proposal : Proposal}
    (inRange : proposal.InRange) :
    decodeProposal crypto (encodeProposal proposal) =
      if proposal.blockBytes.length ≤ MAX_BLOCK_BYTES_WIRE then
        some { proposal with blockHash := hashOfBytes crypto proposal.blockBytes }
      else none := by
  have roundFits : proposal.round < 2 ^ 64 := inRange.round.trans (by decide)
  have roundKept : u32 proposal.round = proposal.round := Nat.mod_eq_of_lt inRange.round
  have read : readProposal crypto (encodeProposal proposal) =
      if proposal.blockBytes.length ≤ MAX_BLOCK_BYTES_WIRE then
        some ({ proposal with blockHash := hashOfBytes crypto proposal.blockBytes }, [])
      else none := by
    unfold readProposal encodeProposal
    simp only [List.append_assoc]
    rw [readU64_bind inRange.height, readU64_bind roundFits,
      readU64_bind inRange.signerId, readU16_bind inRange.signerIndex,
      readU32_bind inRange.blockBytes, require_bind]
    refine if_congr decide_eq_true_iff ?_ rfl
    have enough : (proposal.blockBytes ++ bytes64 proposal.signature).length ≥
        proposal.blockBytes.length + 64 := by
      rw [List.length_append, bytes64_length]
    rw [remaining_bind, require_bind, if_pos (decide_eq_true enough),
      readVector_bind, ← List.append_nil (bytes64 proposal.signature),
      readBytes64_bind, roundKept]
    rfl
  unfold decodeProposal
  change (readProposal crypto (encodeProposal proposal)).map Prod.fst = _
  rw [read, apply_ite (Option.map Prod.fst)]
  rfl

end Clarity.Consensus
