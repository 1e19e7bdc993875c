import Clarity.Core.ValidatorTypes

/-!
Contract: the consensus messages of `Consensus/Types.h`, their timeout certificates, and
proposer selection.

Owns: votes, proposals, equivocation evidence, timeout votes and certificates with their
wire format, `verifyTimeoutCertificate`, and `proposerFor`.

Does not own: the vote and proposal codecs and signing hashes (`Consensus.Message`).
-/

namespace Clarity.Consensus

open Common Crypto Clarity.Core Reader

inductive Step
  | newHeight
  | propose
  | prevote
  | precommit
  | commit
deriving DecidableEq, Repr, Inhabited

structure Vote where
  height : Nat := 0
  round : Nat := 0
  signerIndex : Nat := INVALID_INDEX
  signerId : Nat := INVALID_ID
  isNil : Bool := false
  blockHash : Hash := 0
  signature : Signature := 0
deriving DecidableEq, Repr, Inhabited

def Vote.sameValue (left right : Vote) : Bool :=
  left.blockHash == right.blockHash && left.isNil == right.isNil

structure Proposal where
  height : Nat := 0
  round : Nat := 0
  signerId : Nat := INVALID_ID
  signerIndex : Nat := INVALID_INDEX
  blockHash : Hash := 0
  blockBytes : Bytes := []
  signature : Signature := 0
deriving DecidableEq, Repr, Inhabited

structure EquivocationEvidence where
  voteA : Vote
  voteB : Vote
  signerId : Nat := INVALID_ID
deriving DecidableEq, Repr, Inhabited

def EquivocationEvidence.isValid (evidence : EquivocationEvidence) : Bool :=
  evidence.voteA.height == evidence.voteB.height &&
    evidence.voteA.round == evidence.voteB.round &&
    evidence.voteA.signerId == evidence.voteB.signerId &&
    evidence.voteA.signerId != INVALID_ID &&
    (evidence.signerId == INVALID_ID || evidence.signerId == evidence.voteA.signerId) &&
    !(evidence.voteA.isNil == evidence.voteB.isNil &&
      evidence.voteA.blockHash == evidence.voteB.blockHash)

/-! ## Timeout certificates -/

structure TimeoutVote where
  height : Nat := 0
  round : Nat := 0
  signerIndex : Nat := INVALID_INDEX
  signerId : Nat := INVALID_ID
  signature : Signature := 0
deriving DecidableEq, Repr, Inhabited

structure TimeoutCertificate where
  votes : List TimeoutVote := []
deriving DecidableEq, Repr, Inhabited

def TIMEOUT_VOTE_DOMAIN : Bytes := putText "CLRTY_TIMEOUT_VOTE_V1".toList

def timeoutVotePayload (height : Nat) (round : Nat) : Bytes := putU64 height ++ putU64 round

def timeoutVoteSigningHash (crypto : Primitives) (height : Nat) (round : Nat) : Hash :=
  crypto.hashDomain TIMEOUT_VOTE_DOMAIN (timeoutVotePayload height round)

def TIMEOUT_VOTE_WIRE_SIZE : Nat := 8 + 8 + 2 + 64

/-- `encodeTimeoutVote`; the signer's id does not travel. -/
def encodeTimeoutVote (vote : TimeoutVote) : Bytes :=
  putU64 vote.height ++ putU64 vote.round ++ putU16 vote.signerIndex ++ bytes64 vote.signature

def readTimeoutVote : Reader TimeoutVote := do
  let height ← readU64
  let round ← readU64
  let signerIndex ← readU16
  let signature ← readBytes64
  require (signerIndex != INVALID_INDEX)
  pure { height, round := u32 round, signerIndex, signature }

def TimeoutCertificate.serialize (certificate : TimeoutCertificate) : Bytes :=
  putU32 certificate.votes.length ++ certificate.votes.flatMap encodeTimeoutVote

def MAX_CERT_VOTES : Nat := 4096

def TimeoutCertificate.deserialize (data : Bytes) : Option TimeoutCertificate :=
  (do
    let count ← readU32
    require (count ≤ MAX_CERT_VOTES)
    let votes ← replicate readTimeoutVote count
    let left ← remaining
    require (left == 0)
    pure (TimeoutCertificate.mk votes)).run' data

/-- One pass of the loop of `verifyTimeoutCertificate`: `seen` are the committed-set
positions counted so far. The loop stops as soon as `required` are counted. -/
def countTimeoutVotes (crypto : Primitives) (committedSet : List Nat) (certHeight : Nat)
    (certRound : Nat) (lookupValidator : Nat → Option ValidatorInfo) (required : Nat) :
    List TimeoutVote → List Nat → Except String Unit
  | [], _ => .error "timeout certificate below f+1"
  | vote :: rest, seen =>
    if vote.height ≠ certHeight then .error "timeout vote for wrong height"
    else if vote.round ≠ certRound then .error "timeout vote for wrong round"
    else if vote.round < EMERGENCY_ROTATION_ROUNDS then
      .error "timeout vote below threshold round"
    else match committedSet[vote.signerIndex]? with
    | none => .error "timeout vote signer out of range"
    | some validatorId =>
      if vote.signerIndex ∈ seen then .error "duplicate timeout vote from same signer"
      else match lookupValidator validatorId with
      | none => .error "timeout vote from unknown validator"
      | some validator =>
        if crypto.verify (timeoutVoteSigningHash crypto certHeight certRound)
            validator.effectiveConsensusKey vote.signature = false then
          .error "invalid timeout vote signature"
        else if seen.length + 1 ≥ required then .ok ()
        else countTimeoutVotes crypto committedSet certHeight certRound lookupValidator
          required rest (vote.signerIndex :: seen)

def verifyTimeoutCertificate (crypto : Primitives) (certificate : TimeoutCertificate)
    (committedSet : List Nat) (certHeight : Nat) (certRound : Nat)
    (lookupValidator : Nat → Option ValidatorInfo) : Except String Unit :=
  if committedSet.length < 4 then .error "committed set too small for emergency rotation"
  else if certRound < EMERGENCY_ROTATION_ROUNDS then
    .error "emergency_rotation below threshold"
  else if certificate.votes.length < (committedSet.length - 1) / 3 + 1 then
    .error "timeout certificate has too few attestations"
  else countTimeoutVotes crypto committedSet certHeight certRound lookupValidator
    ((committedSet.length - 1) / 3 + 1) certificate.votes []

/-! ## Proposer selection -/

/-- `proposerFor`; the sum is taken in 64 bits. -/
def proposerFor (height : Nat) (round : Nat) (activeSet : List Nat) : Nat :=
  activeSet.getD (u64 (height + round) % activeSet.length) INVALID_ID

end Clarity.Consensus
