import Clarity.Consensus.Engine.State
import Clarity.Core.EquivocationProof

/-!
Contract: the `const` methods of `BftConsensus`: what the engine computes from its members
and the chain state without changing either.

Owns: set resolution, signer resolution and signature checks, quorum counting, the value a
node prevotes, and the checks of a proposal.
-/

namespace Clarity.Consensus

open Common Crypto Clarity.Core Library

namespace Engine

variable (env : Env) (inputs : Inputs) (engine : Engine)

/-! ## Set resolution -/

def roundUsesEmergencySet (height round : Nat) : Bool :=
  match engine.proposalForRound.find? (height, round) with
  | none => false
  | some hash =>
    match engine.proposalsByHash.find? hash with
    | none => false
    | some block => block.header.emergency

def blockOfVote (vote : Vote) : Option Block :=
  if vote.isNil || isNull vote.blockHash then none
  else engine.proposalsByHash.find? vote.blockHash

def roundUsesEmergencySetForVote (vote : Vote) : Bool :=
  match engine.blockOfVote vote with
  | some block => block.header.emergency
  | none => engine.roundUsesEmergencySet vote.height vote.round

def useEmergencySet : Bool :=
  engine.consecutiveTimeouts ≥ EMERGENCY_ROTATION_ROUNDS

def stepAtLeastPrevote : Bool :=
  engine.step == .prevote || engine.step == .precommit || engine.step == .commit

def firstIndex (activeSet : List Nat) (id : Nat) : Nat :=
  match activeSet.findIdx? (· == id) with
  | some position => u16 position
  | none => INVALID_INDEX

def indexInSet (id : Nat) (emergency : Bool) : Nat :=
  if id = INVALID_ID then INVALID_INDEX else firstIndex ((env.now engine).activeSet emergency) id

def resolveConsensusKey (index : Nat) (emergency : Bool) : Option PublicKey := do
  let id ← ((env.now engine).activeSet emergency)[index]?
  let validator ← (env.now engine).stateLookupValidator id
  pure validator.effectiveConsensusKey

/-! ## Votes -/

/-- `resolveVoteSigner`: the validator a vote is counted for, `INVALID_ID` for none. -/
def resolveVoteSigner (vote : Vote) : Nat :=
  let activeSet := (env.now engine).activeSet
  if vote.signerId ≠ INVALID_ID then
    let member := fun emergency =>
      if vote.signerId ∈ activeSet emergency then vote.signerId else INVALID_ID
    match engine.blockOfVote vote with
    | some block => member block.header.emergency
    | none =>
      match (engine.proposalForRound.find? (vote.height, vote.round)).bind
        engine.proposalsByHash.find? with
      | some block => member block.header.emergency
      | none => if vote.signerId ∈ activeSet false then vote.signerId else member true
  else
    -- the path of votes without an id: the position in the set of the round decides
    (activeSet (engine.roundUsesEmergencySetForVote vote)).getD vote.signerIndex INVALID_ID

def verifyVoteSignature (vote : Vote) (signerId : Nat) : Bool :=
  match (env.now engine).stateLookupValidator signerId with
  | none => false
  | some validator =>
    env.crypto.verify (vote.signingHash env.crypto) validator.effectiveConsensusKey vote.signature

/-- `voteSignatureOk`: the signer, when it resolves and its signature verifies. -/
def voteSignatureOk (vote : Vote) : Option Nat :=
  let signer := engine.resolveVoteSigner env vote
  if signer = INVALID_ID then none
  else if engine.verifyVoteSignature env vote signer then some signer else none

def voteReady (vote : Vote) : Bool :=
  vote.isNil || engine.proposalsByHash.contains vote.blockHash

/-! ## Quorums -/

def quorumThreshold (emergency : Bool) : Nat :=
  bftQuorum ((env.now engine).activeSet emergency).length

def votesFor (hash : Hash) (vote : Vote) : Bool := !vote.isNil && vote.blockHash == hash

def countFor (container : VoteMap) (hash : Hash) : Nat :=
  container.entries.countP fun entry => votesFor hash entry.2

def votedHashes (container : VoteMap) : List Hash :=
  ((container.entries.filter fun entry =>
    !entry.2.isNil && engine.proposalsByHash.contains entry.2.blockHash).map
      fun entry => entry.2.blockHash).dedup

/-- The count for `hash` reaches the threshold of the set the block names. -/
def hasQuorum (container : VoteMap) (hash : Hash) : Bool :=
  match engine.proposalsByHash.find? hash with
  | none => false
  | some block =>
    countFor container hash ≥ engine.quorumThreshold env block.header.emergency

def quorumValueIn (container : VoteMap) : Option Hash :=
  (env.order.hashes (engine.votedHashes container)).find? (engine.hasQuorum env container)

def quorumValue (isPrecommit : Bool) : Option Hash :=
  engine.quorumValueIn env (engine.votes isPrecommit)

def heldQuorumBlock (height : Nat) : Option Block :=
  let findBlock := fun container =>
    (engine.quorumValueIn env container).bind engine.proposalsByHash.find?
  -- a `std::map` goes through its rounds upwards
  let past := engine.pastPrecommits.entries.insertionSort fun left right => left.1 ≤ right.1
  if height ≠ engine.height then none
  else engine.commitBlock
    |>.or (findBlock engine.precommits)
    |>.or (past.findSome? fun bucket => findBlock bucket.2)

/-! ## Own votes -/

/-- `selectPrevoteHash`: the value to prevote, and to propose again. -/
def selectPrevoteHash : Option Hash :=
  if engine.locked then
    if engine.validSet && engine.validRound > engine.lockedRound then some engine.validHash
    else some engine.lockedHash
  else if engine.validSet then some engine.validHash
  else match engine.proposal with
  | none => none
  | some proposal =>
    if proposal.height = engine.height ∧ proposal.round = engine.round then
      some proposal.blockHash
    else none

def ownVoteSet (isNil : Bool) (blockHash : Hash) : Bool :=
  if isNil then
    if engine.proposalForRound.contains (engine.height, engine.round) then
      engine.roundUsesEmergencySet engine.height engine.round
    else engine.useEmergencySet
  else match engine.proposalsByHash.find? blockHash with
  | some block => block.header.emergency
  | none => engine.indexInSet env (env.now engine).myValidatorId false == INVALID_INDEX

/-! ## Proposals -/

def verifyProposalSignatureIn (proposal : Proposal) (emergency : Bool) : Bool :=
  let activeSet := (env.now engine).activeSet emergency
  let expected := proposerFor proposal.height proposal.round activeSet
  let index := firstIndex activeSet expected
  if activeSet = [] ∨ expected = INVALID_ID then false
  else if proposal.signerId ≠ INVALID_ID ∧ proposal.signerId ≠ expected then false
  else if index = INVALID_INDEX then false
  else if proposal.signerId = INVALID_ID ∧ proposal.signerIndex ≠ index then false
  else if proposal.signerId ≠ INVALID_ID ∧ proposal.signerIndex ≠ INVALID_INDEX ∧
      proposal.signerIndex ≠ index then false
  else match engine.resolveConsensusKey env index emergency with
  | none => false
  | some key =>
    env.crypto.verify
      (proposalSigningHash env.crypto proposal.height proposal.round proposal.blockHash) key
      proposal.signature

def verifyProposalSignature (proposal : Proposal) : Bool :=
  engine.verifyProposalSignatureIn env proposal false ||
    engine.verifyProposalSignatureIn env proposal true

def proposerSetAllowed (proposal : Proposal) (blockEmergency : Bool) : Bool :=
  if blockEmergency then engine.verifyProposalSignatureIn env proposal true
  else engine.verifyProposalSignatureIn env proposal false ||
    (proposal.round ≥ EMERGENCY_ROTATION_ROUNDS &&
      engine.verifyProposalSignatureIn env proposal true)

/-- `proposerSetFor`: the set `me` must sign as, if it is entitled to propose the block. -/
def proposerSetFor (me round : Nat) (blockEmergency : Bool) : Option Bool :=
  let isProposerIn := fun emergency =>
    let activeSet := (env.now engine).activeSet emergency
    !activeSet.isEmpty && proposerFor engine.height round activeSet == me
  if blockEmergency then if isProposerIn true then some true else none
  else if isProposerIn false then some false
  else if round ≥ EMERGENCY_ROTATION_ROUNDS && isProposerIn true then some true
  else none

/-- The engine's `verifyTimeoutCertificate`: the round is cut to 32 bits on the way. -/
def verifyTimeoutCertificate (block : Block) (committedSet : List Nat) (height : Nat) : Bool :=
  (Consensus.verifyTimeoutCertificate env.crypto block.header.timeoutCertificate committedSet height
    (u32 block.header.emergencyRotation) (env.now engine).stateLookupValidator).isOk

/-- The certificate checks of `validateProposal`. -/
def certificateOk (proposal : Proposal) (block : Block) : Bool :=
  if block.header.emergency then
    !block.header.timeoutCertificate.votes.isEmpty &&
      computeTimeoutCertificateHash env.crypto block.header.timeoutCertificate ==
        block.header.timeoutCertificateHash &&
      block.header.emergencyRotation ≤ proposal.round &&
      block.header.emergencyRotation ≥ EMERGENCY_ROTATION_ROUNDS &&
      engine.verifyTimeoutCertificate env block ((env.now engine).activeSet false) engine.height
  else
    block.header.timeoutCertificate.votes.isEmpty && isNull block.header.timeoutCertificateHash

/-- The simulation checks of `validateProposal`. -/
def simulationOk (block : Block) : Bool :=
  let simulation := inputs.simulateBlock block
  simulation.ok && simulation.stateRoot == block.header.stateRoot &&
    !(!simulation.epochFills.isEmpty && isNull block.header.epochFillsRoot) &&
    (isNull block.header.epochFillsRoot ||
      computeEpochFillsRoot env.crypto simulation.epochFills == block.header.epochFillsRoot)

def validateProposal (proposal : Proposal) (block : Block) : Bool :=
  if block.hash env.crypto ≠ proposal.blockHash then false
  else if block.header.height ≠ proposal.height then false
  -- a block validated before at this height is not checked again
  else if engine.proposalsByHash.contains (block.hash env.crypto) then true
  else engine.certificateOk env proposal block && simulationOk env inputs block

/-- The checks of `handleProposal` on a proposal of the current round. -/
def acceptableBlock (proposal : Proposal) : Option Block :=
  if engine.verifyProposalSignature env proposal then
    match Block.deserialize proposal.blockBytes with
    | none => none
    | some block =>
      if engine.proposerSetAllowed env proposal block.header.emergency &&
          engine.validateProposal env inputs proposal block then some block
      else none
  else none

/-! ## Timeout certificates -/

/-- The inner loop of `assembleTimeoutCertificate`: the first `required` distinct members of
the committed set among the votes of one round. -/
def pickTimeoutVotes (committed : List Nat) (required : Nat) :
    List TimeoutVote → List TimeoutVote → List TimeoutVote
  | [], picked => picked
  | vote :: rest, picked =>
    if vote.signerId = INVALID_ID ∨ vote.signerId ∉ committed ∨
        vote.signerId ∈ picked.map TimeoutVote.signerId then
      pickTimeoutVotes committed required rest picked
    else if (picked ++ [vote]).length ≥ required then picked ++ [vote]
    else pickTimeoutVotes committed required rest (picked ++ [vote])

/-- `assembleTimeoutCertificate`: the lowest round with enough votes. -/
def assembleTimeoutCertificate : Option (Nat × TimeoutCertificate) :=
  let committed := (env.now engine).activeSet false
  if committed.length < 4 then none
  else
    let required := (committed.length - 1) / 3 + 1
    let eligible := engine.timeoutVotes.filter fun vote => vote.round ≥ EMERGENCY_ROTATION_ROUNDS
    let rounds := ((eligible.map TimeoutVote.round).dedup).insertionSort (· ≤ ·)
    rounds.findSome? fun round =>
      let picked := pickTimeoutVotes committed required
        (eligible.filter fun vote => vote.round == round) []
      if picked.length ≥ required then some (round, { votes := picked }) else none

end Engine

end Clarity.Consensus
