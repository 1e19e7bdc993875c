import Clarity.Library.Table
import Clarity.Consensus.Message
import Clarity.Core.Fill

/-!
Contract: the data of the consensus engine, `BftConsensus.h`.

Owns: the engine's configuration and callbacks, its members, its write-ahead log as the
node stores it, and the record of what it signed, sent and handed on.

The state callbacks (`active_set`, `state_lookup_validator`, `my_validator_id`, `sign`,
`chain_id`, `parent_hash`, `my_address`) read the state on which the next block is built.
`Env.view h` is that state for the block at height `h`. The answers of the other callbacks
are the `Inputs` of one event.
-/

namespace Clarity.Consensus

open Common Crypto Clarity.Core Library

def MAX_EQUIVOCATION_EVIDENCE : Nat := 256
def MIN_BLOCK_INTERVAL_MS : Nat := 10000
def MAX_FUTURE_ROUNDS : Nat := 64
def MAX_PAST_ROUNDS : Nat := 64
def MAX_FUTURE_VOTES_PER_ROUND : Nat := 512
def MAX_PENDING_VOTES : Nat := 4096
def MAX_PENDING_PER_SIGNER : Nat := 2
def MAX_TIMEOUT_VOTES : Nat := 4096
def MAX_TIMEOUT_VOTES_PER_SIGNER : Nat := 64
def MAX_PROPOSAL_SLACK_BYTES : Nat := 64 * 1024
def MAX_SIMULATION_RETRIES : Nat := 15
def MAX_HEADER_RESERVE : Nat := 4 * 1024

structure Config where
  maxBlockBytes : Nat := 256 * 1024
  maxBlockTxs : Nat := 5000
  maxCommitRetries : Nat := 5
  commitRetryBackoffMs : Nat := 1000

/-- What the engine reads from the chain state. -/
structure ChainView where
  myValidatorId : Nat
  sign : Hash → Signature
  activeSet : Bool → List Nat
  stateLookupValidator : Nat → Option ValidatorInfo
  chainId : Nat
  parentHash : Hash
  myAddress : Address

abbrev VoteMap := Table Nat Vote

/-- The iteration order of the `unordered_map`s: any order of the entries. -/
structure IterationOrder where
  votes : VoteMap → List (Nat × Vote)
  votes_perm : ∀ container, (votes container).Perm container.entries
  hashes : List Hash → List Hash
  hashes_perm : ∀ keys, (hashes keys).Perm keys

def IterationOrder.insertion : IterationOrder where
  votes := Table.entries
  votes_perm := fun _ => .refl _
  hashes := id
  hashes_perm := fun _ => .refl _

/-- What is fixed during a run of one node. -/
structure Env where
  crypto : Primitives
  config : Config
  order : IterationOrder
  view : Nat → ChainView

structure Simulation where
  ok : Bool
  stateRoot : Hash
  epochFills : List Fill
  failedTxid : Hash

/-- The answers of the callbacks during one event. -/
structure Inputs where
  nowMs : Nat
  timerExpired : Bool
  hasPendingWork : Bool
  selectTransactions : Nat → Nat → List Transaction
  simulateBlock : Block → Simulation
  verifySlashProof : Bytes → Bool
  onBlockCommitted : Block → Bool

/-- What leaves the engine: signatures it makes, messages it sends, and its callbacks. -/
inductive Output
  | signedVote (vote : Vote) (isPrecommit : Bool)
  | signedProposal (proposal : Proposal)
  | signedTimeoutVote (vote : TimeoutVote)
  | broadcastVote (vote : Vote) (isPrecommit : Bool)
  | broadcastProposal (proposal : Proposal)
  | broadcastTimeoutVote (vote : TimeoutVote)
  | blockCommitted (block : Block) (applied : Bool)
  | heightAdvanced (height : Nat)
  | consensusHalt
deriving DecidableEq, Repr

/-- `(height, round, is_precommit)`. -/
abbrev SignedKey := Nat × Nat × Bool

/-- The messages that wait: for their block, for a later round, or for the next height;
and the rounds other validators were seen in. -/
structure Mailbox where
  pendingPrevotes : List Vote := []
  pendingPrecommits : List Vote := []
  futureProposals : Table Nat Proposal := .empty
  futureRoundPrevotes : Table Nat VoteMap := .empty
  futureRoundPrecommits : Table Nat VoteMap := .empty
  futureHeightPrevotes : Table Nat VoteMap := .empty
  futureHeightPrecommits : Table Nat VoteMap := .empty
  futureHeightProposals : Table Nat Proposal := .empty
  roundHints : Table Nat Nat := .empty
deriving DecidableEq

/-- The members of `BftConsensus`, the node's write-ahead log, and the outputs so far. -/
structure Engine where
  height : Nat := 0
  round : Nat := 0
  step : Step := .newHeight
  running : Bool := false
  halted : Bool := false
  proposer : Nat := INVALID_ID
  locked : Bool := false
  lockedHash : Hash := 0
  lockedRound : Nat := 0
  validSet : Bool := false
  validHash : Hash := 0
  validRound : Nat := 0
  proposal : Option Proposal := none
  proposalsByHash : Table Hash Block := .empty
  proposalForRound : Table (Nat × Nat) Hash := .empty
  prevotes : VoteMap := .empty
  precommits : VoteMap := .empty
  pastPrecommits : Table Nat VoteMap := .empty
  signedVotes : Table SignedKey Vote := .empty
  timerRunning : Bool := false
  pendingHeight : Option Nat := none
  nextProposeNotBeforeMs : Nat := 0
  commitBlock : Option Block := none
  commitAttempts : Nat := 0
  nextCommitAttemptMs : Nat := 0
  externalNextHeight : Nat := 0
  equivocations : List EquivocationEvidence := []
  timeoutVotes : List TimeoutVote := []
  consecutiveTimeouts : Nat := 0
  mailbox : Mailbox := {}
  /-- The votes of the node's log, keyed by height, round and signer. -/
  walVotes : Table (Nat × Nat × Nat) (Vote × Bool) := .empty
  /-- The locks of the node's log, keyed by height and round. -/
  walLocks : Table (Nat × Nat) Hash := .empty
  outputs : List Output := []
deriving DecidableEq

namespace Engine

/-- The height of the block the chain state is waiting for: the engine's own height until
its commit is applied. -/
def stateHeight (engine : Engine) : Nat := engine.pendingHeight.getD engine.height

def emit (output : Output) (engine : Engine) : Engine :=
  { engine with outputs := engine.outputs ++ [output] }

def votes (engine : Engine) (isPrecommit : Bool) : VoteMap :=
  if isPrecommit then engine.precommits else engine.prevotes

def setVotes (isPrecommit : Bool) (container : VoteMap) (engine : Engine) : Engine :=
  { engine with
    prevotes := if isPrecommit then engine.prevotes else container
    precommits := if isPrecommit then container else engine.precommits }

def setStep (step : Step) (engine : Engine) : Engine := { engine with step := step }

def setTimer (flag : Bool) (engine : Engine) : Engine := { engine with timerRunning := flag }

def setTimeouts (count : Nat) (engine : Engine) : Engine :=
  { engine with consecutiveTimeouts := count }

def Signed (engine : Engine) (isPrecommit : Bool) (vote : Vote) : Prop :=
  .signedVote vote isPrecommit ∈ engine.outputs

def Committed (engine : Engine) (block : Block) : Prop :=
  ∃ applied, .blockCommitted block applied ∈ engine.outputs

end Engine

def Env.now (env : Env) (engine : Engine) : ChainView := env.view engine.stateHeight

end Clarity.Consensus
