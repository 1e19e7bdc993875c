import Clarity.Consensus.Engine.Queries

/-!
Contract: the methods of `BftConsensus` that change its members and do not re-enter the
vote handling: buffering, inserting and signing votes, committing, and the resets.

Owns: one function for each such change of state. The engine's control flow composes them
(`Consensus.Engine.Machine`).
-/

namespace Clarity.Consensus

open Common Crypto Clarity.Core Library

namespace Engine

variable (env : Env) (inputs : Inputs)

/-! ## Buffers -/

def modifyMailbox (change : Mailbox → Mailbox) (engine : Engine) : Engine :=
  { engine with mailbox := change engine.mailbox }

def pushBuffer (vote : Vote) (buffer : List Vote) : List Vote :=
  let sameSigner := buffer.filter fun entry =>
    entry.signerId == vote.signerId && entry.signerIndex == vote.signerIndex
  if buffer.length ≥ MAX_PENDING_VOTES then buffer
  else if sameSigner.any fun entry => entry.isNil == vote.isNil && entry.blockHash == vote.blockHash
  then buffer
  else if sameSigner.length ≥ MAX_PENDING_PER_SIGNER then buffer
  else buffer ++ [vote]

def pushPending (isPrecommit : Bool) (vote : Vote) (engine : Engine) : Engine :=
  engine.modifyMailbox fun mailbox =>
    if isPrecommit then
      { mailbox with pendingPrecommits := pushBuffer vote mailbox.pendingPrecommits }
    else { mailbox with pendingPrevotes := pushBuffer vote mailbox.pendingPrevotes }

/-- A bucket of votes takes one per signer, up to its capacity. -/
def fillBucket (key signer : Nat) (vote : Vote) (store : Table Nat VoteMap) : Table Nat VoteMap :=
  let bucket := (store.find? key).getD .empty
  if bucket.size < MAX_FUTURE_VOTES_PER_ROUND then store.put key (bucket.emplace signer vote)
  else store.put key bucket

def bufferFutureVote (vote : Vote) (isPrecommit : Bool) (signer : Nat) (engine : Engine) : Engine :=
  if vote.round ≤ engine.round then engine
  else if vote.round - engine.round > MAX_FUTURE_ROUNDS then engine
  else engine.modifyMailbox fun mailbox =>
    if isPrecommit then
      { mailbox with
        futureRoundPrecommits := fillBucket vote.round signer vote mailbox.futureRoundPrecommits }
    else
      { mailbox with
        futureRoundPrevotes := fillBucket vote.round signer vote mailbox.futureRoundPrevotes }

def bufferNextHeightVote (vote : Vote) (isPrecommit : Bool) (signer : Nat) (engine : Engine) :
    Engine :=
  engine.modifyMailbox fun mailbox =>
    if isPrecommit then
      { mailbox with
        futureHeightPrecommits := fillBucket vote.height signer vote mailbox.futureHeightPrecommits }
    else
      { mailbox with
        futureHeightPrevotes := fillBucket vote.height signer vote mailbox.futureHeightPrevotes }

/-! ## Recording votes -/

inductive InsertResult
  | inserted
  | duplicate
  | conflict
deriving DecidableEq, Repr

/-- The evidence part of `insertVote`: both signatures must verify, and one item is kept for
each signer, height and round. -/
def recordEvidence (first second : Vote) (voterId : Nat) (engine : Engine) : Engine :=
  if engine.verifyVoteSignature env first voterId && engine.verifyVoteSignature env second voterId
  then
    let alreadyHave := engine.equivocations.any fun evidence =>
      evidence.voteA.signerId == voterId && evidence.voteA.height == first.height &&
        evidence.voteA.round == first.round
    let evidence : EquivocationEvidence := { voteA := first, voteB := second, signerId := voterId }
    if !alreadyHave && evidence.isValid then
      let buffer := engine.equivocations ++ [evidence]
      { engine with
        equivocations :=
          if buffer.length > MAX_EQUIVOCATION_EVIDENCE then buffer.tail else buffer }
    else engine
  else engine

/-- `insertVote`: the container after it, the engine after it, and what happened. -/
def insertVote (container : VoteMap) (vote : Vote) (voterId : Nat) (engine : Engine) :
    VoteMap × Engine × InsertResult :=
  match container.find? voterId with
  | none => (container.emplace voterId vote, engine, .inserted)
  | some first =>
    if first.sameValue vote then (container, engine, .duplicate)
    else (container, engine.recordEvidence env first vote voterId, .conflict)

/-- `recordVote` up to its quorum check. -/
def tallyVote (vote : Vote) (isPrecommit : Bool) (engine : Engine) : Engine × InsertResult :=
  let voterId := engine.resolveVoteSigner env vote
  if vote.height ≠ engine.height ∨ vote.round ≠ engine.round then (engine, .duplicate)
  else if voterId = INVALID_ID then (engine, .duplicate)
  else if engine.verifyVoteSignature env vote voterId = false then (engine, .duplicate)
  else
    let result := engine.insertVote env (engine.votes isPrecommit) vote voterId
    (result.2.1.setVotes isPrecommit result.1, result.2.2)

def eraseOldest (table : Table Nat VoteMap) : Table Nat VoteMap :=
  match table.keys.min? with
  | none => table
  | some round => table.erase round

def evictOldest (table : Table Nat VoteMap) : Table Nat VoteMap :=
  Nat.iterate eraseOldest (table.size - MAX_PAST_ROUNDS) table

/-! ## Committing -/

def walTruncate (height : Nat) (engine : Engine) : Engine :=
  { engine with
    walVotes := engine.walVotes.filter fun entry => entry.1.1 > height
    walLocks := engine.walLocks.filter fun entry => entry.1.1 > height }

def haltConsensus (engine : Engine) : Engine :=
  ({ engine with running := false, halted := true, commitBlock := none, timerRunning := false }).emit
    .consensusHalt

/-- The evidence left after a block with these transactions was applied. -/
def eraseEvidence (transactions : List Transaction) (buffer : List EquivocationEvidence) :
    List EquivocationEvidence :=
  transactions.foldl
    (fun kept tx =>
      if tx.txType ≠ .slash then kept
      else match decodeSlashEvidence tx.payload with
      | none => kept
      | some decoded => kept.filter fun evidence =>
        !(evidence.voteA.signerId == decoded.voteA.signerId &&
          evidence.voteA.height == decoded.voteA.height &&
          evidence.voteA.round == decoded.voteA.round))
    buffer

/-- `tryApplyCommit` after `on_block_committed` returned true. -/
def commitApplied (block : Block) (engine : Engine) : Engine :=
  { engine.walTruncate engine.height with
    outputs := engine.outputs ++ [.blockCommitted block true, .heightAdvanced (engine.height + 1)]
    consecutiveTimeouts := 0
    equivocations := eraseEvidence block.transactions engine.equivocations
    commitBlock := none
    commitAttempts := 0
    pendingHeight := some (engine.height + 1)
    nextProposeNotBeforeMs := inputs.nowMs + MIN_BLOCK_INTERVAL_MS }

/-- `tryApplyCommit` after `on_block_committed` returned false. -/
def commitRejected (block : Block) (engine : Engine) : Engine :=
  let engine := engine.emit (.blockCommitted block false)
  let engine := { engine with commitAttempts := engine.commitAttempts + 1 }
  if engine.commitAttempts > env.config.maxCommitRetries then engine.haltConsensus
  else
    { engine with
      nextCommitAttemptMs := inputs.nowMs + env.config.commitRetryBackoffMs * engine.commitAttempts }

def tryApplyCommit (engine : Engine) : Engine :=
  match engine.commitBlock with
  | none => engine
  | some block =>
    if inputs.onBlockCommitted block then engine.commitApplied inputs block
    else engine.commitRejected env inputs block

/-- `id_to_index`: a later position of an id replaces an earlier one. -/
def lastIndex (activeSet : List Nat) (id : Nat) : Option Nat :=
  (activeSet.reverse.findIdx? (· == id)).map fun position => u16 (activeSet.length - 1 - position)

/-- The signatures of a committed block: the votes for it by members of its set. -/
def quorumSignaturesOf (activeSet : List Nat) (container : VoteMap) (hash : Hash) :
    List ValidatorSignature :=
  ((env.order.votes container).filterMap fun entry =>
    if votesFor hash entry.2 then
      (lastIndex activeSet entry.1).map fun index =>
        { signerIndex := index, signature := entry.2.signature }
    else none).insertionSort fun left right => left.signerIndex ≤ right.signerIndex

def commitContainer (engine : Engine) (round : Nat) : Option VoteMap :=
  if round = engine.round then some engine.precommits else engine.pastPrecommits.find? round

/-- The block `enterCommit` builds, when the round holds a precommit quorum. -/
def blockToCommit (engine : Engine) (round : Nat) : Option Block := do
  let container ← engine.commitContainer round
  let hash ← engine.quorumValueIn env container
  let block ← engine.proposalsByHash.find? hash
  let signatures := quorumSignaturesOf env
    ((env.now engine).activeSet block.header.emergency) container hash
  if signatures.length < engine.quorumThreshold env block.header.emergency then none
  else some { block with
    header := { block.header with commitRound := round }
    quorumSignatures := signatures }

def enterCommit (height round : Nat) (engine : Engine) : Engine :=
  if engine.pendingHeight.isSome || engine.commitBlock.isSome then engine
  else if height ≠ engine.height then engine
  else match engine.blockToCommit env round with
  | none => engine
  | some block =>
    { engine with
      step := .commit
      commitBlock := some block
      commitAttempts := 0
      nextCommitAttemptMs := 0 }.tryApplyCommit env inputs

def checkPrecommitQuorum (engine : Engine) : Engine :=
  if (engine.quorumValue env true).isSome then
    engine.enterCommit env inputs engine.height engine.round
  else engine

/-- The insertion of `recordPastPrecommit`: the vote joins the ones kept for its round. -/
def tallyPast (vote : Vote) (engine : Engine) : Engine × VoteMap × InsertResult :=
  let result := engine.insertVote env ((engine.pastPrecommits.find? vote.round).getD .empty) vote
    (engine.resolveVoteSigner env vote)
  let kept := engine.pastPrecommits.put vote.round result.1
  ({ result.2.1 with
      pastPrecommits := if result.2.2 = .inserted then evictOldest kept else kept },
    result.1, result.2.2)

def recordPastPrecommit (vote : Vote) (engine : Engine) : Engine :=
  let voterId := engine.resolveVoteSigner env vote
  if vote.round + MAX_PAST_ROUNDS < engine.round then engine
  else if engine.voteReady vote = false then engine
  else if voterId = INVALID_ID then engine
  else if engine.verifyVoteSignature env vote voterId = false then engine
  else
    let (engine, bucket, result) := engine.tallyPast env vote
    if result = .inserted ∧ (engine.quorumValueIn env bucket).isSome then
      engine.enterCommit env inputs engine.height vote.round
    else engine

def recordPrecommit (vote : Vote) (engine : Engine) : Engine :=
  let result := engine.tallyVote env vote true
  if result.2 = .inserted then result.1.checkPrecommitQuorum env inputs else result.1

/-! ## Own votes -/

/-- The vote `broadcastVote` builds and signs. -/
def ownVote (isNil : Bool) (blockHash : Hash) (engine : Engine) : Vote :=
  let me := (env.now engine).myValidatorId
  { height := engine.height
    round := engine.round
    signerIndex := engine.indexInSet env me (engine.ownVoteSet env isNil blockHash)
    signerId := me
    isNil := isNil
    blockHash := blockHash
    signature := (env.now engine).sign
      (voteSigningHash env.crypto engine.height engine.round isNil blockHash) }

/-- A new own vote is signed, logged and registered. -/
def registerVote (isPrecommit : Bool) (vote : Vote) (engine : Engine) : Engine :=
  { engine with
    walVotes := engine.walVotes.put (vote.height, vote.round, vote.signerId) (vote, isPrecommit)
    signedVotes := engine.signedVotes.emplace (engine.height, engine.round, isPrecommit) vote
    outputs := engine.outputs ++ [.signedVote vote isPrecommit] }

/-- `broadcastVote` up to the point where the vote is recorded: the vote signed before for
this height, round and type, or a new one, or none when this node cannot vote. -/
def signOwnVote (isPrecommit isNil : Bool) (blockHash : Hash) (engine : Engine) :
    Engine × Option Vote :=
  if (env.now engine).myValidatorId = INVALID_ID then (engine, none)
  else match engine.signedVotes.find? (engine.height, engine.round, isPrecommit) with
  | some prior => (engine, some prior)
  | none =>
    let vote := engine.ownVote env isNil blockHash
    if vote.signerIndex = INVALID_INDEX then (engine, none)
    else (engine.registerVote isPrecommit vote, some vote)

/-- The polka part of `enterPrecommit`: a polka becomes the valid value and the lock. -/
def lockPolka (engine : Engine) : Engine :=
  match engine.quorumValue env false with
  | none => engine
  | some polka =>
    { engine with
      validSet := true
      validHash := polka
      validRound := engine.round
      walLocks := engine.walLocks.put (engine.height, engine.round) polka
      locked := true
      lockedHash := polka
      lockedRound := engine.round }

def precommitChoice (engine : Engine) : Option Hash :=
  if engine.locked then some engine.lockedHash else none

/-- `enterPrecommit` up to `recordVote`: the step, the lock, and the own precommit. -/
def castPrecommit (engine : Engine) : Engine × Option Vote :=
  let engine := (engine.setStep .precommit).lockPolka env
  let value := engine.precommitChoice
  engine.signOwnVote env true value.isNone (value.getD 0)

def precommitNow (engine : Engine) : Engine :=
  match engine.castPrecommit env with
  | (cast, none) => cast
  | (cast, some vote) => (cast.recordPrecommit env inputs vote).emit (.broadcastVote vote true)

def castPrevote (engine : Engine) : Engine × Option Vote :=
  let engine := engine.setStep .prevote
  let value := engine.selectPrevoteHash
  engine.signOwnVote env false value.isNone (value.getD 0)

/-- The first part of `checkPrevoteQuorum`: remember a polka as the valid value. -/
def noteValid (polka : Hash) (engine : Engine) : Engine :=
  if engine.stepAtLeastPrevote && (!engine.validSet || engine.validRound < engine.round) then
    { engine with validSet := true, validHash := polka, validRound := engine.round }
  else engine

/-! ## Resets -/

def resetForNewHeight (height : Nat) (engine : Engine) : Engine :=
  { engine with
    height := height
    round := 0
    step := .newHeight
    consecutiveTimeouts := 0
    locked := false
    lockedHash := 0
    lockedRound := 0
    validSet := false
    validHash := 0
    validRound := 0
    proposal := none
    proposalsByHash := .empty
    prevotes := .empty
    precommits := .empty
    pastPrecommits := .empty
    signedVotes := .empty
    proposalForRound := .empty
    timeoutVotes := []
    commitBlock := none
    commitAttempts := 0
    nextCommitAttemptMs := 0
    nextProposeNotBeforeMs := 0
    mailbox := { engine.mailbox with
      pendingPrevotes := []
      pendingPrecommits := []
      futureProposals := .empty
      futureRoundPrevotes := .empty
      futureRoundPrecommits := .empty
      roundHints := .empty } }

/-- The precommits of the round that ends join those kept for it. -/
def keepPrecommits (engine : Engine) : Table Nat VoteMap :=
  if engine.precommits.entries.isEmpty then engine.pastPrecommits
  else
    let bucket := (engine.pastPrecommits.find? engine.round).getD .empty
    evictOldest (engine.pastPrecommits.put engine.round
      (engine.precommits.entries.foldl (fun kept entry => kept.emplace entry.1 entry.2) bucket))

def resetForNewRound (round : Nat) (engine : Engine) : Engine :=
  { engine with
    pastPrecommits := engine.keepPrecommits
    round := round
    proposal := none
    prevotes := .empty
    precommits := .empty
    mailbox := { engine.mailbox with
      pendingPrevotes := []
      pendingPrecommits := []
      futureProposals := engine.mailbox.futureProposals.filter fun entry => entry.1 ≥ round
      futureRoundPrevotes := engine.mailbox.futureRoundPrevotes.filter fun entry => entry.1 ≥ round
      futureRoundPrecommits :=
        engine.mailbox.futureRoundPrecommits.filter fun entry => entry.1 ≥ round } }

/-- `restoreOwnVotes` on one container: a node without an id has nothing to restore. -/
def restoreVote (engine : Engine) (me round : Nat) (isPrecommit : Bool) (container : VoteMap) :
    VoteMap :=
  if me = INVALID_ID then container
  else match engine.signedVotes.find? (engine.height, round, isPrecommit) with
  | none => container
  | some vote => container.put me vote

def restoreOwnVotes (round : Nat) (engine : Engine) : Engine :=
  let me := (env.now engine).myValidatorId
  { engine with
    prevotes := engine.restoreVote me round false engine.prevotes
    precommits := engine.restoreVote me round true engine.precommits }

def beginRound (round : Nat) (engine : Engine) : Engine :=
  let engine := { engine.resetForNewRound round with step := .propose }
  let engine :=
    { engine with
      consecutiveTimeouts :=
        if round > 0 then u32 (engine.consecutiveTimeouts + 1) else engine.consecutiveTimeouts }
  let engine := engine.restoreOwnVotes env round
  { engine with
    proposer := proposerFor engine.height round ((env.now engine).activeSet engine.useEmergencySet)
    timerRunning := true }

/-- The replayed votes of `replayWalForHeight`: the first one for each key stays. -/
def replayVotes (engine : Engine) (height me : Nat) : Table SignedKey Vote :=
  engine.walVotes.entries.foldl
    (fun signed entry =>
      if entry.1.1 = height ∧ entry.2.1.height = height ∧ entry.2.1.signerId = me then
        signed.emplace (entry.2.1.height, entry.2.1.round, entry.2.2) entry.2.1
      else signed)
    engine.signedVotes

/-- The replayed locks: the highest round wins. -/
def replayLocks (height : Nat) (engine : Engine) : Engine :=
  engine.walLocks.entries.foldl
    (fun engine entry =>
      if entry.1.1 = height ∧ (engine.locked = false ∨ entry.1.2 ≥ engine.lockedRound) then
        { engine with locked := true, lockedHash := entry.2, lockedRound := entry.1.2 }
      else engine)
    engine

/-- `replayWalForHeight`: the engine after it, and the round to resume at. -/
def replayWalForHeight (height : Nat) (engine : Engine) : Engine × Nat :=
  let me := (env.now engine).myValidatorId
  if me = INVALID_ID then (engine, 0)
  else
    let engine := { engine with signedVotes := engine.replayVotes height me }
    let engine := engine.replayLocks height
    let resume := if engine.locked then engine.lockedRound else 0
    let engine :=
      if engine.locked then
        { engine with
          validSet := true
          validHash := engine.lockedHash
          validRound := engine.lockedRound }
      else engine
    let rebroadcast := engine.signedVotes.entries.map fun entry =>
      Output.broadcastVote entry.2 entry.1.2.2
    ({ engine with outputs := engine.outputs ++ rebroadcast },
      engine.signedVotes.entries.foldl (fun resume entry => max resume entry.1.2.1) resume)

/-- `enterNewHeight` up to `enterPropose`: the engine, and the round it resumes at. -/
def openHeight (height : Nat) (engine : Engine) : Engine × Nat :=
  let result := (engine.resetForNewHeight height).replayWalForHeight env height
  if result.2 > 0 then ({ result.1 with consecutiveTimeouts := result.2 - 1 }, result.2)
  else result

/-! ## Timeout votes -/

/-- `storeTimeoutVote`: the votes after it, if the vote was new and had room. -/
def storeTimeoutVote (vote : TimeoutVote) (stored : List TimeoutVote) : Option (List TimeoutVote) :=
  let sameSigner := stored.filter fun existing => existing.signerId == vote.signerId
  if sameSigner.any fun existing => existing.round == vote.round then none
  else if sameSigner.length ≥ MAX_TIMEOUT_VOTES_PER_SIGNER then none
  else if stored.length ≥ MAX_TIMEOUT_VOTES then none
  else some (stored ++ [vote])

/-- The vote `broadcastTimeoutVote` builds and signs. -/
def ownTimeoutVote (round : Nat) (engine : Engine) : TimeoutVote :=
  let me := (env.now engine).myValidatorId
  { height := engine.height
    round := round
    signerId := me
    signerIndex := engine.indexInSet env me false
    signature := (env.now engine).sign (timeoutVoteSigningHash env.crypto engine.height round) }

def broadcastTimeoutVote (round : Nat) (engine : Engine) : Engine :=
  let vote := engine.ownTimeoutVote env round
  if round < EMERGENCY_ROTATION_ROUNDS then engine
  else if vote.signerIndex = INVALID_INDEX then engine
  else
    let engine := engine.emit (.signedTimeoutVote vote)
    match storeTimeoutVote vote engine.timeoutVotes with
    | none => engine
    | some stored => { engine with timeoutVotes := stored }.emit (.broadcastTimeoutVote vote)

end Engine

end Clarity.Consensus
