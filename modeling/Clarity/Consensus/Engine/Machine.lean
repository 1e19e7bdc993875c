import Clarity.Consensus.Engine.Propose

/-!
Contract: the control flow of `BftConsensus`: message handling, the round state machine,
timeouts and the events of a run.

Owns: every method that can re-enter vote handling. `handleVote` and `enterPropose` are
the two entries through which the methods call each other in a cycle; the other methods
take these two as the argument `self`. `exec` ties the knot with a bound on the nesting,
and `none` means that the bound was too small.
-/

namespace Clarity.Consensus

open Common Crypto Clarity.Core Library

/-- The two methods in every cycle of calls. -/
inductive Call
  | handleVote (vote : Vote) (isPrecommit : Bool)
  | enterPropose (height round : Nat)

abbrev Self := Call → Engine → Option Engine

namespace Engine

variable (env : Env) (inputs : Inputs) (self : Self)

/-! ## Drains -/

def drainVotes (isPrecommit : Bool) (votes : List Vote) (engine : Engine) : Option Engine :=
  votes.foldlM (fun engine vote => self (.handleVote vote isPrecommit) engine) engine

def drainPendingVotes (engine : Engine) : Option Engine := do
  let mailbox := engine.mailbox
  let engine := engine.modifyMailbox fun mailbox =>
    { mailbox with pendingPrevotes := [], pendingPrecommits := [] }
  let engine ← engine.drainVotes self false mailbox.pendingPrevotes
  engine.drainVotes self true mailbox.pendingPrecommits

def bucketVotes (store : Table Nat VoteMap) (key : Nat) : List Vote :=
  match store.find? key with
  | none => []
  | some bucket => (env.order.votes bucket).map Prod.snd

def drainFutureRoundVotes (engine : Engine) : Option Engine := do
  let mailbox := engine.mailbox
  let keep := fun entry : Nat × VoteMap =>
    entry.1 > engine.round && entry.1 ≤ u32 (engine.round + MAX_FUTURE_ROUNDS)
  let prevotes := bucketVotes env mailbox.futureRoundPrevotes engine.round
  let precommits := bucketVotes env mailbox.futureRoundPrecommits engine.round
  let engine := engine.modifyMailbox fun mailbox =>
    { mailbox with
      futureRoundPrevotes := mailbox.futureRoundPrevotes.filter keep
      futureRoundPrecommits := mailbox.futureRoundPrecommits.filter keep }
  let engine ← engine.drainVotes self false prevotes
  engine.drainVotes self true precommits

def drainFutureHeightVotes (engine : Engine) : Option Engine := do
  let mailbox := engine.mailbox
  let keep := fun entry : Nat × VoteMap =>
    entry.1 > engine.height && entry.1 ≤ engine.height + 1
  let prevotes := bucketVotes env mailbox.futureHeightPrevotes engine.height
  let precommits := bucketVotes env mailbox.futureHeightPrecommits engine.height
  let engine := engine.modifyMailbox fun mailbox =>
    { mailbox with
      futureHeightPrevotes := mailbox.futureHeightPrevotes.filter keep
      futureHeightPrecommits := mailbox.futureHeightPrecommits.filter keep }
  let engine ← engine.drainVotes self false prevotes
  engine.drainVotes self true precommits

/-! ## The steps of a round -/

def enterPrecommit (height round : Nat) (engine : Engine) : Option Engine :=
  if engine.step = .precommit ∧ engine.round = round then some engine
  else if engine.height ≠ height ∨ engine.round ≠ round then some engine
  else do
    let engine := engine.precommitNow env inputs
    if engine.height ≠ height ∨ engine.round ≠ round ∨ engine.step ≠ .precommit then some engine
    else do
      let engine ← (engine.setTimer true).drainPendingVotes self
      if engine.height ≠ height ∨ engine.round ≠ round ∨ engine.step ≠ .precommit then some engine
      else some (engine.checkPrecommitQuorum env inputs)

def checkPrevoteQuorum (engine : Engine) : Option Engine :=
  match engine.quorumValue env false with
  | none => some engine
  | some polka =>
    let engine := engine.noteValid polka
    if engine.step = .prevote then
      engine.enterPrecommit env inputs self engine.height engine.round
    else some engine

def recordVote (vote : Vote) (isPrecommit : Bool) (engine : Engine) : Option Engine :=
  if isPrecommit then some (engine.recordPrecommit env inputs vote)
  else
    let result := engine.tallyVote env vote false
    if result.2 = .inserted then result.1.checkPrevoteQuorum env inputs self else some result.1

/-- `enterPrevote` up to the end of its `broadcastVote`. -/
def prevoteNow (engine : Engine) : Option Engine :=
  match engine.castPrevote env with
  | (cast, none) => some cast
  | (cast, some vote) => do
    let engine ← cast.recordVote env inputs self vote false
    some (engine.emit (.broadcastVote vote false))

def enterPrevote (height round : Nat) (engine : Engine) : Option Engine :=
  if engine.step = .prevote ∧ engine.round = round then some engine
  else if engine.height ≠ height ∨ engine.round ≠ round then some engine
  else do
    let engine ← engine.prevoteNow env inputs self
    if engine.height ≠ height ∨ engine.round ≠ round ∨ engine.step ≠ .prevote then some engine
    else do
      let engine ← (engine.setTimer true).drainPendingVotes self
      if engine.height ≠ height ∨ engine.round ≠ round ∨ engine.step ≠ .prevote then some engine
      else engine.checkPrevoteQuorum env inputs self

/-! ## Proposing -/

def propose (engine : Engine) : Option Engine :=
  if (env.now engine).myValidatorId = INVALID_ID then some engine
  else match engine.makeProposal env inputs with
  | none => some engine
  | some (proposal, block) =>
    let sent := (engine.emit (.signedProposal proposal)).emit (.broadcastProposal proposal)
    let stored := sent.storeProposal proposal block
    if stored.step = .propose then
      stored.enterPrevote env inputs self stored.height stored.round
    else some stored

def tryPropose (engine : Engine) : Option Engine :=
  let me := (env.now engine).myValidatorId
  if engine.step ≠ .propose then some engine
  else if engine.proposal.isSome then some engine
  else if me = INVALID_ID then some engine
  else if me ≠ engine.proposer then some engine
  else if engine.signedVotes.contains (engine.height, engine.round, false) then some engine
  else engine.propose env inputs self

/-! ## The f+1 round skip -/

/-- The hinted rounds of committed validators above the current round, highest first. -/
def hintedRounds (engine : Engine) : List Nat :=
  ((engine.mailbox.roundHints.entries.filter fun entry =>
    entry.2 > engine.round && entry.1 ∈ (env.now engine).activeSet false).map Prod.snd).insertionSort
      (· ≥ ·)

/-- The round `maybeSkipRound` skips to, if it skips. -/
def skipTarget (engine : Engine) : Option Nat :=
  let committed := (env.now engine).activeSet false
  if engine.running = false ∨ engine.step = .commit ∨ engine.pendingHeight.isSome ∨
      engine.commitBlock.isSome then none
  else if committed = [] then none
  else match (engine.hintedRounds env)[(committed.length - 1) / 3]? with
  | none => none
  | some target => if target ≤ engine.round then none else some target

def addHint (signer round : Nat) (mailbox : Mailbox) : Mailbox :=
  { mailbox with
    roundHints := mailbox.roundHints.put signer
      (max ((mailbox.roundHints.find? signer).getD 0) round) }

def dropHints (target : Nat) (mailbox : Mailbox) : Mailbox :=
  { mailbox with roundHints := mailbox.roundHints.filter fun entry => entry.2 > target }

def maybeSkipRound (engine : Engine) : Option Engine :=
  match engine.skipTarget env with
  | none => some engine
  | some target =>
    let engine := engine.modifyMailbox (dropHints target)
    self (.enterPropose engine.height target) (engine.setTimeouts (target - 1))

def noteRoundHint (signer round : Nat) (engine : Engine) : Option Engine :=
  if signer = INVALID_ID ∨ round ≤ engine.round then some engine
  else
    (engine.modifyMailbox (addHint signer round)).maybeSkipRound env self

/-! ## Message handling -/

def handleProposal (proposal : Proposal) (engine : Engine) : Option Engine :=
  if proposal.blockBytes.length > env.config.maxBlockBytes + MAX_PROPOSAL_SLACK_BYTES then
    some engine
  else if proposal.height ≠ engine.height then
    if proposal.height = engine.height + 1 ∧ engine.verifyProposalSignature env proposal then
      some (engine.modifyMailbox fun mailbox =>
        { mailbox with
          futureHeightProposals :=
            mailbox.futureHeightProposals.emplace proposal.height proposal })
    else some engine
  else if proposal.round > engine.round then
    if proposal.round - engine.round > MAX_FUTURE_ROUNDS then some engine
    else if engine.verifyProposalSignature env proposal = false then some engine
    else
      let engine := engine.modifyMailbox fun mailbox =>
        { mailbox with
          futureProposals := mailbox.futureProposals.emplace proposal.round proposal }
      engine.noteRoundHint env self proposal.signerId proposal.round
  else if proposal.round < engine.round then some engine
  else if engine.proposal.isSome then some engine
  else match engine.acceptableBlock env inputs proposal with
  | none => some engine
  | some block => do
    let engine ← (engine.storeProposal proposal block).drainPendingVotes self
    if engine.step = .propose ∧ engine.height = proposal.height ∧ engine.round = proposal.round
    then engine.enterPrevote env inputs self engine.height engine.round
    else some engine

/-- The part of `handleVote` after the signature check and the round hint: a vote for a later
round waits, one for an earlier round counts only as a precommit, one for this round is tallied
once the step and the block allow it. -/
def placeVote (vote : Vote) (isPrecommit : Bool)
    (signer : Nat) (engine : Engine) : Option Engine :=
  if vote.round > engine.round then some (engine.bufferFutureVote vote isPrecommit signer)
  else if vote.round < engine.round then
    some (if isPrecommit then engine.recordPastPrecommit env inputs vote else engine)
  else if engine.step = .newHeight ∨ engine.voteReady vote = false then
    some (engine.pushPending isPrecommit vote)
  else engine.recordVote env inputs self vote isPrecommit

def handleVote (vote : Vote) (isPrecommit : Bool) (engine : Engine) : Option Engine :=
  if vote.height ≠ engine.height then
    if vote.height = engine.height + 1 then
      match engine.voteSignatureOk env vote with
      | none => some engine
      | some signer => some (engine.bufferNextHeightVote vote isPrecommit signer)
    else some engine
  else match engine.voteSignatureOk env vote with
  | none => some engine
  | some signer =>
    if vote.round > engine.round then do
      let engine ← engine.noteRoundHint env self signer vote.round
      engine.placeVote env inputs self vote isPrecommit signer
    else engine.placeVote env inputs self vote isPrecommit signer

def drainFutureProposal (engine : Engine) : Option Engine :=
  match engine.mailbox.futureProposals.find? engine.round with
  | none => some engine
  | some proposal =>
    (engine.modifyMailbox fun mailbox =>
      { mailbox with
        futureProposals := mailbox.futureProposals.erase engine.round }).handleProposal env inputs
          self proposal

def drainFutureHeightProposal (engine : Engine) : Option Engine :=
  let engine := engine.modifyMailbox fun mailbox =>
    { mailbox with
      futureHeightProposals := mailbox.futureHeightProposals.filter fun entry =>
        entry.1 ≥ engine.height && entry.1 ≤ engine.height + 1 }
  match engine.mailbox.futureHeightProposals.find? engine.height with
  | none => some engine
  | some proposal =>
    (engine.modifyMailbox fun mailbox =>
      { mailbox with
        futureHeightProposals :=
          mailbox.futureHeightProposals.erase engine.height }).handleProposal env inputs self
            proposal

def enterPropose (height round : Nat) (engine : Engine) : Option Engine := do
  let engine := engine.beginRound env round
  let me := (env.now engine).myValidatorId
  let isProposer := me = engine.proposer ∧ me ≠ INVALID_ID
  let engine ← engine.drainFutureHeightProposal env inputs self
  let engine ← engine.drainFutureProposal env inputs self
  let engine ← engine.drainFutureHeightVotes env self
  let engine ← engine.drainFutureRoundVotes env self
  if engine.height ≠ height ∨ engine.round ≠ round ∨ engine.step ≠ .propose then some engine
  else if isProposer then engine.tryPropose env inputs self
  else some engine

end Engine

/-- The engine's calls, nested at most `fuel` deep. -/
def exec (env : Env) (inputs : Inputs) : Nat → Self
  | 0, _, _ => none
  | fuel + 1, .handleVote vote isPrecommit, engine =>
    engine.handleVote env inputs (exec env inputs fuel) vote isPrecommit
  | fuel + 1, .enterPropose height round, engine =>
    engine.enterPropose env inputs (exec env inputs fuel) height round

/-! ## Events -/

/-- What can happen to an engine. -/
inductive Event
  | start (height : Nat)
  | stop
  | onProposal (proposal : Proposal)
  | onPrevote (vote : Vote)
  | onPrecommit (vote : Vote)
  | onTimeoutVote (vote : TimeoutVote)
  | noteChainHead (appliedHeight : Nat)
  | pollTimers
  | tryPropose
deriving DecidableEq, Repr

namespace Engine

variable (env : Env) (inputs : Inputs) (self : Self)

def enterNewHeight (height : Nat) (engine : Engine) : Option Engine :=
  let result := engine.openHeight env height
  self (.enterPropose height result.2) result.1

def start (height : Nat) (engine : Engine) : Option Engine :=
  if engine.running then some engine
  else
    let engine :=
      { engine with
        pendingHeight := none
        commitBlock := none
        commitAttempts := 0
        nextCommitAttemptMs := 0
        externalNextHeight := 0
        halted := false }
    let engine := if height > 0 then engine.walTruncate (height - 1) else engine
    { engine with running := true }.enterNewHeight env self height

def stop (engine : Engine) : Engine :=
  if engine.running then { engine with running := false, timerRunning := false } else engine

def noteChainHead (appliedHeight : Nat) (engine : Engine) : Engine :=
  { engine with externalNextHeight := max engine.externalNextHeight (appliedHeight + 1) }

/-- The validator a timeout vote is counted for, if its fields agree. -/
def timeoutVoter (committed : List Nat) (vote : TimeoutVote) : Option Nat :=
  if vote.signerId = INVALID_ID then committed[vote.signerIndex]?
  else if vote.signerId ∉ committed then none
  else if vote.signerIndex ≠ INVALID_INDEX ∧ committed[vote.signerIndex]? ≠ some vote.signerId then
    none
  else some vote.signerId

def retryEmergencyPropose (engine : Engine) : Option Engine :=
  let me := (env.now engine).myValidatorId
  if engine.step ≠ .propose then some engine
  else if engine.proposal.isSome then some engine
  else if engine.useEmergencySet = false then some engine
  else if me = INVALID_ID ∨ me ≠ engine.proposer then some engine
  else engine.tryPropose env inputs self

def handleTimeoutVote (vote : TimeoutVote) (engine : Engine) : Option Engine :=
  if vote.height ≠ engine.height then some engine
  else if vote.round < EMERGENCY_ROTATION_ROUNDS then some engine
  else if vote.round > u32 (engine.round + MAX_FUTURE_ROUNDS) then some engine
  else match timeoutVoter ((env.now engine).activeSet false) vote with
  | none => some engine
  | some voterId =>
    match (env.now engine).stateLookupValidator voterId with
    | none => some engine
    | some validator =>
      if env.crypto.verify (timeoutVoteSigningHash env.crypto vote.height vote.round)
          validator.effectiveConsensusKey vote.signature = false then some engine
      else match storeTimeoutVote { vote with signerId := voterId } engine.timeoutVotes with
      | none => some engine
      | some stored =>
        { engine with timeoutVotes := stored }.retryEmergencyPropose env inputs self

def onProposeTimeout (engine : Engine) : Option Engine :=
  (engine.broadcastTimeoutVote env engine.round).enterPrevote env inputs self engine.height
    engine.round

def onPrevoteTimeout (engine : Engine) : Option Engine :=
  (engine.broadcastTimeoutVote env engine.round).enterPrecommit env inputs self engine.height
    engine.round

/-- The end of `onPrecommitTimeout`: commit if a quorum is there, else go to the next round. -/
def commitOrAdvance (quorumBlock : Option Hash) (engine : Engine) : Option Engine :=
  let known := (quorumBlock.bind engine.proposalsByHash.find?).isSome
  let engine :=
    if known then engine.enterCommit env inputs engine.height engine.round else engine
  if known ∧ (engine.commitBlock.isSome ∨ engine.pendingHeight.isSome ∨ engine.running = false) then
    some engine
  else self (.enterPropose engine.height (u32 (engine.round + 1))) engine

def onPrecommitTimeout (engine : Engine) : Option Engine :=
  (engine.broadcastTimeoutVote env engine.round).commitOrAdvance env inputs self
    (engine.quorumValue env true)

/-- The part of `pollTimers` that runs when no commit and no height change is pending. -/
def pollRoundTimer (engine : Engine) : Option Engine :=
  if engine.timerRunning = false ∨ inputs.timerExpired = false then some engine
  else
    let engine := engine.setTimer false
    match engine.step with
    | .propose => engine.onProposeTimeout env inputs self
    | .prevote => engine.onPrevoteTimeout env inputs self
    | .precommit => engine.onPrecommitTimeout env inputs self
    | _ => some engine

def pollTimers (engine : Engine) : Option Engine :=
  if engine.running = false then some engine
  else if engine.externalNextHeight ≠ 0 ∧
      engine.externalNextHeight > engine.pendingHeight.getD engine.height then
    let height := engine.externalNextHeight
    { engine with
      commitBlock := none
      commitAttempts := 0
      pendingHeight := none
      nextProposeNotBeforeMs := 0 }.walTruncate (height - 1) |>.enterNewHeight env self height
  else if engine.commitBlock.isSome then
    if inputs.nowMs ≥ engine.nextCommitAttemptMs then some (engine.tryApplyCommit env inputs)
    else some engine
  else match engine.pendingHeight with
  | some next =>
    if engine.nextProposeNotBeforeMs ≠ 0 ∧ inputs.nowMs < engine.nextProposeNotBeforeMs ∧
        inputs.hasPendingWork = false then some engine
    else
      { engine with
        pendingHeight := none
        nextProposeNotBeforeMs := 0 }.enterNewHeight env self next
  | none => engine.pollRoundTimer env inputs self

end Engine

/-- One event, with calls nested at most `fuel` deep. -/
def handle (env : Env) (inputs : Inputs) (fuel : Nat) (event : Event) (engine : Engine) :
    Option Engine :=
  let self := exec env inputs fuel
  match event with
  | .start height => engine.start env self height
  | .stop => some engine.stop
  | .onProposal proposal =>
    if engine.running then engine.handleProposal env inputs self proposal else some engine
  | .onPrevote vote =>
    if engine.running then engine.handleVote env inputs self vote false else some engine
  | .onPrecommit vote =>
    if engine.running then engine.handleVote env inputs self vote true else some engine
  | .onTimeoutVote vote =>
    if engine.running then engine.handleTimeoutVote env inputs self vote else some engine
  | .noteChainHead appliedHeight => some (engine.noteChainHead appliedHeight)
  | .pollTimers => engine.pollTimers env inputs self
  | .tryPropose => engine.tryPropose env inputs self

end Clarity.Consensus
