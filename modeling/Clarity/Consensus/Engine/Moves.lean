import Clarity.Library.Path
import Clarity.Consensus.Engine.Effects
import Clarity.Consensus.Engine.Machine

/-!
Contract: everything the engine can do at one height, said once.

Owns: `Move`, one constructor for each way the engine's members change, with the condition
under which the code makes that change; `Change`, the same with the calls unfolded and the
bookkeeping in one case; and `NewHeight`, the one change of height an event may start with.

An invariant of the engine is proved for each move, never for the methods.
-/

namespace Clarity.Consensus

open Common Crypto Clarity.Core Library Relation

/-! ## Where buffered votes come from -/

namespace Mailbox

def pending (mailbox : Mailbox) (isPrecommit : Bool) : List Vote :=
  if isPrecommit then mailbox.pendingPrecommits else mailbox.pendingPrevotes

def futureRound (mailbox : Mailbox) (isPrecommit : Bool) : Table Nat VoteMap :=
  if isPrecommit then mailbox.futureRoundPrecommits else mailbox.futureRoundPrevotes

def futureHeight (mailbox : Mailbox) (isPrecommit : Bool) : Table Nat VoteMap :=
  if isPrecommit then mailbox.futureHeightPrecommits else mailbox.futureHeightPrevotes

end Mailbox

def InStore (store : Table Nat VoteMap) (vote : Vote) : Prop :=
  ∃ bucket ∈ store.entries, ∃ entry ∈ bucket.2.entries, entry.2 = vote

def Mailbox.Holds (mailbox : Mailbox) (isPrecommit : Bool) (vote : Vote) : Prop :=
  vote ∈ mailbox.pending isPrecommit ∨ InStore (mailbox.futureRound isPrecommit) vote ∨
    InStore (mailbox.futureHeight isPrecommit) vote

def Mailbox.HoldsProposal (mailbox : Mailbox) (proposal : Proposal) : Prop :=
  (∃ entry ∈ mailbox.futureProposals.entries, entry.2 = proposal) ∨
    ∃ entry ∈ mailbox.futureHeightProposals.entries, entry.2 = proposal

/-- What the moves of one event may rely on. -/
structure Grants where
  /-- The votes that were delivered, as the type they were delivered as. -/
  delivered : Bool → Vote → Prop
  /-- The proposals that were delivered. -/
  proposed : Proposal → Prop
  /-- The states in which the engine precommits without a polka. -/
  fallback : Engine → Prop
  /-- The changes of round. -/
  advance : Nat → Nat → Prop

/-- Every vote that waits was delivered as its type, and every proposal that waits was delivered. -/
structure Engine.Sourced (grants : Grants) (engine : Engine) : Prop where
  votes : ∀ isPrecommit vote, engine.mailbox.Holds isPrecommit vote →
    grants.delivered isPrecommit vote
  proposals : ∀ proposal, engine.mailbox.HoldsProposal proposal → grants.proposed proposal

namespace Engine

/-! ## Moves -/

def startCommit (block : Block) (engine : Engine) : Engine :=
  { engine with
    step := .commit
    commitBlock := some block
    commitAttempts := 0
    nextCommitAttemptMs := 0 }

def storeOwnProposal (proposal : Proposal) (block : Block) (engine : Engine) : Engine :=
  ((engine.emit (.signedProposal proposal)).emit (.broadcastProposal proposal)).storeProposal
    proposal block

/-- The engine can still vote at this height: nothing is decided. -/
def Undecided (engine : Engine) : Prop :=
  engine.commitBlock = none ∧ engine.pendingHeight = none

end Engine

/-- One change of the engine's members at a height. -/
inductive Move (env : Env) (inputs : Inputs) (grants : Grants) : Engine → Engine → Prop
  | mailbox (engine : Engine) (change : Mailbox → Mailbox) :
      Move env inputs grants engine (engine.modifyMailbox change)
  | control (engine : Engine) (running timerRunning : Bool) (externalNextHeight : Nat) :
      Move env inputs grants engine
        { engine with
          running := running
          timerRunning := timerRunning
          externalNextHeight := externalNextHeight }
  | sent (engine : Engine) (vote : Vote) (isPrecommit : Bool) :
      Move env inputs grants engine (engine.emit (.broadcastVote vote isPrecommit))
  | ownTimeout (engine : Engine) :
      Move env inputs grants engine (engine.broadcastTimeoutVote env engine.round)
  | peerTimeout (engine : Engine) (vote : TimeoutVote) (voterId : Nat) (validator : ValidatorInfo)
      (stored : List TimeoutVote) (height : vote.height = engine.height)
      (voter : Engine.timeoutVoter ((env.now engine).activeSet false) vote = some voterId)
      (found : (env.now engine).stateLookupValidator voterId = some validator)
      (verified : env.crypto.verify (timeoutVoteSigningHash env.crypto vote.height vote.round)
        validator.effectiveConsensusKey vote.signature = true)
      (fits : Engine.storeTimeoutVote { vote with signerId := voterId } engine.timeoutVotes =
        some stored) :
      Move env inputs grants engine { engine with timeoutVotes := stored }
  | newRound (engine : Engine) (round timeouts : Nat) (undecided : engine.Undecided)
      (notCommitted : engine.step ≠ .commit) (advances : grants.advance engine.round round)
      (counted : timeouts = engine.consecutiveTimeouts ∨ timeouts = round - 1) :
      Move env inputs grants engine
        ((engine.setTimeouts timeouts).beginRound env round)
  | prevote (engine : Engine) (step : engine.step = .propose) :
      Move env inputs grants engine (engine.castPrevote env).1
  | precommit (engine : Engine) (step : engine.step = .prevote)
      (reason : (engine.quorumValue env false).isSome = true ∨ grants.fallback engine) :
      Move env inputs grants engine (engine.castPrecommit env).1
  | record (engine : Engine) (vote : Vote) (isPrecommit : Bool)
      (source : (grants.delivered isPrecommit vote ∧ engine.voteReady vote = true) ∨
        engine.signedVotes.find? (engine.height, engine.round, isPrecommit) = some vote) :
      Move env inputs grants engine (engine.tallyVote env vote isPrecommit).1
  | recordPast (engine : Engine) (vote : Vote) (source : grants.delivered true vote)
      (height : vote.height = engine.height) (past : vote.round < engine.round)
      (ready : engine.voteReady vote = true)
      (signer : engine.resolveVoteSigner env vote ≠ INVALID_ID)
      (verified : engine.verifyVoteSignature env vote (engine.resolveVoteSigner env vote) = true) :
      Move env inputs grants engine (engine.tallyPast env vote).1
  | valid (engine : Engine) (polka : Hash) (quorum : engine.quorumValue env false = some polka)
      (step : engine.step ≠ .prevote) :
      Move env inputs grants engine (engine.noteValid polka)
  | commit (engine : Engine) (round : Nat) (block : Block) (undecided : engine.Undecided)
      (quorum : engine.blockToCommit env round = some block) :
      Move env inputs grants engine (engine.startCommit block)
  | apply (engine : Engine) :
      Move env inputs grants engine (engine.tryApplyCommit env inputs)
  | accept (engine : Engine) (proposal : Proposal) (block : Block)
      (source : grants.proposed proposal) (height : proposal.height = engine.height) (round : proposal.round = engine.round)
      (first : engine.proposal = none)
      (acceptable : engine.acceptableBlock env inputs proposal = some block) :
      Move env inputs grants engine (engine.storeProposal proposal block)
  | own (engine : Engine) (proposal : Proposal) (block : Block) (step : engine.step = .propose)
      (first : engine.proposal = none)
      (unsigned : engine.signedVotes.contains (engine.height, engine.round, false) = false)
      (made : engine.makeProposal env inputs = some (proposal, block)) :
      Move env inputs grants engine (engine.storeOwnProposal proposal block)

/-- A change of height: `base` is the engine after the code cleared what belongs to the old
height, and the new height is opened and its first round begun. -/
structure NewHeight (env : Env) (event : Event) (engine : Engine) (height : Nat)
    (opened : Engine) : Prop where
  reason : (event = .start height ∧ engine.running = false) ∨
    engine.pendingHeight = some height ∨ engine.stateHeight < height
  base : ∃ base : Engine, base.Undecided ∧ base.outputs = engine.outputs ∧
    base.mailbox = engine.mailbox ∧ base.equivocations = engine.equivocations ∧
    (∀ entry ∈ base.walVotes.entries, entry ∈ engine.walVotes.entries) ∧
    (∀ entry ∈ base.walLocks.entries, entry ∈ engine.walLocks.entries) ∧
    (∀ entry ∈ engine.walVotes.entries, height ≤ entry.1.1 → entry ∈ base.walVotes.entries) ∧
    opened = (base.openHeight env height).1.beginRound env (base.openHeight env height).2

/-! ## What a move changes -/

/-- Messages of others that are passed on, and timeouts: no vote, proposal or block of the node. -/
def Output.isNotice : Output → Bool
  | .broadcastVote _ _ | .signedTimeoutVote _ | .broadcastTimeoutVote _ => true
  | _ => false

theorem Output.ne_of_isNotice {output other : Output} (notice : output.isNotice = true)
    (act : other.isNotice = false) : output ≠ other := by
  rintro rfl
  rw [notice] at act
  cases act

/-- The moves with their calls unfolded. Those that keep the books of the node, its buffers, flags
and timeouts, are one case. -/
inductive Change (env : Env) (inputs : Inputs) (grants : Grants) (engine : Engine) : Engine → Prop
  | books (mailbox : Mailbox) (running timerRunning : Bool) (externalNextHeight : Nat)
      (timeoutVotes : List TimeoutVote) (sent : List Output)
      (notices : ∀ output ∈ sent, output.isNotice = true) :
      Change env inputs grants engine
        { engine with
          mailbox := mailbox
          running := running
          timerRunning := timerRunning
          externalNextHeight := externalNextHeight
          timeoutVotes := timeoutVotes
          outputs := engine.outputs ++ sent }
  | record {prevotes precommits : VoteMap} {equivocations : List EquivocationEvidence} (vote : Vote)
      (isPrecommit : Bool)
      (source : (grants.delivered isPrecommit vote ∧ engine.voteReady vote = true) ∨
        engine.signedVotes.find? (engine.height, engine.round, isPrecommit) = some vote)
      (tally : (engine.tallyVote env vote isPrecommit).1 =
        { engine with
          prevotes := prevotes, precommits := precommits, equivocations := equivocations }) :
      Change env inputs grants engine
        { engine with
          prevotes := prevotes, precommits := precommits, equivocations := equivocations }
  | recordPast {pastPrecommits : Table Nat VoteMap} {equivocations : List EquivocationEvidence}
      (vote : Vote) (source : grants.delivered true vote) (height : vote.height = engine.height)
      (past : vote.round < engine.round) (ready : engine.voteReady vote = true)
      (signer : engine.resolveVoteSigner env vote ≠ INVALID_ID)
      (verified : engine.verifyVoteSignature env vote (engine.resolveVoteSigner env vote) = true)
      (tally : (engine.tallyPast env vote).1 =
        { engine with pastPrecommits := pastPrecommits, equivocations := equivocations }) :
      Change env inputs grants engine
        { engine with pastPrecommits := pastPrecommits, equivocations := equivocations }
  | newRound (round timeouts : Nat) (undecided : engine.Undecided)
      (advances : grants.advance engine.round round)
      (counted : timeouts = engine.consecutiveTimeouts ∨ timeouts = round - 1) :
      Change env inputs grants engine ((engine.setTimeouts timeouts).beginRound env round)
  | prevote {walVotes : Table (Nat × Nat × Nat) (Vote × Bool)} {signedVotes : Table SignedKey Vote}
      {sent : List Output} (step : engine.step = .propose)
      (votes : ∀ output ∈ sent, ∃ vote, output = .signedVote vote false)
      (cast : (engine.castPrevote env).1 = engine.voted .prevote walVotes signedVotes sent) :
      Change env inputs grants engine (engine.voted .prevote walVotes signedVotes sent)
  | precommit {walVotes : Table (Nat × Nat × Nat) (Vote × Bool)}
      {signedVotes : Table SignedKey Vote} {sent : List Output} (step : engine.step = .prevote)
      (noPolka : engine.quorumValue env false = none) (fallback : grants.fallback engine)
      (votes : ∀ output ∈ sent, ∃ vote, output = .signedVote vote true)
      (cast : (engine.castPrecommit env).1 = engine.voted .precommit walVotes signedVotes sent) :
      Change env inputs grants engine (engine.voted .precommit walVotes signedVotes sent)
  | lock {walVotes : Table (Nat × Nat × Nat) (Vote × Bool)} {signedVotes : Table SignedKey Vote}
      {sent : List Output} (polka : Hash) (step : engine.step = .prevote)
      (quorum : engine.quorumValue env false = some polka)
      (votes : ∀ output ∈ sent, ∃ vote, output = .signedVote vote true)
      (cast : (engine.castPrecommit env).1 =
        (engine.lockOn polka).voted .precommit walVotes signedVotes sent) :
      Change env inputs grants engine
        ((engine.lockOn polka).voted .precommit walVotes signedVotes sent)
  | valid (polka : Hash) (quorum : engine.quorumValue env false = some polka)
      (notPrevote : engine.step ≠ .prevote) (notPropose : engine.step ≠ .propose)
      (newer : engine.validSet = false ∨ engine.validRound < engine.round) :
      Change env inputs grants engine
        { engine with validSet := true, validHash := polka, validRound := engine.round }
  | commit (round : Nat) (block : Block) (undecided : engine.Undecided)
      (quorum : engine.blockToCommit env round = some block) :
      Change env inputs grants engine (engine.startCommit block)
  | applied (block : Block) (decided : engine.commitBlock = some block)
      (accepted : inputs.onBlockCommitted block = true) :
      Change env inputs grants engine (engine.commitApplied inputs block)
  | rejected (block : Block) (commitBlock : Option Block) (running halted timerRunning : Bool)
      (attempts next : Nat) (extra : List Output) (decided : engine.commitBlock = some block)
      (outcome : (commitBlock = none ∧ running = false) ∨ commitBlock = some block)
      (halts : ∀ output ∈ extra, output = .consensusHalt) :
      Change env inputs grants engine
        { engine with
          outputs := engine.outputs ++ .blockCommitted block false :: extra
          commitBlock := commitBlock
          running := running
          halted := halted
          timerRunning := timerRunning
          commitAttempts := attempts
          nextCommitAttemptMs := next }
  | accept (proposal : Proposal) (block : Block) (source : grants.proposed proposal)
      (height : proposal.height = engine.height) (round : proposal.round = engine.round)
      (first : engine.proposal = none)
      (acceptable : engine.acceptableBlock env inputs proposal = some block) :
      Change env inputs grants engine (engine.storeProposal proposal block)
  | own (proposal : Proposal) (block : Block) (step : engine.step = .propose)
      (first : engine.proposal = none)
      (unsigned : engine.signedVotes.contains (engine.height, engine.round, false) = false)
      (made : engine.makeProposal env inputs = some (proposal, block)) :
      Change env inputs grants engine (engine.storeOwnProposal proposal block)

/-- Books kept without a message. -/
theorem Change.kept {env : Env} {inputs : Inputs} {grants : Grants} (engine : Engine)
    (mailbox : Mailbox) (running timerRunning : Bool) (externalNextHeight : Nat)
    (timeoutVotes : List TimeoutVote) :
    Change env inputs grants engine
      { engine with
        mailbox := mailbox
        running := running
        timerRunning := timerRunning
        externalNextHeight := externalNextHeight
        timeoutVotes := timeoutVotes } := by
  have silent := @Change.books env inputs grants engine mailbox running timerRunning
    externalNextHeight timeoutVotes [] (by simp)
  rw [List.append_nil] at silent
  exact silent

theorem Move.change {env : Env} {inputs : Inputs} {grants : Grants} {before after : Engine}
    (move : Move env inputs grants before after) : Change env inputs grants before after := by
  cases move with
  | mailbox => exact .kept before ..
  | control => exact .kept before ..
  | peerTimeout => exact .kept before ..
  | sent vote isPrecommit => exact .books _ _ _ _ _ [_] (by simp [Output.isNotice])
  | ownTimeout =>
    obtain ⟨stored, extra, result, timeouts⟩ :=
      Engine.broadcastTimeoutVote_cases env before.round before
    rw [result]
    refine .books _ _ _ _ _ extra fun output member => ?_
    obtain ⟨vote, isSigned | isSent⟩ := timeouts output member
    · rw [isSigned]
      rfl
    · rw [isSent]
      rfl
  | record vote isPrecommit source =>
    obtain ⟨_, _, _, tally⟩ := Engine.tallyVote_frame env vote isPrecommit before
    exact tally ▸ .record vote isPrecommit source tally
  | recordPast vote source height past ready signer verified =>
    obtain ⟨_, _, tally⟩ := Engine.tallyPast_frame env vote before
    exact tally ▸ .recordPast vote source height past ready signer verified tally
  | newRound round timeouts undecided _ advances counted =>
    exact .newRound round timeouts undecided advances counted
  | prevote step =>
    obtain ⟨_, _, _, votes, cast⟩ := Engine.castPrevote_frame env before
    exact cast ▸ .prevote step votes cast
  | precommit step reason =>
    obtain ⟨_, _, _, votes, ⟨noPolka, cast⟩ | ⟨polka, quorum, cast⟩⟩ :=
      Engine.castPrecommit_frame env before
    · have fallback := reason.resolve_left (by simp [noPolka])
      exact cast ▸ .precommit step noPolka fallback votes cast
    · exact cast ▸ .lock polka step quorum votes cast
  | valid polka quorum step =>
    rcases Engine.noteValid_cases polka before with same | ⟨newer, notPropose, noted⟩
    · rw [same]
      exact .kept before ..
    · rw [noted]
      exact .valid polka quorum step notPropose newer
  | commit round block undecided quorum => exact .commit round block undecided quorum
  | apply =>
    rcases Engine.tryApplyCommit_cases env inputs before with
      same | ⟨block, decided, accepted, applied⟩ |
        ⟨block, _, _, _, _, _, _, extra, decided, _, outcome, halts, rejected⟩
    · rw [same]
      exact .kept before ..
    · rw [applied]
      exact .applied block decided accepted
    · rw [rejected]
      exact .rejected block _ _ _ _ _ _ extra decided outcome halts
  | accept proposal block source height round first acceptable =>
    exact .accept proposal block source height round first acceptable
  | own proposal block step first unsigned made =>
    exact .own proposal block step first unsigned made

/-! ## Where blocks come from -/

namespace Engine

variable {env : Env} {inputs : Inputs} {grants : Grants} {before after : Engine} {block : Block}

/-- A block is handed on only if it was decided. -/
theorem move_committed (move : Move env inputs grants before after)
    (committed : after.Committed block) :
    before.Committed block ∨ before.commitBlock = some block := by
  obtain ⟨applied, output⟩ := committed
  have split {sent : List Output} (member : .blockCommitted block applied ∈ before.outputs ++ sent)
      (decided : .blockCommitted block applied ∈ sent → before.commitBlock = some block) :
      before.Committed block ∨ before.commitBlock = some block :=
    (List.mem_append.mp member).imp (fun old => ⟨applied, old⟩) decided
  cases move.change with
  | prevote _ votes =>
    refine split output fun inSent => ?_
    obtain ⟨_, isVote⟩ := votes _ inSent
    cases isVote
  | precommit _ _ _ votes =>
    refine split output fun inSent => ?_
    obtain ⟨_, isVote⟩ := votes _ inSent
    cases isVote
  | lock _ _ _ votes =>
    refine split output fun inSent => ?_
    obtain ⟨_, isVote⟩ := votes _ inSent
    cases isVote
  | books _ _ _ _ _ sent notices =>
    exact split output fun inSent => absurd (notices _ inSent) (by simp [Output.isNotice])
  | own proposal =>
    have sent : .blockCommitted block applied ∈ before.outputs ++
        [.signedProposal proposal, .broadcastProposal proposal] := by
      simpa [storeOwnProposal, storeProposal, emit] using output
    exact split sent (by simp)
  | applied _ decided =>
    refine split output fun inSent => ?_
    simp only [List.mem_cons, Output.blockCommitted.injEq, reduceCtorEq, List.not_mem_nil,
      or_false] at inSent
    exact inSent.1 ▸ decided
  | rejected _ _ _ _ _ _ _ _ decided _ halts =>
    refine split output fun inSent => ?_
    rcases List.mem_cons.mp inSent with isBlock | isHalt
    · cases isBlock
      exact decided
    · cases halts _ isHalt
  | _ => exact Or.inl ⟨applied, output⟩

/-- A block is decided only by a quorum of precommits. -/
theorem decided_of_move (move : Move env inputs grants before after)
    (decided : after.commitBlock = some block) : before.commitBlock = some block ∨
      ∃ round, before.Undecided ∧ before.blockToCommit env round = some block := by
  cases move.change with
  | commit round other undecided quorum =>
    cases decided
    exact Or.inr ⟨round, undecided, quorum⟩
  | applied => cases decided
  | rejected _ _ _ _ _ _ _ _ wasDecided outcome =>
    rcases outcome with ⟨none, _⟩ | same
    · cases none.symm.trans decided
    · cases same.symm.trans decided
      exact Or.inl wasDecided
  | _ => exact Or.inl decided

/-- A block is held only if it was accepted or proposed. -/
theorem held_of_move {entry : Hash × Block} (move : Move env inputs grants before after)
    (member : entry ∈ after.proposalsByHash.entries) :
    entry ∈ before.proposalsByHash.entries ∨ ∃ proposal, entry.1 = proposal.blockHash ∧
      ((grants.proposed proposal ∧ proposal.height = before.height ∧
        before.acceptableBlock env inputs proposal = some entry.2) ∨
      before.makeProposal env inputs = some (proposal, entry.2)) := by
  cases move.change with
  | accept proposal block source height round first acceptable =>
    rcases Table.mem_put member with ⟨old, _⟩ | isNew
    · exact Or.inl old
    · rw [isNew]
      exact Or.inr ⟨proposal, rfl, Or.inl ⟨source, height, acceptable⟩⟩
  | own proposal block step first unsigned made =>
    rcases Table.mem_put member with ⟨old, _⟩ | isNew
    · exact Or.inl old
    · rw [isNew]
      exact Or.inr ⟨proposal, rfl, Or.inr made⟩
  | _ => exact Or.inl member

end Engine

end Clarity.Consensus
