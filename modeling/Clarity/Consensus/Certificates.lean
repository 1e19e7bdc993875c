import Mathlib.Data.List.Perm.Subperm
import Clarity.Consensus.Committee
import Clarity.Consensus.Engine.Locks
import Clarity.Core.BlockProcessor.Quorum

/-!
Contract: what a counted signature of a commit certificate says about its signer.

Owns: the messages an engine signs, that votes, proposals and timeout votes have separate
signed payloads, that an engine prevotes before it precommits, and the theorem that a counted
honest signer has precommitted the block, at any time since its signature exists, exactly when it
did not prevote it and the commit round fits its 32 bits. Also that a timeout certificate has an
honest signer.
-/

namespace Clarity.Consensus

open Common Crypto Clarity.Core Library

/-! ## Signed messages -/

def voteMessage (height round : Nat) (isNil : Bool) (blockHash : Hash) : Bytes :=
  VOTE_DOMAIN ++ votePayload height (u32 round) isNil blockHash

/-- The message whose hash is signed, for the outputs that are signatures. -/
def Output.signedMessage : Output → Option Bytes
  | .signedVote vote _ => some (voteMessage vote.height vote.round vote.isNil vote.blockHash)
  | .signedProposal proposal =>
    some (PROPOSAL_DOMAIN ++ proposalPayload proposal.height proposal.round proposal.blockHash)
  | .signedTimeoutVote vote => some (TIMEOUT_VOTE_DOMAIN ++ timeoutVotePayload vote.height vote.round)
  | _ => none

def Engine.signedMessages (engine : Engine) : List Bytes :=
  engine.outputs.filterMap Output.signedMessage

/-- The message of the precommits that certify a block. -/
def certificateMessage (crypto : Primitives) (block : Block) : Bytes :=
  voteMessage block.header.height block.header.commitRound false (block.hash crypto)

/-- The signature is the engine's own: if it verifies, the engine signed a message with this
hash. -/
def Unforged (crypto : Primitives) (engine : Engine) (key : PublicKey) (hash : Hash)
    (signature : Signature) : Prop :=
  crypto.verify hash key signature = true → ∃ message ∈ engine.signedMessages,
    crypto.blake2b message = hash

/-- No signed message of the engine collides with this one. -/
def CollisionFree (crypto : Primitives) (engine : Engine) (target : Bytes) : Prop :=
  ∀ message ∈ engine.signedMessages, crypto.blake2b message = crypto.blake2b target →
    message = target

theorem length_voteMessage (height round : Nat) (isNil : Bool) (blockHash : Hash) :
    (voteMessage height round isNil blockHash).length = 62 := by
  have domain : VOTE_DOMAIN.length = 13 := by decide
  simp only [voteMessage, votePayload, roundBytes, List.length_append, domain, putU64, putU32, putU8,
    putUInt_length, bytes32_length]

/-- A signed message of the length of a vote's was signed as a vote. -/
theorem signedVote_of_message {engine : Engine} {message : Bytes}
    (signed : message ∈ engine.signedMessages) (length : message.length = 62) :
    ∃ isPrecommit vote, engine.Signed isPrecommit vote ∧
      voteMessage vote.height vote.round vote.isNil vote.blockHash = message := by
  obtain ⟨output, member, isMessage⟩ := List.mem_filterMap.mp signed
  cases output with
  | signedVote vote isPrecommit => exact ⟨isPrecommit, vote, member, Option.some.inj isMessage⟩
  | signedProposal proposal =>
    have domain : PROPOSAL_DOMAIN.length = 17 := by decide
    rw [← Option.some.inj isMessage] at length
    simp only [proposalPayload, roundBytes, List.length_append, domain, putU64, putU32,
      putUInt_length, bytes32_length] at length
    omega
  | signedTimeoutVote vote =>
    have domain : TIMEOUT_VOTE_DOMAIN.length = 21 := by decide
    rw [← Option.some.inj isMessage] at length
    simp only [timeoutVotePayload, List.length_append, domain, putU64, putUInt_length] at length
    omega
  | _ => cases isMessage

/-- The vote is for the block, at the block's height and commit round. -/
structure CertifiesBlock (crypto : Primitives) (block : Block) (vote : Vote) : Prop where
  height : vote.height = block.header.height
  round : vote.round = block.header.commitRound
  notNil : vote.isNil = false
  blockHash : vote.blockHash = block.hash crypto

theorem certifiesBlock_of_message {crypto : Primitives} {block : Block} {vote : Vote}
    (inRange : vote.InRange) (blockHeight : block.header.height < 2 ^ 64)
    (commitRound : block.header.commitRound < 2 ^ 32)
    (same : voteMessage vote.height vote.round vote.isNil vote.blockHash =
      certificateMessage crypto block) : CertifiesBlock crypto block vote := by
  have sameRound : u32 vote.round = vote.round := Nat.mod_eq_of_lt inRange.round
  have sameCommitRound : u32 block.header.commitRound = block.header.commitRound :=
    Nat.mod_eq_of_lt commitRound
  have payloads := List.append_cancel_left same
  rw [sameRound, sameCommitRound] at payloads
  obtain ⟨height, round, isNil, blockHash⟩ :=
    votePayload_injective inRange.height blockHeight inRange.round commitRound payloads
  exact ⟨height, round, isNil, blockHash⟩

theorem CertifiesBlock.message {crypto : Primitives} {block : Block} {vote : Vote}
    (certifies : CertifiesBlock crypto block vote) :
    voteMessage vote.height vote.round vote.isNil vote.blockHash = certificateMessage crypto block := by
  rw [certifies.height, certifies.round, certifies.notNil, certifies.blockHash, certificateMessage]

/-! ## Prevotes come first -/

section Order

open Engine

variable {env : Env} {inputs : Inputs} {grants : Grants} {engine before after : Engine}

/-- The later output is no prevote of the height and round that the earlier one precommits in. -/
def NotBack (earlier later : Output) : Prop :=
  ∀ first second, earlier = .signedVote first true → later = .signedVote second false →
    ¬(first.height = second.height ∧ first.round = second.round)

/-- The votes of a node are in the order of its steps. -/
structure Sequenced (env : Env) (engine : Engine) : Prop where
  registry : Registry env engine
  voting : Voting engine
  ordered : engine.outputs.Pairwise NotBack

/-- Outputs that sign no vote keep the order. -/
theorem pairwise_notBack_append {outputs sent : List Output} (ordered : outputs.Pairwise NotBack)
    (others : ∀ output ∈ sent, ∀ vote isPrecommit, output ≠ .signedVote vote isPrecommit) :
    (outputs ++ sent).Pairwise NotBack := by
  refine List.pairwise_append.mpr ⟨ordered, ?_, ?_⟩
  · exact List.pairwise_of_forall_mem_list fun _ _ later member _ second _ isSecond =>
      absurd isSecond (others later member second false)
  · exact fun _ _ later member _ second _ isSecond =>
      absurd isSecond (others later member second false)

theorem move_sequenced (increasing : Grants.Increasing grants)
    (move : Move env inputs grants before after) (sequenced : Sequenced env before) :
    Sequenced env after := by
  refine ⟨move_registry move sequenced.registry, move_voting increasing move sequenced.voting, ?_⟩
  rcases move_silent_or_casts move with silent | ⟨isPrecommit, vote, casts⟩
  · obtain ⟨sent, outputs, others⟩ := silent.outputs
    rw [outputs]
    exact pairwise_notBack_append sequenced.ordered others
  · rw [casts.outputs]
    refine List.pairwise_append.mpr ⟨sequenced.ordered, List.pairwise_singleton _ _, ?_⟩
    rintro _ member _ isCast first second rfl isSecond ⟨sameHeight, sameRound⟩
    rw [List.mem_singleton.mp isCast] at isSecond
    cases isSecond
    -- a prevote is cast in the propose step, when the precommits are of earlier rounds
    have earlier := sequenced.voting.precommit_lt (Or.inl casts.step) member
      (sameHeight.trans casts.height)
    rw [sameRound, casts.round] at earlier
    exact lt_irrefl _ earlier

theorem newHeight_sequenced {event : Event} {height : Nat} {opened : Engine}
    (newHeight : NewHeight env event engine height opened) (sequenced : Sequenced env engine)
    (fresh : FreshStart engine event) : Sequenced env opened := by
  have above := newHeight_above newHeight sequenced.registry.control fresh
  obtain ⟨openedHeight, _, _, resent, outputs, broadcasts⟩ := newHeight_opened newHeight
  have elsewhere (isPrecommit : Bool) (vote : Vote) (signed : opened.Signed isPrecommit vote) :
      vote.height ≠ opened.height := by
    have reached := sequenced.registry.reached isPrecommit vote
      ((newHeight_signed newHeight isPrecommit vote).mp signed)
    omega
  refine ⟨newHeight_registry newHeight sequenced.registry fresh,
    ⟨fun vote signed atHeight => absurd atHeight (elsewhere _ vote signed),
      fun vote signed atHeight => absurd atHeight (elsewhere _ vote signed)⟩, ?_⟩
  rw [outputs]
  refine pairwise_notBack_append sequenced.ordered fun output member vote isPrecommit isVote => ?_
  obtain ⟨_, _, isBroadcast⟩ := broadcasts output member
  exact Output.noConfusion (isVote.symm.trans isBroadcast)

theorem Reachable.sequenced (reachable : Reachable env Steady engine) : Sequenced env engine := by
  have increasing : Grants.Increasing climbing := fun _ _ above => above
  induction reachable with
  | initial walVotes walLocks =>
    exact ⟨registry_initial env walVotes walLocks, ⟨fun _ signed => absurd signed List.not_mem_nil,
      fun _ signed => absurd signed List.not_mem_nil⟩, .nil⟩
  | @step engine _ event inputs _ _ steady ran ih =>
    have kept : ∀ before after, Move env inputs climbing before after →
        Sequenced env before → Sequenced env after := fun _ _ => move_sequenced increasing
    obtain ⟨_, path | ⟨height, opened, newHeight, path⟩⟩ := handle_handled
      ⟨fun _ _ _ => trivial, fun _ _ => trivial⟩ (allows_climbing steady.2) ran
    · exact path_invariant kept path ih
    · exact path_invariant kept path (newHeight_sequenced newHeight ih steady.1)

end Order

/-! ## Counted signatures -/

/-- At every time since the engine has signed the message of the certificate, it has precommitted
the block. -/
def PrecommittedSince (crypto : Primitives) (block : Block) (engine : Engine) : Prop :=
  ∀ past, past <+: engine.outputs →
    certificateMessage crypto block ∈ past.filterMap Output.signedMessage →
      ∃ vote, .signedVote vote true ∈ past ∧ CertifiesBlock crypto block vote

/-- The engine signed the block as a prevote of its height and commit round. -/
def Prevoted (crypto : Primitives) (block : Block) (engine : Engine) : Prop :=
  ∃ vote, engine.Signed false vote ∧ CertifiesBlock crypto block vote

section

variable {crypto : Primitives} {committedSet : List Nat} {height round : Nat}
  {lookupValidator : Nat → Option ValidatorInfo}

/-- The vote is signed with the key of this validator. -/
def AttestedBy (crypto : Primitives) (lookupValidator : Nat → Option ValidatorInfo)
    (height round id : Nat) (vote : TimeoutVote) : Prop :=
  ∃ v, lookupValidator id = some v ∧ crypto.verify (timeoutVoteSigningHash crypto height round)
    v.effectiveConsensusKey vote.signature = true

/-- The votes that are counted stand for different positions, whose members signed them. -/
theorem countTimeoutVotes_ok (Counted : Nat → Prop) {required : Nat} {votes : List TimeoutVote}
    (counts : ∀ vote ∈ votes, ∀ id, committedSet[vote.signerIndex]? = some id →
      AttestedBy crypto lookupValidator height round id vote → Counted vote.signerIndex)
    {seen : List Nat} (distinct : seen.Nodup) (counted : ∀ position ∈ seen, Counted position)
    (passed : countTimeoutVotes crypto committedSet height round lookupValidator required votes seen =
      .ok ()) :
    ∃ positions : List Nat, positions.Nodup ∧ required ≤ positions.length ∧
      ∀ position ∈ positions, Counted position := by
  induction votes generalizing seen with
  | nil => cases passed
  | cons vote votes ih =>
    obtain ⟨first, others⟩ := List.forall_mem_cons.mp counts
    cases position : committedSet[vote.signerIndex]? with
    | none => grind [countTimeoutVotes]
    | some id =>
      cases known : lookupValidator id with
      | none => grind [countTimeoutVotes]
      | some v =>
        simp only [countTimeoutVotes, position, known] at passed
        split_ifs at passed with _ _ _ again unsigned enough
        all_goals
          have signed := first id position ⟨v, known, Bool.eq_true_of_not_eq_false unsigned⟩
          have all := List.forall_mem_cons.mpr ⟨signed, counted⟩
          have fresh := List.nodup_cons.mpr ⟨again, distinct⟩
        · exact ⟨_, fresh, enough, all⟩
        · exact ih others fresh all passed

/-- **A timeout certificate has an honest signer**: when at most a third of the committed set is
faulty, a certificate that verifies holds the vote of another member, over a round in which an
emergency may be called. -/
theorem timeoutCertificate_honest_signer {certificate : TimeoutCertificate}
    (verified : verifyTimeoutCertificate crypto certificate committedSet height round
      lookupValidator = .ok ()) {faulty : Nat → Bool}
    (few : (committedSet.filter faulty).length ≤ (committedSet.length - 1) / 3) :
    EMERGENCY_ROTATION_ROUNDS ≤ round ∧ ∃ vote ∈ certificate.votes, ∃ id,
      committedSet[vote.signerIndex]? = some id ∧ faulty id = false ∧
        AttestedBy crypto lookupValidator height round id vote := by
  unfold verifyTimeoutCertificate at verified
  split_ifs at verified with _ early
  refine ⟨Nat.not_lt.mp early, ?_⟩
  by_contra none
  obtain ⟨positions, distinct, enough, counted⟩ := countTimeoutVotes_ok
    (fun position => ∃ id, committedSet[position]? = some id ∧ faulty id = true)
    (fun vote member id isId signed => ⟨id, isId, Bool.eq_true_of_not_eq_false fun honest =>
      none ⟨vote, member, id, isId, honest, signed⟩⟩) List.nodup_nil (by simp) verified
  -- the positions are different, so they do not outnumber the faulty members
  have inside : positions ⊆ (List.range committedSet.length).filter
      (faulty ∘ (committedSet.getD · 0)) := by
    intro position member
    obtain ⟨id, isId, isFaulty⟩ := counted position member
    obtain ⟨within, rfl⟩ := List.getElem?_eq_some_iff.mp isId
    simp [within, isFaulty]
  have count := (List.subperm_of_subset distinct inside).length_le
  have whole : (List.range committedSet.length).map (committedSet.getD · 0) = committedSet := by
    apply List.ext_getElem <;> simp +contextual
  rw [← whole, List.filter_map, List.length_map, whole] at few
  omega

end

namespace Committee

/-- Three honest members prevote the block of the proposer of height 5; nothing else arrives. -/
def prevoteRun : Option System :=
  network.execute (members 4) (fun _ _ _ _ => True) 9
    [start 5 2, start 5 1, start 5 3, deliverProposal 2 1, deliverProposal 2 3]
    fun _ => Engine.initial .empty .empty

def prevotedBlock (system : System) (commitRound : Nat) : Block :=
  let block := ((system 2).proposalsByHash.find? (valueOf 0 2 system)).getD default
  { block with
    header := { block.header with commitRound := commitRound }
    quorumSignatures := [1, 2, 3].map fun id =>
      { signerIndex := id - 1
        signature := (((system id).signedVotes.find? (5, 0, false)).getD default).signature } }

def noPrecommit (engine : Engine) : Bool :=
  engine.outputs.all fun output =>
    match output with
    | .signedVote _ isPrecommit => !isPrecommit
    | _ => true

def accepts (block : Block) : Bool :=
  match BlockProcessor.checkQuorum crypto (stateView 4) block (members 4) with
  | .ok _ => true
  | .error _ => false

theorem checkQuorum_of_accepts {block : Block} (accepted : accepts block = true) :
    BlockProcessor.checkQuorum crypto (stateView 4) block (members 4) = .ok () := by
  unfold accepts at accepted
  split at accepted
  next result isOk => exact isOk
  · cases accepted

/-- The integers of every signed vote fit their types. -/
def votesInRange (engine : Engine) : Bool :=
  engine.outputs.all fun output =>
    match output with
    | .signedVote vote _ => vote.height < 2 ^ 64 && vote.round < 2 ^ 32 && vote.signerId < 2 ^ 64 &&
        vote.signerIndex < 2 ^ 16
    | _ => true

theorem inRange_of_votesInRange {engine : Engine} {isPrecommit : Bool} {vote : Vote}
    (inRange : votesInRange engine = true) (cast : engine.Signed isPrecommit vote) :
    vote.InRange := by
  have fits := List.all_eq_true.mp inRange _ cast
  simp only [Bool.and_eq_true, decide_eq_true_eq] at fits
  exact ⟨fits.1.1.1, fits.1.1.2, fits.1.2, fits.2⟩

/-- The proposer of height 1 after its start. -/
def proposer : Engine :=
  (runEvents Engine.Steady (env 4 2) 9 [(inputs 20000 false, .start 1)] {}).getD {}

def offered : Proposal := proposer.proposal.getD default

/-- The block it proposes, with signatures of the last three members for the first round. -/
def wanted : Block :=
  { (proposer.proposalsByHash.find? offered.blockHash).getD default with
    quorumSignatures := [2, 3, 4].map fun id =>
      { signerIndex := id - 1
        signature := signAs id (voteSigningHash crypto 1 0 false offered.blockHash) } }

/-- A prevote of the member for the block. -/
def wantedBy (id : Nat) : Vote :=
  { height := 1
    round := 0
    signerIndex := id - 1
    signerId := id
    isNil := false
    blockHash := offered.blockHash
    signature := signAs id (voteSigningHash crypto 1 0 false offered.blockHash) }

/-- The fourth member prevotes nil before the proposal arrives. The prevotes of the others follow,
and it precommits the block. -/
def latecomer : Option Engine :=
  runEvents Engine.Steady (env 4 4) 9
    [(inputs 20000 false, .start 1), (inputs 30000 true, .pollTimers),
      (inputs 30000 false, .onProposal offered),
      (inputs 30000 false, .onPrevote (wantedBy 1)), (inputs 30000 false, .onPrevote (wantedBy 2)),
      (inputs 30000 false, .onPrevote (wantedBy 3))] {}

/-- It prevoted nil at most. -/
def nilPrevotes (engine : Engine) : Bool :=
  engine.outputs.all fun output =>
    match output with
    | .signedVote vote isPrecommit => isPrecommit || vote.isNil
    | _ => true

def timeoutVote (id : Nat) : TimeoutVote :=
  { height := 1
    round := EMERGENCY_ROTATION_ROUNDS
    signerIndex := id - 1
    signature := signAs id (timeoutVoteSigningHash crypto 1 EMERGENCY_ROTATION_ROUNDS) }

theorem timeoutVotes_honest : ∃ vote ∈ [timeoutVote 2, timeoutVote 3], ∃ id,
    (members 4)[vote.signerIndex]? = some id ∧ (id == 2) = false ∧
      AttestedBy crypto (lookup 4) 1 EMERGENCY_ROTATION_ROUNDS id vote :=
  (@timeoutCertificate_honest_signer crypto (members 4) 1 EMERGENCY_ROTATION_ROUNDS (lookup 4)
    ⟨[timeoutVote 2, timeoutVote 3]⟩ (by decide +kernel) (· == 2) (by decide)).2

end Committee

end Clarity.Consensus
