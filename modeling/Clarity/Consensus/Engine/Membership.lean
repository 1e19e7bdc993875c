import Clarity.Library.Quorum
import Clarity.Consensus.Engine.Blocks

/-!
Contract: who is counted below the emergency rounds, and what a counted quorum stands for.

Owns: that every vote counted for a block is counted for a member of the committed set,
that the registry holds the node's own signed votes for blocks it holds, and `Supported`,
what a quorum in a container says about the validators behind it.
-/

namespace Clarity.Consensus

open Common Crypto Clarity.Core Library Relation

def Env.committed (env : Env) (height : Nat) : List Nat := (env.view height).activeSet false

/-- A quorum of the committed set of a height has votes of one round for one value: each was
delivered and verified, or is the node's own. -/
def Supported (env : Env) (grants : Grants) (own : Bool → Vote → Prop) (isPrecommit : Bool)
    (height round : Nat) (hash : Hash) : Prop :=
  ∃ voters, IsQuorum (env.committed height) (bftQuorum (env.committed height).length) voters ∧
    ∀ id ∈ voters, ∃ vote : Vote, vote.height = height ∧ vote.round = round ∧ vote.isNil = false ∧
      vote.blockHash = hash ∧
      ((grants.delivered isPrecommit vote ∧ (env.view height).Accepts env.crypto id vote) ∨
        (own isPrecommit vote ∧ id = (env.view height).myValidatorId))

theorem Supported.mono {env : Env} {grants more : Grants} {own larger : Bool → Vote → Prop}
    {isPrecommit : Bool} {height round : Nat} {hash : Hash}
    (supported : Supported env grants own isPrecommit height round hash)
    (delivered : ∀ isPrecommit vote, grants.delivered isPrecommit vote →
      more.delivered isPrecommit vote)
    (grows : ∀ isPrecommit vote, own isPrecommit vote → larger isPrecommit vote) :
    Supported env more larger isPrecommit height round hash := by
  obtain ⟨voters, quorum, backed⟩ := supported
  refine ⟨voters, quorum, ?_⟩
  intro id member
  obtain ⟨vote, atHeight, inRound, notNil, forHash, source⟩ := backed id member
  refine ⟨vote, atHeight, inRound, notNil, forHash, ?_⟩
  rcases source with ⟨wasDelivered, accepted⟩ | ⟨isOwn, isMe⟩
  · exact Or.inl ⟨delivered _ _ wasDelivered, accepted⟩
  · exact Or.inr ⟨grows _ _ isOwn, isMe⟩

namespace Engine

variable {env : Env} {inputs : Inputs} {grants : Grants} {engine before after : Engine}
  {hash : Hash} {vote : Vote} {isPrecommit : Bool}

structure Membership (env : Env) (engine : Engine) : Prop where
  signed : ∀ key vote, engine.signedVotes.find? key = some vote → engine.Signed key.2.2 vote
  known : ∀ key vote, engine.signedVotes.find? key = some vote → vote.isNil = false →
    engine.proposalsByHash.contains vote.blockHash = true
  reached : ∀ key vote, engine.signedVotes.find? key = some vote → key.2.1 ≤ engine.round
  lockKnown : engine.locked = true → engine.proposalsByHash.contains engine.lockedHash = true
  validKnown : engine.validSet = true → engine.proposalsByHash.contains engine.validHash = true
  current : engine.pendingHeight = none → ∀ isPrecommit,
    ∀ entry ∈ (engine.votes isPrecommit).entries, entry.2.isNil = false →
      entry.1 ∈ env.committed engine.height
  past : engine.pendingHeight = none → ∀ bucket ∈ engine.pastPrecommits.entries,
    ∀ entry ∈ bucket.2.entries, entry.2.isNil = false → entry.1 ∈ env.committed engine.height

/-! ## Resolving signers -/

/-- A vote for a held block is resolved in the committed set. -/
theorem resolveVoteSigner_mem (soundHash : SoundHash env.crypto) (blocks : Blocks env engine)
    (pending : engine.pendingHeight = none) (notNil : vote.isNil = false)
    (known : engine.proposalsByHash.contains vote.blockHash = true)
    (resolved : engine.resolveVoteSigner env vote ≠ INVALID_ID) :
    engine.resolveVoteSigner env vote ∈ env.committed engine.height := by
  obtain ⟨block, found⟩ := Option.isSome_iff_exists.mp known
  have member := Table.find?_eq_some_iff.mp found
  have nonnull : isNull vote.blockHash = false := by
    have isHash := blocks.hash _ member
    have ne := soundHash.nonnull block
    rw [isHash] at ne
    simpa [isNull] using ne
  have ofVote : engine.blockOfVote vote = some block := by
    unfold blockOfVote
    rw [notNil, nonnull]
    exact found
  have calm : block.header.emergency = false := by
    unfold BlockHeader.emergency
    rw [blocks.regular _ member]
    rfl
  have committed : (env.now engine).activeSet false = env.committed engine.height := by
    rw [now_eq_view env pending]
    rfl
  unfold resolveVoteSigner at resolved ⊢
  dsimp only at resolved ⊢
  split at resolved
  next named =>
    rw [if_pos named]
    rw [ofVote] at resolved ⊢
    dsimp only at resolved ⊢
    rw [calm, committed] at resolved ⊢
    split at resolved
    next inSet =>
      rw [if_pos inSet]
      exact inSet
    · exact absurd rfl resolved
  next unnamed =>
    rw [if_neg unnamed]
    have regular : engine.roundUsesEmergencySetForVote vote = false := by
      unfold roundUsesEmergencySetForVote
      rw [ofVote]
      exact calm
    rw [regular, committed] at resolved ⊢
    rw [List.getD_eq_getElem?_getD] at resolved ⊢
    cases at_ : (env.committed engine.height)[vote.signerIndex]? with
    | none =>
      rw [at_] at resolved
      exact absurd rfl resolved
    | some id => exact List.mem_of_getElem? at_

/-! ## Quorums -/

/-- A quorum in a container of countable votes of members is support. -/
theorem supported_of_quorum {container : VoteMap} {round : Nat} (blocks : Blocks env engine)
    (tallied : Tallied env grants engine) (membership : Membership env engine)
    (pending : engine.pendingHeight = none)
    (counted : ∀ entry ∈ container.entries, entry.2.round = round ∧
      Counted env grants engine.height engine.signedVotes isPrecommit entry.1 entry.2)
    (members : ∀ entry ∈ container.entries, entry.2.isNil = false →
      entry.1 ∈ env.committed engine.height)
    (quorum : engine.quorumValueIn env container = some hash) :
    Supported env grants engine.Signed isPrecommit engine.height round hash := by
  obtain ⟨block, found, enough⟩ := quorumValueIn_spec quorum
  have calm : block.header.emergency = false := by
    unfold BlockHeader.emergency
    rw [blocks.regular _ (Table.find?_eq_some_iff.mp found)]
    rfl
  have threshold : engine.quorumThreshold env block.header.emergency =
      bftQuorum (env.committed engine.height).length := by
    unfold quorumThreshold Env.committed
    rw [calm, now_eq_view env pending]
  rw [threshold] at enough
  have voteOf : ∀ id ∈ (container.entries.filter fun entry => votesFor hash entry.2).map Prod.fst,
      ∃ entry ∈ container.entries, entry.1 = id ∧ entry.2.isNil = false ∧
        entry.2.blockHash = hash := by
    intro id member
    obtain ⟨entry, inFilter, isId⟩ := List.mem_map.mp member
    obtain ⟨inContainer, votes⟩ := List.mem_filter.mp inFilter
    simp only [votesFor, Bool.and_eq_true, Bool.not_eq_true', beq_iff_eq] at votes
    exact ⟨entry, inContainer, isId, votes.1, votes.2⟩
  refine ⟨(container.entries.filter fun entry => votesFor hash entry.2).map Prod.fst, ?_, ?_⟩
  · refine ⟨?_, ?_, by simpa using enough⟩
    · exact container.distinct.sublist (List.filter_sublist.map Prod.fst)
    · intro id member
      obtain ⟨entry, inContainer, isId, notNil, _⟩ := voteOf id member
      exact isId ▸ members entry inContainer notNil
  · intro id member
    obtain ⟨entry, inContainer, isId, notNil, forHash⟩ := voteOf id member
    obtain ⟨inRound, isCounted⟩ := counted entry inContainer
    refine ⟨entry.2, isCounted.atHeight, inRound, notNil, forHash, ?_⟩
    rcases isCounted.source with delivered | own
    · exact Or.inl (isId ▸ delivered)
    · right
      obtain ⟨_, _, _, signer, valid⟩ := tallied.registered _ _ own
      refine ⟨membership.signed _ _ own, ?_⟩
      rw [← isId, isCounted.signer valid, signer]

/-! ## Moves -/

/-- A held block stays held. -/
theorem holds_after_move (move : Move env inputs grants before after)
    (known : before.proposalsByHash.contains hash = true) :
    after.proposalsByHash.contains hash = true := by
  cases move.change with
  | accept => exact contains_put known
  | own => exact contains_put known
  | _ => exact known

theorem quorumValueIn_known {container : VoteMap}
    (quorum : engine.quorumValueIn env container = some hash) :
    engine.proposalsByHash.contains hash = true := by
  obtain ⟨block, found, _⟩ := quorumValueIn_spec quorum
  unfold Table.contains
  rw [found]
  rfl

/-- The lock and the valid value are those the engine had, or the polka it has. -/
theorem lock_of_move (move : Move env inputs grants before after) :
    (after.locked = true → (before.locked = true ∧ after.lockedHash = before.lockedHash) ∨
      before.quorumValue env false = some after.lockedHash) ∧
    (after.validSet = true → (before.validSet = true ∧ after.validHash = before.validHash) ∨
      before.quorumValue env false = some after.validHash) := by
  have same (isLocked : before.locked = true) : (before.locked = true ∧
      before.lockedHash = before.lockedHash) ∨ before.quorumValue env false = some before.lockedHash :=
    Or.inl ⟨isLocked, rfl⟩
  cases move.change with
  | lock polka _ quorum => exact ⟨fun _ => Or.inr quorum, fun _ => Or.inr quorum⟩
  | valid polka quorum => exact ⟨same, fun _ => Or.inr quorum⟩
  | _ => exact ⟨same, fun isValid => Or.inl ⟨isValid, rfl⟩⟩

theorem selectPrevoteHash_known (blocks : Blocks env engine) (membership : Membership env engine)
    (selected : engine.selectPrevoteHash = some hash) : engine.proposalsByHash.contains hash = true := by
  unfold selectPrevoteHash at selected
  split at selected
  next locked =>
    split at selected
    next newer =>
      cases selected
      exact membership.validKnown (by simp at newer; exact newer.1)
    · cases selected
      exact membership.lockKnown locked
  · split at selected
    next valid =>
      cases selected
      exact membership.validKnown valid
    · split at selected
      · cases selected
      next proposal isProposal =>
        split at selected
        · cases selected
          exact blocks.proposal proposal isProposal
        · cases selected

theorem precommitChoice_eq_some (chosen : engine.precommitChoice = some hash) :
    engine.locked = true ∧ engine.lockedHash = hash := by
  unfold precommitChoice at chosen
  split at chosen
  next locked =>
    cases chosen
    exact ⟨locked, rfl⟩
  · cases chosen

theorem castValue_known (blocks : Blocks env engine) (membership : Membership env engine)
    (cast : castValue env engine isPrecommit = some hash) :
    engine.proposalsByHash.contains hash = true := by
  cases isPrecommit with
  | false => exact selectPrevoteHash_known blocks membership cast
  | true =>
    have choice : ((engine.setStep .precommit).lockPolka env).precommitChoice = some hash := cast
    rcases lockPolka_cases env (engine.setStep .precommit) with ⟨_, same⟩ | ⟨polka, quorum, same⟩
    · rw [same] at choice
      obtain ⟨locked, isLock⟩ := precommitChoice_eq_some choice
      exact isLock ▸ membership.lockKnown locked
    · rw [same] at choice
      exact Option.some.inj choice ▸ quorumValueIn_known quorum

/-- A vote that is cast is for a held block. -/
theorem Casts.known (casts : Casts env before after isPrecommit vote) (blocks : Blocks env before)
    (membership : Membership env before) (notNil : vote.isNil = false) :
    before.proposalsByHash.contains vote.blockHash = true :=
  castValue_known blocks membership (casts.value notNil)

theorem known_of_ready (ready : engine.voteReady vote = true) (notNil : vote.isNil = false) :
    engine.proposalsByHash.contains vote.blockHash = true := by
  unfold voteReady at ready
  rw [notNil] at ready
  exact ready

theorem move_membership (soundHash : SoundHash env.crypto) (increasing : Grants.Increasing grants)
    (move : Move env inputs grants before after) (blocks : Blocks env before)
    (membership : Membership env before) : Membership env after := by
  refine ⟨?_, ?_, ?_, ?_, ?_, ?_, ?_⟩
  · intro key vote found
    rcases registered_of_move move found with old | ⟨isPrecommit, isKey, casts⟩
    · exact signed_after_move move (membership.signed key vote old)
    · rw [isKey]
      exact (casts.signed _ _).mpr (Or.inr ⟨rfl, rfl⟩)
  · intro key vote found notNil
    apply holds_after_move move
    rcases registered_of_move move found with old | ⟨isPrecommit, isKey, casts⟩
    · exact membership.known key vote old notNil
    · exact casts.known blocks membership notNil
  · intro key vote found
    apply le_trans _ (move_round_le increasing move)
    rcases registered_of_move move found with old | ⟨isPrecommit, isKey, casts⟩
    · exact membership.reached key vote old
    · rw [isKey]
  · intro locked
    apply holds_after_move move
    rcases (lock_of_move move).1 locked with ⟨wasLocked, same⟩ | quorum
    · rw [same]
      exact membership.lockKnown wasLocked
    · exact quorumValueIn_known quorum
  · intro valid
    apply holds_after_move move
    rcases (lock_of_move move).2 valid with ⟨wasValid, same⟩ | quorum
    · rw [same]
      exact membership.validKnown wasValid
    · exact quorumValueIn_known quorum
  · intro idle isPrecommit entry member notNil
    have wasIdle := idle_of_move move idle
    rw [move_height move]
    cases entered_of_move move member with
    | kept _ old => exact membership.current wasIdle isPrecommit entry old notNil
    | recorded _ countable source signer =>
      have known : before.proposalsByHash.contains entry.2.blockHash = true := by
        rcases source with ⟨_, ready⟩ | registered
        · exact known_of_ready ready notNil
        · exact membership.known _ _ registered notNil
      rw [signer]
      exact resolveVoteSigner_mem soundHash blocks wasIdle notNil known countable.signer
    | restored advances _ found =>
      -- the node has registered no vote of a round it has not reached
      have reached := membership.reached _ _ found
      exact absurd reached (Nat.not_le_of_lt (increasing _ _ advances))
  · intro idle bucket inPast entry member notNil
    have wasIdle := idle_of_move move idle
    rw [move_height move]
    cases enteredPast_of_move move inPast member with
    | kept kept wasPast _ inKept => exact membership.past wasIdle kept wasPast entry inKept notNil
    | ended _ inCurrent => exact membership.current wasIdle true entry inCurrent notNil
    | recorded _ _ _ ready signer _ isSigner =>
      rw [isSigner]
      exact resolveVoteSigner_mem soundHash blocks wasIdle notNil (known_of_ready ready notNil) signer

end Engine

end Clarity.Consensus
