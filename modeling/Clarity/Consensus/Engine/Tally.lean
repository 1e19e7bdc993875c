import Clarity.Consensus.Engine.Registry

/-!
Contract: what the engine counts. Every vote in its containers was delivered and verified
under the key of the validator it is counted for, or is the node's own registered vote.

Owns: the invariant of the vote containers and of the registry, for any log the node
starts from, and its preservation by every move and by a change of height.

While an applied commit waits for the next height the callbacks read the next state; the
containers are then not read again, and the invariant says nothing about them.
-/

namespace Clarity.Consensus

open Common Crypto Clarity.Core Library Relation

/-- The signature of the vote verifies under the key the view has for the validator. -/
def ChainView.Accepts (view : ChainView) (crypto : Primitives) (id : Nat) (vote : Vote) : Prop :=
  ∃ validator, view.stateLookupValidator id = some validator ∧
    crypto.verify (vote.signingHash crypto) validator.effectiveConsensusKey vote.signature = true

namespace Engine

variable {env : Env} {inputs : Inputs} {grants : Grants} {engine before after : Engine}
  {vote : Vote} {isPrecommit : Bool} {entry : Nat × Vote} {round : Nat} {container : VoteMap}
  {table : Table Nat VoteMap}

theorem accepts_of_verify {id : Nat} (verified : engine.verifyVoteSignature env vote id = true) :
    (env.now engine).Accepts env.crypto id vote := by
  unfold verifyVoteSignature at verified
  split at verified
  · cases verified
  next validator found => exact ⟨validator, found, verified⟩

theorem now_eq_view (env : Env) (pending : engine.pendingHeight = none) :
    env.now engine = env.view engine.height := by
  unfold Env.now stateHeight
  rw [pending]
  rfl

/-- A vote that names its signer is counted for that signer or not at all. -/
theorem resolveVoteSigner_eq (named : vote.signerId ≠ INVALID_ID)
    (resolved : engine.resolveVoteSigner env vote ≠ INVALID_ID) :
    engine.resolveVoteSigner env vote = vote.signerId := by
  have member : ∀ emergency, (if vote.signerId ∈ (env.now engine).activeSet emergency then
      vote.signerId else INVALID_ID) ≠ INVALID_ID →
      (if vote.signerId ∈ (env.now engine).activeSet emergency then vote.signerId else INVALID_ID) =
        vote.signerId := by
    intro emergency valid
    split at valid
    next inSet => exact if_pos inSet
    · exact absurd rfl valid
  unfold resolveVoteSigner at resolved ⊢
  simp only [named, ne_eq, not_false_eq_true, if_true] at resolved ⊢
  split at resolved
  next block found => exact member _ resolved
  · split at resolved
    next block found => exact member _ resolved
    · split at resolved
      next inSet => rw [if_pos inSet]
      next outside =>
        rw [if_neg outside]
        exact member true resolved

/-! ## The invariant -/

/-- The vote may be counted for the validator at this height, given the node's own votes. -/
structure Counted (env : Env) (grants : Grants) (height : Nat) (own : Table SignedKey Vote)
    (isPrecommit : Bool) (id : Nat) (vote : Vote) : Prop where
  atHeight : vote.height = height
  signer : vote.signerId ≠ INVALID_ID → id = vote.signerId
  source : (grants.delivered isPrecommit vote ∧ (env.view height).Accepts env.crypto id vote) ∨
    own.find? (vote.height, vote.round, isPrecommit) = some vote

structure Tallied (env : Env) (grants : Grants) (engine : Engine) : Prop where
  registered : ∀ key vote, engine.signedVotes.find? key = some vote →
    key.1 = engine.height ∧ vote.height = key.1 ∧ vote.round = key.2.1 ∧
      vote.signerId = (env.view engine.height).myValidatorId ∧ vote.signerId ≠ INVALID_ID
  current : engine.pendingHeight = none → ∀ isPrecommit,
    ∀ entry ∈ (engine.votes isPrecommit).entries, entry.2.round = engine.round ∧
      Counted env grants engine.height engine.signedVotes isPrecommit entry.1 entry.2
  past : engine.pendingHeight = none → ∀ bucket ∈ engine.pastPrecommits.entries,
    ∀ entry ∈ bucket.2.entries, entry.2.round = bucket.1 ∧
      Counted env grants engine.height engine.signedVotes true entry.1 entry.2

/-- A vote stays countable while the registry grows. -/
theorem Counted.mono {height : Nat} {own larger : Table SignedKey Vote} {id : Nat}
    (counted : Counted env grants height own isPrecommit id vote)
    (grows : ∀ key vote, own.find? key = some vote → larger.find? key = some vote) :
    Counted env grants height larger isPrecommit id vote :=
  { counted with source := counted.source.imp_right (grows _ _) }

/-! ## What a move puts into the containers -/

theorem mem_setVotes {otherType : Bool}
    (member : entry ∈ ((engine.setVotes isPrecommit container).votes otherType).entries) :
    (otherType = isPrecommit ∧ entry ∈ container.entries) ∨
      entry ∈ (engine.votes otherType).entries := by
  cases isPrecommit <;> cases otherType
  · exact Or.inl ⟨rfl, member⟩
  · exact Or.inr member
  · exact Or.inr member
  · exact Or.inl ⟨rfl, member⟩

theorem mem_eraseOldest {entry : Nat × VoteMap} (member : entry ∈ (eraseOldest table).entries) :
    entry ∈ table.entries := by
  unfold eraseOldest at member
  split at member
  · exact member
  · exact (Table.mem_erase.mp member).1

theorem mem_evictOldest {entry : Nat × VoteMap} (member : entry ∈ (evictOldest table).entries) :
    entry ∈ table.entries := by
  unfold evictOldest at member
  generalize table.size - MAX_PAST_ROUNDS = excess at member
  induction excess generalizing table with
  | zero => exact member
  | succ excess ih => exact mem_eraseOldest (ih member)

theorem mem_bucket (member : entry ∈ ((table.find? round).getD Table.empty).entries) :
    ∃ bucket, (round, bucket) ∈ table.entries ∧ entry ∈ bucket.entries := by
  cases found : table.find? round with
  | none =>
    rw [found] at member
    cases member
  | some bucket =>
    rw [found] at member
    exact ⟨bucket, Table.find?_eq_some_iff.mp found, member⟩

theorem mem_foldl_emplace {entries : List (Nat × Vote)}
    (member : entry ∈ (entries.foldl (fun kept entry => kept.emplace entry.1 entry.2)
      container).entries) : entry ∈ container.entries ∨ entry ∈ entries := by
  induction entries generalizing container with
  | nil => exact Or.inl member
  | cons head rest ih =>
    rcases ih member with inContainer | inRest
    · rcases Table.mem_emplace inContainer with old | isHead
      · exact Or.inl old
      · exact Or.inr (isHead ▸ List.mem_cons_self)
    · exact Or.inr (List.mem_cons_of_mem head inRest)

/-- The precommits kept when a round ends were kept before or are those of the round. -/
theorem mem_keepPrecommits {bucket : Nat × VoteMap}
    (inKept : bucket ∈ engine.keepPrecommits.entries) (member : entry ∈ bucket.2.entries) :
    (∃ old ∈ engine.pastPrecommits.entries, old.1 = bucket.1 ∧ entry ∈ old.2.entries) ∨
      (bucket.1 = engine.round ∧ entry ∈ engine.precommits.entries) := by
  unfold keepPrecommits at inKept
  split at inKept
  · exact Or.inl ⟨bucket, inKept, rfl, member⟩
  · rcases Table.mem_put (mem_evictOldest inKept) with ⟨inOld, _⟩ | isNew
    · exact Or.inl ⟨bucket, inOld, rfl, member⟩
    · subst isNew
      rcases mem_foldl_emplace member with inBucket | inRound
      · obtain ⟨old, inPast, inOld⟩ := mem_bucket inBucket
        exact Or.inl ⟨_, inPast, rfl, inOld⟩
      · exact Or.inr ⟨rfl, inRound⟩

theorem mem_restoreVote (engine : Engine) {me : Nat}
    (member : entry ∈ (engine.restoreVote me round isPrecommit Table.empty).entries) :
    me ≠ INVALID_ID ∧ entry.1 = me ∧
      engine.signedVotes.find? (engine.height, round, isPrecommit) = some entry.2 := by
  unfold restoreVote at member
  split at member
  · cases member
  next valid =>
    split at member
    · cases member
    next vote found =>
      rcases Table.mem_put member with ⟨inEmpty, _⟩ | isNew
      · cases inEmpty
      · rw [isNew]
        exact ⟨valid, rfl, found⟩

theorem mem_beginRound_votes
    (member : entry ∈ ((engine.beginRound env round).votes isPrecommit).entries) :
    (env.now engine).myValidatorId ≠ INVALID_ID ∧ entry.1 = (env.now engine).myValidatorId ∧
      engine.signedVotes.find? (engine.height, round, isPrecommit) = some entry.2 := by
  cases isPrecommit
  · exact mem_restoreVote _ member
  · exact mem_restoreVote _ member

/-- Where a vote among those of the round comes from: it was there, the move records it, or the
move begins a round and restores the node's own vote. -/
inductive Entered (env : Env) (grants : Grants) (before after : Engine) (isPrecommit : Bool)
    (entry : Nat × Vote) : Prop
  | kept (round : after.round = before.round) (member : entry ∈ (before.votes isPrecommit).entries)
  | recorded (round : after.round = before.round) (countable : Countable env before entry.2)
      (source : Recordable grants before entry.2 isPrecommit)
      (signer : entry.1 = before.resolveVoteSigner env entry.2)
  | restored (advances : grants.advance before.round after.round)
      (isMe : entry.1 = (env.now before).myValidatorId)
      (found : before.signedVotes.find? (before.height, after.round, isPrecommit) = some entry.2)

theorem entered_of_move (move : Move env inputs grants before after)
    (member : entry ∈ (after.votes isPrecommit).entries) :
    Entered env grants before after isPrecommit entry := by
  cases move.change with
  | newRound round timeouts _ advances =>
    obtain ⟨_, isMe, found⟩ := mem_beginRound_votes member
    exact .restored advances isMe found
  | record vote recordedType source tally =>
    rw [← tally] at member ⊢
    rcases tallyVote_cases env vote recordedType before with
      same | ⟨countable, _, inserted⟩ | ⟨_, _, _, _, _, _, conflict, _⟩
    · rw [same] at member ⊢
      exact .kept rfl member
    · rw [inserted] at member ⊢
      have round : (before.setVotes recordedType ((before.votes recordedType).emplace
          (before.resolveVoteSigner env vote) vote)).round = before.round := rfl
      rcases mem_setVotes member with ⟨sameType, inContainer⟩ | old
      · subst sameType
        rcases Table.mem_emplace inContainer with old | isNew
        · exact .kept round old
        · subst isNew
          exact .recorded round countable source rfl
      · exact .kept round old
    · rw [conflict] at member ⊢
      exact .kept rfl member
  | _ => exact .kept rfl member

/-- Where a precommit kept for a past round comes from: it was kept, its round ends with the move,
or the move records it. -/
inductive EnteredPast (env : Env) (grants : Grants) (before : Engine) (round : Nat)
    (entry : Nat × Vote) : Prop
  | kept (bucket : Nat × VoteMap) (inPast : bucket ∈ before.pastPrecommits.entries)
      (sameRound : bucket.1 = round) (member : entry ∈ bucket.2.entries)
  | ended (isRound : round = before.round) (member : entry ∈ (before.votes true).entries)
  | recorded (inRound : entry.2.round = round) (source : grants.delivered true entry.2)
      (height : entry.2.height = before.height) (ready : before.voteReady entry.2 = true)
      (signer : before.resolveVoteSigner env entry.2 ≠ INVALID_ID)
      (verified : before.verifyVoteSignature env entry.2
        (before.resolveVoteSigner env entry.2) = true)
      (isSigner : entry.1 = before.resolveVoteSigner env entry.2)

theorem enteredPast_of_move {bucket : Nat × VoteMap} (move : Move env inputs grants before after)
    (inPast : bucket ∈ after.pastPrecommits.entries) (member : entry ∈ bucket.2.entries) :
    EnteredPast env grants before bucket.1 entry := by
  have old (wasPast : bucket ∈ before.pastPrecommits.entries) :
      EnteredPast env grants before bucket.1 entry := .kept bucket wasPast rfl member
  cases move.change with
  | newRound round timeouts =>
    rcases mem_keepPrecommits inPast member with ⟨kept, wasPast, sameRound, inKept⟩ | ⟨isRound, inRound⟩
    · exact .kept kept wasPast sameRound inKept
    · exact .ended isRound inRound
  | recordPast vote source height past ready signer verified tally =>
    rw [← tally] at inPast
    have inBucket (member : entry ∈
        ((before.pastPrecommits.find? vote.round).getD Table.empty).entries) :
        EnteredPast env grants before vote.round entry := by
      obtain ⟨kept, wasPast, inKept⟩ := mem_bucket member
      exact .kept _ wasPast rfl inKept
    rcases tallyPast_cases env vote before with ⟨_, inserted⟩ | ⟨_, _, _, _, _, conflict, _⟩
    · rw [inserted] at inPast
      rcases Table.mem_put (mem_evictOldest inPast) with ⟨wasPast, _⟩ | isNew
      · exact old wasPast
      · subst isNew
        rcases Table.mem_emplace member with inOld | isVote
        · exact inBucket inOld
        · subst isVote
          exact .recorded rfl source height ready signer verified rfl
    · rw [conflict] at inPast
      rcases Table.mem_put inPast with ⟨wasPast, _⟩ | isNew
      · exact old wasPast
      · subst isNew
        exact inBucket member
  | _ => exact old inPast

theorem idle_of_move (move : Move env inputs grants before after)
    (idle : after.pendingHeight = none) : before.pendingHeight = none := by
  cases move.change with
  | applied => cases idle
  | _ => exact idle

/-! ## Every move, and new heights -/

/-- A registered vote may be counted for the node. -/
theorem counted_of_registered
    (registered : ∀ key vote, engine.signedVotes.find? key = some vote →
      key.1 = engine.height ∧ vote.height = key.1 ∧ vote.round = key.2.1 ∧
        vote.signerId = (env.view engine.height).myValidatorId ∧ vote.signerId ≠ INVALID_ID)
    (pending : engine.pendingHeight = none) (isMe : entry.1 = (env.now engine).myValidatorId)
    (found : engine.signedVotes.find? (engine.height, round, isPrecommit) = some entry.2) :
    entry.2.round = round ∧
      Counted env grants engine.height engine.signedVotes isPrecommit entry.1 entry.2 := by
  obtain ⟨_, height, sameRound, signer, _⟩ := registered _ _ found
  refine ⟨sameRound, height, fun _ => ?_, Or.inr ?_⟩
  · rw [isMe, signer, now_eq_view env pending]
  · rw [height, sameRound]
    exact found

theorem move_tallied (move : Move env inputs grants before after) (control : before.Control)
    (tallied : Tallied env grants before) : Tallied env grants after := by
  have grows := fun key vote => @registered_after_move env inputs grants before after vote move key
  refine ⟨?_, ?_, ?_⟩
  · intro key vote found
    rw [move_height move]
    rcases registered_of_move move found with old | ⟨isPrecommit, isKey, casts⟩
    · exact tallied.registered key vote old
    · subst isKey
      have view := now_eq_view env (casts.undecided control).2
      exact ⟨rfl, casts.height, casts.round, view ▸ casts.signer, casts.signer ▸ casts.signerValid⟩
  · intro idle isPrecommit entry member
    have wasIdle := idle_of_move move idle
    rw [move_height move]
    cases entered_of_move move member with
    | kept round old =>
      obtain ⟨inRound, counted⟩ := tallied.current wasIdle isPrecommit entry old
      exact ⟨inRound.trans round.symm, counted.mono grows⟩
    | recorded round countable source signer =>
      refine ⟨countable.round.trans round.symm, Counted.mono ?_ grows⟩
      rw [signer]
      refine ⟨countable.height, fun named => resolveVoteSigner_eq named countable.signer, ?_⟩
      · rcases source with ⟨delivered, _⟩ | registered
        · exact Or.inl ⟨delivered, now_eq_view env wasIdle ▸ accepts_of_verify countable.verified⟩
        · right
          rw [countable.height, countable.round]
          exact registered
    | restored _ isMe found =>
      obtain ⟨inRound, counted⟩ := counted_of_registered tallied.registered wasIdle isMe found
      exact ⟨inRound, counted.mono grows⟩
  · intro idle bucket inPast entry member
    have wasIdle := idle_of_move move idle
    rw [move_height move]
    cases enteredPast_of_move move inPast member with
    | kept kept wasPast sameRound inKept =>
      obtain ⟨inRound, counted⟩ := tallied.past wasIdle kept wasPast entry inKept
      exact ⟨inRound.trans sameRound, counted.mono grows⟩
    | ended isRound inCurrent =>
      obtain ⟨inRound, counted⟩ := tallied.current wasIdle true entry inCurrent
      exact ⟨inRound.trans isRound.symm, counted.mono grows⟩
    | recorded inRound source height _ signer verified isSigner =>
      refine ⟨inRound, height, fun named => ?_, Or.inl ⟨source, ?_⟩⟩
      · rw [isSigner]
        exact resolveVoteSigner_eq named signer
      · rw [isSigner, ← now_eq_view env wasIdle]
        exact accepts_of_verify verified

theorem newHeight_tallied {event : Event} {height : Nat} {opened : Engine}
    (newHeight : NewHeight env event engine height opened) : Tallied env grants opened := by
  obtain ⟨base, undecided, _, _, _, _, _, _, isOpened⟩ := newHeight.base
  obtain ⟨signed, _, _, _, _, _, _, _, _, result, sources, _⟩ := openHeight_cases env height base
  have registered : ∀ key vote, (base.openHeight env height).1.signedVotes.find? key = some vote →
      key.1 = height ∧ vote.height = key.1 ∧ vote.round = key.2.1 ∧
        vote.signerId = (env.view height).myValidatorId ∧ vote.signerId ≠ INVALID_ID := by
    intro key vote found
    rw [result] at found
    obtain ⟨valid, logged, _, _, logHeight, signer, isEntry⟩ :=
      sources (key, vote) (Table.find?_eq_some_iff.mp found)
    obtain ⟨isKey, isVote⟩ := Prod.mk.inj isEntry
    subst isKey isVote
    have view : env.now (base.resetForNewHeight height) = env.view height :=
      now_eq_view env undecided.2
    rw [view] at valid signer
    exact ⟨logHeight, rfl, rfl, signer, signer ▸ valid⟩
  rw [isOpened]
  rw [result] at registered ⊢
  refine ⟨registered, ?_, ?_⟩
  · intro idle isPrecommit entry member
    obtain ⟨_, isMe, found⟩ := mem_beginRound_votes member
    exact counted_of_registered registered idle isMe found
  · intro _ bucket inPast entry member
    rcases mem_keepPrecommits inPast member with ⟨_, inEmpty, _⟩ | ⟨_, inEmpty⟩
    · cases inEmpty
    · cases inEmpty

/-! ## Quorums -/

/-- Enough distinct validators have a vote for the value in the container. -/
theorem quorumValueIn_spec {hash : Hash} (quorum : engine.quorumValueIn env container = some hash) :
    ∃ block, engine.proposalsByHash.find? hash = some block ∧
      engine.quorumThreshold env block.header.emergency ≤
        (container.entries.filter fun entry => votesFor hash entry.2).length := by
  have reached : engine.hasQuorum env container hash = true := List.find?_some quorum
  unfold hasQuorum at reached
  split at reached
  · cases reached
  next block found =>
    refine ⟨block, found, ?_⟩
    rw [← List.countP_eq_length_filter]
    exact of_decide_eq_true reached

end Engine

end Clarity.Consensus
