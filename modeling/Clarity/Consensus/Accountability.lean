import Clarity.Consensus.Certificates

/-!
Contract: which pairs of votes are a proof of equivocation: a node's own, and those it records.

Owns: the meeting point of the votes a node signs (`Engine.Registry`) or records as evidence and
the on-chain verifier (`Core.EquivocationProof`). The verifier cannot see the type of a vote, so a
prevote and a precommit of one round for different values are a valid proof; it compares the
positions of the votes, which the recording does not; and it hashes the votes of the first round
alone as they were signed, so that no proof of a later round passes.
-/

namespace Clarity.Consensus

open Common Crypto Clarity.Core Library Committee

/-- The key history of the state maps the height of the vote to a key under which the
signature of the vote verifies. -/
def SignedUnder (crypto : Primitives) (state : StateView) (vote : Vote) : Prop :=
  ∃ key, state.validatorKeyAtHeight vote.signerId vote.height = some key ∧
    crypto.verify (vote.signingHash crypto) key vote.signature = true

/-- The state would slash this id: it is registered, and in the active set if one is given. -/
def Exposed (activeSet : List Nat) (state : StateView) (id : Nat) : Prop :=
  (state.getValidator id).isSome = true ∧ (activeSet = [] ∨ id ∈ activeSet)

/-- One vote was cast as a prevote, the other as a precommit, in one round at one position,
for different values. -/
def CrossTypeConflict (typeA typeB : Bool) (voteA voteB : Vote) : Prop :=
  typeA ≠ typeB ∧ voteA.height = voteB.height ∧ voteA.round = voteB.round ∧
    voteA.signerIndex = voteB.signerIndex ∧
    ¬(voteA.blockHash = voteB.blockHash ∧ voteA.isNil = voteB.isNil)

/-- The hash the verifier of `Core` asks a signature of. -/
def Vote.localHash (crypto : Primitives) (vote : Vote) : Hash :=
  localVoteSigningHash crypto vote.height vote.round vote.isNil vote.blockHash

theorem Vote.localHash_first (crypto : Primitives) {vote : Vote} (first : vote.round = 0) :
    vote.localHash crypto = vote.signingHash crypto := by
  unfold localHash signingHash voteSigningHash localVoteSigningHash
  rw [first, localVotePayload_zero]
  rfl

/-- After the first round the signature of the vote is not one of the hash `Core` computes. -/
def UnreadLater (crypto : Primitives) (state : StateView) (vote : Vote) : Prop :=
  ∀ key, state.validatorKeyAtHeight vote.signerId vote.height = some key → vote.round ≠ 0 →
    crypto.verify (vote.localHash crypto) key vote.signature = false

/-- The positions two votes carry are the same, where both carry one. -/
def IndicesAgree (voteA voteB : Vote) : Prop :=
  voteA.signerIndex ≠ INVALID_INDEX → voteB.signerIndex ≠ INVALID_INDEX →
    voteA.signerIndex = voteB.signerIndex

/-- The verifier's checks on two votes of one signer whose signatures verify. -/
theorem checkEquivocation_isSome_iff {crypto : Primitives} {activeSet : List Nat}
    {state : StateView} {voteA voteB : Vote} (signerValid : voteA.signerId ≠ INVALID_ID)
    (sameSigner : voteA.height = voteB.height → voteA.signerId = voteB.signerId)
    (underA : SignedUnder crypto state voteA) (underB : SignedUnder crypto state voteB)
    (unread : UnreadLater crypto state voteA) :
    (checkEquivocation crypto activeSet state voteA voteB).isSome = true ↔
      (voteA.height = voteB.height ∧ voteA.round = voteB.round ∧ IndicesAgree voteA voteB ∧
        ¬(voteA.blockHash = voteB.blockHash ∧ voteA.isNil = voteB.isNil)) ∧
      Exposed activeSet state voteA.signerId ∧ voteA.round = 0 := by
  have indicesAgree_iff : IndicesAgree voteA voteB ↔ ¬(voteA.signerIndex ≠ INVALID_INDEX ∧
      voteB.signerIndex ≠ INVALID_INDEX ∧ voteA.signerIndex ≠ voteB.signerIndex) := by
    unfold IndicesAgree
    tauto
  rw [indicesAgree_iff]
  unfold checkEquivocation Exposed
  rw [← Vote.localHash, ← Vote.localHash]
  by_cases heights : voteA.height = voteB.height
  · obtain ⟨key, atHeight, verifiedA⟩ := underA
    obtain ⟨keyB, atHeightB, verifiedB⟩ := underB
    have signers : voteA.signerId = voteB.signerId := sameSigner heights
    have sameKey : keyB = key := by
      rw [← signers, ← heights, atHeight] at atHeightB
      exact (Option.some.inj atHeightB).symm
    subst sameKey
    rw [atHeight, ← signers]
    by_cases rounds : voteA.round = voteB.round
    · by_cases apart : voteA.signerIndex ≠ INVALID_INDEX ∧ voteB.signerIndex ≠ INVALID_INDEX ∧
          voteA.signerIndex ≠ voteB.signerIndex
      · simp [heights, rounds, apart]
      · by_cases values : voteA.blockHash = voteB.blockHash ∧ voteA.isNil = voteB.isNil
        · simp [heights, rounds, apart, values]
        · cases registered : state.getValidator voteA.signerId with
          | none => simp [heights, rounds, apart, values]
          | some validator =>
            by_cases listed : activeSet = [] ∨ voteA.signerId ∈ activeSet
            · have notOutside : ¬(activeSet ≠ [] ∧ voteA.signerId ∉ activeSet) := by tauto
              by_cases first : voteB.round = 0
              · have readA := (Vote.localHash_first crypto (rounds.trans first)).symm ▸ verifiedA
                have readB := (Vote.localHash_first crypto first).symm ▸ verifiedB
                simp [heights, rounds, apart, values, signerValid, notOutside, listed, readA, readB,
                  first]
              · have unreadA := unread keyB atHeight (rounds ▸ first)
                simp [heights, rounds, apart, values, signerValid, notOutside, unreadA, first]
            · have outside : activeSet ≠ [] ∧ voteA.signerId ∉ activeSet := by tauto
              simp [heights, rounds, apart, values, outside]
    · simp [heights, rounds]
  · simp [heights]

/-- No vote that an engine signs in a later round is what `Core` hashes. -/
theorem unreadLater_of_unforged {crypto : Primitives} {engine : Engine} {state : StateView}
    {vote : Vote} (inRange : ∀ isPrecommit vote, engine.Signed isPrecommit vote → vote.InRange)
    (fits : vote.InRange)
    (unforged : ∀ key, state.validatorKeyAtHeight vote.signerId vote.height = some key →
      Unforged crypto engine key (vote.localHash crypto) vote.signature)
    (collisionFree : CollisionFree crypto engine
      (VOTE_DOMAIN ++ localVotePayload vote.height vote.round vote.isNil vote.blockHash)) :
    UnreadLater crypto state vote := by
  intro key atHeight later
  by_contra accepted
  obtain ⟨message, signed, sameHash⟩ := unforged key atHeight (Bool.eq_true_of_not_eq_false accepted)
  have isMessage := collisionFree message signed sameHash
  have length : message.length = 62 := by
    have domain : VOTE_DOMAIN.length = 13 := by decide
    simp only [isMessage, localVotePayload, List.length_append, domain, putU64, putU8,
      putUInt_length, bytes32_length]
  obtain ⟨isPrecommit, other, isSigned, same⟩ := signedVote_of_message signed length
  have otherFits := inRange isPrecommit other isSigned
  have payloads := List.append_cancel_left (same.trans isMessage)
  exact later (votePayload_eq_local fits.height otherFits.height fits.round (Nat.mod_lt _ (by decide))
    payloads)

/-- **Own votes as evidence.** In every state a node reaches, the proof built from two votes
it signed passes the verifier exactly when one was cast as a prevote and the other as a
precommit of the first round for different values, and the state would slash the node. -/
theorem proof_of_own_votes_passes_iff {env : Env} {engine : Engine} {activeSet : List Nat}
    {state : StateView} {typeA typeB : Bool} {voteA voteB : Vote}
    (reachable : Reachable env Engine.FreshStart engine) (signedA : engine.Signed typeA voteA)
    (signedB : engine.Signed typeB voteB)
    (inRange : ∀ isPrecommit vote, engine.Signed isPrecommit vote → vote.InRange)
    (underA : SignedUnder env.crypto state voteA) (underB : SignedUnder env.crypto state voteB)
    (unforged : ∀ key, state.validatorKeyAtHeight voteA.signerId voteA.height = some key →
      Unforged env.crypto engine key (voteA.localHash env.crypto) voteA.signature)
    (collisionFree : CollisionFree env.crypto engine
      (VOTE_DOMAIN ++ localVotePayload voteA.height voteA.round voteA.isNil voteA.blockHash)) :
    (verifyEquivocationProof env.crypto (proofOf voteA voteB) activeSet state).isSome = true ↔
      CrossTypeConflict typeA typeB voteA voteB ∧ Exposed activeSet state voteA.signerId ∧
        voteA.round = 0 := by
  have registry := reachable.registry
  have ownA := registry.own typeA voteA signedA
  have ownB := registry.own typeB voteB signedB
  have sameSigner : voteA.height = voteB.height → voteA.signerId = voteB.signerId := by
    intro heights
    rw [ownA.signer, ownB.signer, heights]
  have inRangeA := inRange typeA voteA signedA
  rw [verifyEquivocationProof_proofOf env.crypto inRangeA (inRange typeB voteB signedB),
    checkEquivocation_isSome_iff ownA.signerValid sameSigner underA underB
      (unreadLater_of_unforged inRange inRangeA unforged collisionFree)]
  constructor
  · rintro ⟨⟨heights, rounds, indices, values⟩, exposed⟩
    refine ⟨⟨?_, heights, rounds, indices ownA.index ownB.index, values⟩, exposed⟩
    -- two votes of one type, height and round are the same vote
    intro sameType
    subst sameType
    have same := registry.unique typeA voteA voteB signedA signedB heights rounds
    exact values (by rw [same]; exact ⟨rfl, rfl⟩)
  · rintro ⟨⟨_, heights, rounds, indices, values⟩, exposed⟩
    exact ⟨⟨heights, rounds, fun _ _ => indices, values⟩, exposed⟩

/-! ## A slashable honest node -/

/-- The proposer of height 1 proposes and prevotes its block; no other message arrives, its
timer expires, and it precommits nil. -/
def lonelyProposer : Option Engine :=
  runEvents Engine.FreshStart (env 4 2) 9
    [(inputs 20000 false, .start 1), (inputs 30000 true, .pollTimers)] {}

/-- The vote the lonely proposer signed as this type. -/
def lonelyVote (isPrecommit : Bool) : Vote :=
  (lonelyProposer.bind fun engine => engine.signedVotes.find? (1, 0, isPrecommit)).getD default

/-- The bytes `Core` hashes for its prevote. -/
def lonelyMessage : Bytes :=
  VOTE_DOMAIN ++ localVotePayload (lonelyVote false).height (lonelyVote false).round
    (lonelyVote false).isNil (lonelyVote false).blockHash

theorem lonelyProposer_signed : ∃ engine, Reachable (env 4 2) Engine.FreshStart engine ∧
      (∀ isPrecommit, engine.Signed isPrecommit (lonelyVote isPrecommit)) ∧
      votesInRange engine = true ∧ lonelyMessage ∈ engine.signedMessages ∧
      CollisionFree crypto engine lonelyMessage := by
  have ran : (lonelyProposer.map fun engine =>
      decide (∀ isPrecommit, .signedVote (lonelyVote isPrecommit) isPrecommit ∈ engine.outputs) &&
        votesInRange engine && decide (lonelyMessage ∈ engine.signedMessages) &&
        engine.signedMessages.all fun message =>
          crypto.blake2b message != crypto.blake2b lonelyMessage || message == lonelyMessage) =
      some true := by
    decide +kernel
  obtain ⟨engine, isEngine, checks⟩ := Option.map_eq_some_iff.mp ran
  simp only [Bool.and_eq_true, decide_eq_true_eq, List.all_eq_true, Bool.or_eq_true, bne_iff_ne,
    beq_iff_eq] at checks
  obtain ⟨⟨⟨signed, inRange⟩, message⟩, distinct⟩ := checks
  refine ⟨engine, reachable_of_runEvents _ isEngine, signed, inRange, message, ?_⟩
  intro other member sameHash
  exact (distinct other member).resolve_left (not_not_intro sameHash)

theorem lonelyVote_signedUnder (isPrecommit : Bool) :
    SignedUnder (env 4 2).crypto (stateView 4) (lonelyVote isPrecommit) := by
  refine ⟨keyOf 2, ?_, ?_⟩
  · cases isPrecommit <;> decide +kernel
  · cases isPrecommit <;> decide +kernel

/-- An honest node signs, in one round, two votes that the verifier accepts as a proof of
equivocation against it. -/
theorem honest_node_slashable : ∃ engine, Reachable (env 4 2) Engine.FreshStart engine ∧
      engine.Signed false (lonelyVote false) ∧ engine.Signed true (lonelyVote true) ∧
      SignedUnder (env 4 2).crypto (stateView 4) (lonelyVote false) ∧
      SignedUnder (env 4 2).crypto (stateView 4) (lonelyVote true) ∧
      verifyEquivocationProof (env 4 2).crypto (proofOf (lonelyVote false) (lonelyVote true))
        (members 4) (stateView 4) = some 2 := by
  obtain ⟨engine, reachable, signed, _⟩ := lonelyProposer_signed
  exact ⟨engine, reachable, signed false, signed true, lonelyVote_signedUnder false,
    lonelyVote_signedUnder true, by decide +kernel⟩

theorem lonely_votes_pass :
    (verifyEquivocationProof (env 4 2).crypto (proofOf (lonelyVote false) (lonelyVote true))
      (members 4) (stateView 4)).isSome = true := by
  obtain ⟨engine, reachable, signed, inRange, message, collisionFree⟩ := lonelyProposer_signed
  refine (proof_of_own_votes_passes_iff reachable (signed false) (signed true)
    (fun _ _ => inRange_of_votesInRange inRange) (lonelyVote_signedUnder false)
    (lonelyVote_signedUnder true) (fun _ _ _ => ⟨lonelyMessage, message, rfl⟩) collisionFree).mpr ?_
  unfold CrossTypeConflict Exposed
  decide +kernel

/-! ## Recorded evidence -/

/-- The hashes of the two encoders do not collide on this vote. -/
def HashedApart (crypto : Primitives) (height round : Nat) (isNil : Bool) (blockHash : Hash) : Prop :=
  voteSigningHash crypto height round isNil blockHash =
      localVoteSigningHash crypto height round isNil blockHash →
    votePayload height (u32 round) isNil blockHash = localVotePayload height round isNil blockHash

/-- The two signing hashes are the same in the first round alone. -/
theorem voteSigningHash_eq_local_iff {crypto : Primitives} {height round : Nat} {isNil : Bool}
    {blockHash : Hash} (heightFits : height < 2 ^ 64) (roundFits : round < 2 ^ 32)
    (apart : HashedApart crypto height round isNil blockHash) :
    voteSigningHash crypto height round isNil blockHash =
      localVoteSigningHash crypto height round isNil blockHash ↔ round = 0 := by
  constructor
  · intro same
    exact votePayload_eq_local heightFits heightFits roundFits (Nat.mod_lt _ (by decide)) (apart same)
  · intro first
    subst first
    rw [localVoteSigningHash, localVotePayload_zero]
    rfl

/-- **Recorded evidence.** The two signing hashes of a vote are the same exactly in the first round.
The verifier takes the evidence `insertVote` records exactly when it is of the first round, the
positions of its votes agree and the signer is in the set, as long as the state has the record of
the signer and the key the engine read. The engine does not compare the positions, and no signature
covers them. -/
theorem recorded_evidence_passes_iff {env : Env} {engine : Engine} {container : VoteMap}
    {vote : Vote} {voterId : Nat} {evidence : EquivocationEvidence} {activeSet : List Nat}
    {state : StateView}
    (recorded : evidence ∈ (engine.insertVote env container vote voterId).2.1.equivocations)
    (isNew : evidence ∉ engine.equivocations) (resolved : voterId ≠ INVALID_ID)
    (inRangeA : evidence.voteA.InRange) (inRangeB : evidence.voteB.InRange)
    (registered : (state.getValidator voterId).isSome = true)
    (keyOnRecord : ∀ validator, (env.now engine).stateLookupValidator voterId = some validator →
      state.validatorKeyAtHeight voterId evidence.voteA.height =
        some validator.effectiveConsensusKey)
    (oneHash : ∀ key hash,
      env.crypto.verify (evidence.voteA.signingHash env.crypto) key evidence.voteA.signature = true →
      env.crypto.verify hash key evidence.voteA.signature = true →
        evidence.voteA.signingHash env.crypto = hash)
    (hashedApart : HashedApart env.crypto evidence.voteA.height evidence.voteA.round
      evidence.voteA.isNil evidence.voteA.blockHash) :
    (∀ height round isNil blockHash, height < 2 ^ 64 → round < 2 ^ 32 →
        HashedApart env.crypto height round isNil blockHash →
        (voteSigningHash env.crypto height round isNil blockHash =
          localVoteSigningHash env.crypto height round isNil blockHash ↔ round = 0)) ∧
      ((verifyEquivocationProof env.crypto (proofOf evidence.voteA evidence.voteB) activeSet
          state).isSome = true ↔
        evidence.voteA.round = 0 ∧ IndicesAgree evidence.voteA evidence.voteB ∧
          (activeSet = [] ∨ voterId ∈ activeSet)) := by
  refine ⟨fun _ _ _ _ => voteSigningHash_eq_local_iff, ?_⟩
  rcases Engine.insertVote_cases env container vote voterId engine with
    ⟨_, inserted⟩ | ⟨first, kept, _, _, _, same, sources⟩
  · rw [inserted] at recorded
    exact absurd recorded isNew
  rw [same] at recorded
  rcases sources evidence recorded with old | ⟨isEvidence, verifiedA, verifiedB, valid⟩
  · exact absurd old isNew
  subst isEvidence
  simp only [EquivocationEvidence.isValid, Bool.and_eq_true, Bool.or_eq_true, beq_iff_eq,
    resolved, false_or, Bool.not_eq_true', Bool.and_eq_false_iff, beq_eq_false_iff_ne] at valid
  obtain ⟨⟨⟨⟨⟨heights, rounds⟩, signers⟩, _⟩, isVoter⟩, values⟩ := valid
  have under : ∀ signed : Vote, signed.signerId = voterId → signed.height = first.height →
      engine.verifyVoteSignature env signed voterId = true → SignedUnder env.crypto state signed := by
    intro signed isSigner atHeight verified
    unfold Engine.verifyVoteSignature at verified
    split at verified
    · cases verified
    next validator found =>
      refine ⟨validator.effectiveConsensusKey, ?_, verified⟩
      rw [isSigner, atHeight]
      exact keyOnRecord validator found
  have underA := under first isVoter.symm rfl verifiedA
  have unread : UnreadLater env.crypto state first := by
    intro key atHeight later
    by_contra accepted
    obtain ⟨signedKey, signedAt, verified⟩ := underA
    have sameKey : signedKey = key := Option.some.inj (signedAt.symm.trans atHeight)
    subst sameKey
    have sameHash := oneHash signedKey _ verified (Bool.eq_true_of_not_eq_false accepted)
    exact later ((voteSigningHash_eq_local_iff inRangeA.height inRangeA.round hashedApart).mp sameHash)
  rw [verifyEquivocationProof_proofOf env.crypto inRangeA inRangeB,
    checkEquivocation_isSome_iff (isVoter ▸ resolved) (fun _ => signers) underA
      (under vote (signers.symm.trans isVoter.symm) heights.symm verifiedB) unread, ← isVoter, Exposed]
  tauto

/-- A prevote of the fourth member for the block of the lonely proposer, or for none, under a
position of its choice. -/
def shiftedVote (round signerIndex : Nat) (isNil : Bool) : Vote :=
  let blockHash := if isNil then 0 else (lonelyVote false).blockHash
  { height := 1
    round
    signerIndex
    signerId := 4
    isNil
    blockHash
    signature := signAs 4 (voteSigningHash crypto 1 round isNil blockHash) }

/-- Two votes of the fourth member in the second round arrive at the proposer, which records the
pair. `Core` hashes the first of them in another way, and the verifier refuses the pair. -/
theorem late_evidence_refused :
    (runEvents Engine.FreshStart (env 4 2) 9
        [(inputs 20000 false, .start 1), (inputs 30000 true, .pollTimers),
          (inputs 40000 true, .pollTimers),
          (inputs 40000 false, .onPrevote (shiftedVote 1 3 true)),
          (inputs 40000 false, .onPrevote (shiftedVote 1 3 false))] {}).map
        Engine.equivocations =
      some [{ voteA := shiftedVote 1 3 true, voteB := shiftedVote 1 3 false, signerId := 4 }] ∧
    voteSigningHash crypto 1 1 true 0 ≠ localVoteSigningHash crypto 1 1 true 0 ∧
    verifyEquivocationProof crypto (proofOf (shiftedVote 1 3 true) (shiftedVote 1 3 false))
      (members 4) (stateView 4) = none := by
  decide +kernel

/-- In the first round too: the positions of the votes differ. -/
example :
    (runEvents Engine.FreshStart (env 4 2) 9
        [(inputs 20000 false, .start 1),
          (inputs 20000 false, .onPrevote (shiftedVote 0 3 true)),
          (inputs 20000 false, .onPrevote (shiftedVote 0 1 false))] {}).map
        Engine.equivocations =
      some [{ voteA := shiftedVote 0 3 true, voteB := shiftedVote 0 1 false, signerId := 4 }] ∧
    verifyEquivocationProof crypto (proofOf (shiftedVote 0 3 true) (shiftedVote 0 1 false))
      (members 4) (stateView 4) = none := by
  decide +kernel

theorem unshifted_evidence_passes :
    (verifyEquivocationProof crypto (proofOf (shiftedVote 0 3 true) (shiftedVote 0 3 false))
      (members 4) (stateView 4)).isSome = true := by
  have recorded : (⟨shiftedVote 0 3 true, shiftedVote 0 3 false, 4⟩ : EquivocationEvidence) ∈
      (Engine.insertVote (env 4 2) (Table.empty.emplace 4 (shiftedVote 0 3 true))
        (shiftedVote 0 3 false) 4 {}).2.1.equivocations := by decide +kernel
  refine (recorded_evidence_passes_iff recorded (by decide) (by decide) ?_ ?_ (by decide) ?_ ?_
    ?_).2.mpr ⟨rfl, fun _ _ => rfl, Or.inr (by decide)⟩
  · constructor <;> decide +kernel
  · constructor <;> decide +kernel
  · intro validator found
    exact congrArg (Option.map _) found
  · intro key hash verified other
    exact hash_of_verify verified other
  · exact fun _ => rfl

end Clarity.Consensus
