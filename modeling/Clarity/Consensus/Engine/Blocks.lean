import Clarity.Consensus.Engine.Tally

/-!
Contract: the blocks an engine holds below the emergency rounds.

Owns: that every held block is stored under its own hash, is of the engine's height and
names the committed set, and that this survives every move while the round stays below
`EMERGENCY_ROTATION_ROUNDS`.
-/

namespace Clarity.Consensus

open Common Crypto Clarity.Core Library Relation

/-- What the engine relies on of the block hash: no block has the null hash, and two blocks
with one hash have the same rotation field. -/
structure SoundHash (crypto : Primitives) : Prop where
  nonnull : ∀ block : Block, block.hash crypto ≠ 0
  rotation : ∀ left right : Block, left.hash crypto = right.hash crypto →
    putU64 left.header.emergencyRotation = putU64 right.header.emergencyRotation

namespace Engine

variable {env : Env} {inputs : Inputs} {grants : Grants} {engine before after : Engine}
  {block : Block} {proposal : Proposal}

structure Blocks (env : Env) (engine : Engine) : Prop where
  hash : ∀ entry ∈ engine.proposalsByHash.entries, entry.2.hash env.crypto = entry.1
  height : ∀ entry ∈ engine.proposalsByHash.entries, entry.2.header.height = engine.height
  regular : ∀ entry ∈ engine.proposalsByHash.entries, entry.2.header.emergencyRotation = 0
  proposal : ∀ proposal, engine.proposal = some proposal →
    engine.proposalsByHash.contains proposal.blockHash = true
  timeouts : engine.consecutiveTimeouts ≤ engine.round

/-- The new block of a proposal belongs to the engine's height and committed set. -/
structure Storable (env : Env) (engine : Engine) (proposal : Proposal) (block : Block) : Prop where
  hash : block.hash env.crypto = proposal.blockHash
  height : block.header.height = engine.height
  regular : block.header.emergencyRotation = 0

theorem contains_put {table : Table Hash Block} {hash other : Hash}
    (known : table.contains other = true) : (table.put hash block).contains other = true := by
  unfold Table.contains at known ⊢
  rw [Table.find?_put]
  split
  · rfl
  · exact known

theorem Blocks.store (blocks : Blocks env engine) (storable : Storable env engine proposal block) :
    Blocks env (engine.storeProposal proposal block) := by
  have each : ∀ {Property : Hash × Block → Prop},
      (∀ entry ∈ engine.proposalsByHash.entries, Property entry) →
      Property (proposal.blockHash, block) →
      ∀ entry ∈ (engine.proposalsByHash.put proposal.blockHash block).entries, Property entry := by
    intro Property old new entry member
    rcases Table.mem_put member with ⟨inOld, _⟩ | isNew
    · exact old entry inOld
    · exact isNew ▸ new
  refine ⟨each blocks.hash storable.hash, each blocks.height storable.height,
    each blocks.regular storable.regular, ?_, blocks.timeouts⟩
  intro other isOther
  cases isOther
  simp [storeProposal, Table.contains, Table.find?_put]

/-! ## Proposals of others -/

theorem validateProposal_spec (valid : engine.validateProposal env inputs proposal block = true) :
    block.hash env.crypto = proposal.blockHash ∧ block.header.height = proposal.height ∧
      (engine.proposalsByHash.contains (block.hash env.crypto) = true ∨
        engine.certificateOk env proposal block = true) := by
  unfold validateProposal at valid
  split at valid
  · cases valid
  next sameHash =>
    split at valid
    · cases valid
    next sameHeight =>
      refine ⟨not_not.mp sameHash, not_not.mp sameHeight, ?_⟩
      split at valid
      next known => exact Or.inl known
      · rw [Bool.and_eq_true] at valid
        exact Or.inr valid.1

theorem acceptableBlock_spec
    (acceptable : engine.acceptableBlock env inputs proposal = some block) :
    Block.deserialize proposal.blockBytes = some block ∧
      engine.validateProposal env inputs proposal block = true := by
  unfold acceptableBlock at acceptable
  split at acceptable
  · split at acceptable
    · cases acceptable
    next decoded isDecoded =>
      split at acceptable
      next checks =>
        cases acceptable
        rw [Bool.and_eq_true] at checks
        exact ⟨isDecoded, checks.2⟩
      · cases acceptable
  · cases acceptable

/-! ## Own proposals -/

theorem simulateFresh_header {attempts : Nat} {result : Block × Simulation}
    (ran : simulateFresh env inputs attempts block = some result) :
    result.1.header.height = block.header.height ∧
      result.1.header.emergencyRotation = block.header.emergencyRotation := by
  induction attempts generalizing block with
  | zero => cases ran
  | succ attempts ih =>
    unfold simulateFresh at ran
    dsimp only at ran
    split at ran
    · cases ran
      exact ⟨rfl, rfl⟩
    · split at ran
      · cases ran
      · split at ran
        · cases ran
        · obtain ⟨height, rotation⟩ := ih ran
          exact ⟨height, rotation⟩

theorem candidateBlock_header {reProposing : Bool} (blocks : Blocks env engine)
    (calm : engine.useEmergencySet = false)
    (candidate : engine.candidateBlock env inputs = some (block, reProposing)) :
    block.header.height = engine.height ∧ block.header.emergencyRotation = 0 := by
  unfold candidateBlock at candidate
  split at candidate
  next known found =>
    cases candidate
    obtain ⟨hash, _, stored⟩ := Option.bind_eq_some_iff.mp found
    have member := Table.find?_eq_some_iff.mp stored
    exact ⟨blocks.height _ member, blocks.regular _ member⟩
  · obtain ⟨fresh, isFresh, same⟩ := Option.map_eq_some_iff.mp candidate
    cases same
    unfold freshBlock at isFresh
    dsimp only at isFresh
    rw [if_neg (by simp [calm])] at isFresh
    cases isFresh
    split
    · exact ⟨rfl, rfl⟩
    · split
      · exact ⟨rfl, rfl⟩
      · exact ⟨rfl, rfl⟩

theorem simulatedBlock_header {simulated : Block} {reProposing : Bool}
    (ran : simulatedBlock env inputs block reProposing = some simulated) :
    simulated.header.height = block.header.height ∧
      simulated.header.emergencyRotation = block.header.emergencyRotation := by
  unfold simulatedBlock at ran
  split at ran
  · dsimp only at ran
    split at ran
    · cases ran
      exact ⟨rfl, rfl⟩
    · cases ran
  · obtain ⟨result, isResult, same⟩ := Option.map_eq_some_iff.mp ran
    cases same
    exact simulateFresh_header isResult

theorem makeProposal_storable (blocks : Blocks env engine)
    (below : engine.round < EMERGENCY_ROTATION_ROUNDS)
    (made : engine.makeProposal env inputs = some (proposal, block)) :
    Storable env engine proposal block ∧ proposal.height = engine.height ∧
      proposal.round = engine.round := by
  have timeouts := blocks.timeouts
  have calm : engine.useEmergencySet = false := by
    unfold useEmergencySet
    exact decide_eq_false (by omega)
  obtain ⟨candidate, _, _, isCandidate, _, isSimulated, atHeight, atRound, _, _, hash, _⟩ :=
    makeProposal_spec made
  obtain ⟨height, rotation⟩ := candidateBlock_header blocks calm isCandidate
  obtain ⟨sameHeight, sameRotation⟩ := simulatedBlock_header isSimulated
  exact ⟨⟨hash.symm, sameHeight.trans height, sameRotation.trans rotation⟩, atHeight, atRound⟩

/-! ## Every move -/

theorem Blocks.of_same (blocks : Blocks env before) (height : after.height = before.height)
    (round : after.round = before.round)
    (proposalsByHash : after.proposalsByHash = before.proposalsByHash)
    (proposal : after.proposal = before.proposal)
    (timeouts : after.consecutiveTimeouts = before.consecutiveTimeouts) : Blocks env after where
  hash := proposalsByHash ▸ blocks.hash
  height := by
    rw [proposalsByHash, height]
    exact blocks.height
  regular := proposalsByHash ▸ blocks.regular
  proposal := by
    rw [proposalsByHash, proposal]
    exact blocks.proposal
  timeouts := by
    rw [timeouts, round]
    exact blocks.timeouts

/-- The grants let the round grow only. -/
def Grants.Increasing (grants : Grants) : Prop :=
  ∀ round target, grants.advance round target → round < target

theorem move_round_le (increasing : Grants.Increasing grants)
    (move : Move env inputs grants before after) : before.round ≤ after.round := by
  cases move.change with
  | newRound round timeouts undecided advances => exact (increasing _ _ advances).le
  | _ => exact le_rfl

theorem move_blocks (soundHash : SoundHash env.crypto) (increasing : Grants.Increasing grants)
    (move : Move env inputs grants before after) (below : after.round < EMERGENCY_ROTATION_ROUNDS)
    (blocks : Blocks env before) : Blocks env after := by
  have belowBefore : before.round < EMERGENCY_ROTATION_ROUNDS :=
    (move_round_le increasing move).trans_lt below
  cases move.change with
  | accept proposal block source height round first acceptable =>
    obtain ⟨decoded, valid⟩ := acceptableBlock_spec acceptable
    obtain ⟨sameHash, sameHeight, known | certified⟩ := validateProposal_spec valid
    · have inRange := Block.deserialize_emergencyRotation_lt decoded
      obtain ⟨entry, found⟩ := Option.isSome_iff_exists.mp known
      have member := Table.find?_eq_some_iff.mp found
      have bytes := soundHash.rotation block entry (blocks.hash _ member).symm
      rw [blocks.regular _ member] at bytes
      exact blocks.store ⟨sameHash, sameHeight.trans height,
        putUInt_injective (by omega) (by omega) bytes⟩
    · -- below the emergency rounds no accepted block names the emergency set
      refine blocks.store ⟨sameHash, sameHeight.trans height, ?_⟩
      by_contra rotated
      have emergency : block.header.emergency = true := decide_eq_true (Nat.pos_of_ne_zero rotated)
      unfold certificateOk at certified
      rw [if_pos emergency] at certified
      simp only [Bool.and_eq_true, decide_eq_true_eq] at certified
      omega
  | own proposal block step first unsigned made =>
    have sent : Blocks env ((before.emit (.signedProposal proposal)).emit
        (.broadcastProposal proposal)) := blocks.of_same rfl rfl rfl rfl rfl
    obtain ⟨⟨hash, height, regular⟩, _⟩ := makeProposal_storable blocks belowBefore made
    exact sent.store ⟨hash, height, regular⟩
  | newRound round timeouts undecided advances counted =>
    have above : before.round < round := increasing _ _ advances
    have fewTimeouts := blocks.timeouts
    refine ⟨blocks.hash, blocks.height, blocks.regular, ?_, ?_⟩
    · intro proposal isProposal
      cases isProposal
    · change (if round > 0 then u32 (timeouts + 1) else timeouts) ≤ round
      rw [if_pos (by omega)]
      exact (Nat.mod_le _ _).trans (by omega)
  | applied =>
    exact ⟨blocks.hash, blocks.height, blocks.regular, blocks.proposal, Nat.zero_le _⟩
  | _ => exact blocks.of_same rfl rfl rfl rfl rfl

end Engine

end Clarity.Consensus
