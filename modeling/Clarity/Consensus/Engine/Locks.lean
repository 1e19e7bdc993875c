import Clarity.Consensus.Engine.Membership

/-!
Contract: the lock discipline of one node below the emergency rounds.

Owns: the invariant of the lock, the valid value and the node's own votes (`Locking`), what
its votes promise to others (`Justified`), and the preservation of both by every move.

The discipline holds as long as a node that precommits without a polka still stands by its
lock: a valid value newer than the lock must not be passed over (`StandsByLock`).
-/

namespace Clarity.Consensus

open Common Crypto Clarity.Core Library Relation

namespace Engine

variable {env : Env} {inputs : Inputs} {grants : Grants} {engine before after : Engine}
  {hash : Hash} {vote : Vote} {isPrecommit : Bool} {block : Block}

/-- A locked node would still prevote its lock. -/
def StandsByLock (engine : Engine) : Prop :=
  engine.locked = true → engine.selectPrevoteHash = some engine.lockedHash

instance (engine : Engine) : Decidable (StandsByLock engine) :=
  inferInstanceAs (Decidable (_ → _))

/-- The node's own support, from what it signed. -/
abbrev Backing (env : Env) (grants : Grants) (engine : Engine) : Bool → Nat → Nat → Hash → Prop :=
  Supported env grants engine.Signed

/-- The node's votes at its height are of the rounds and steps it has been in. -/
structure Voting (engine : Engine) : Prop where
  prevoted : ∀ vote, engine.Signed false vote → vote.height = engine.height →
    vote.round < engine.round ∨ (vote.round = engine.round ∧ engine.step ≠ .propose)
  precommitted : ∀ vote, engine.Signed true vote → vote.height = engine.height →
    vote.round < engine.round ∨
      (vote.round = engine.round ∧ engine.step ≠ .propose ∧ engine.step ≠ .prevote)

structure Locking (env : Env) (grants : Grants) (engine : Engine) : Prop extends Voting engine where
  lockReached : engine.locked = true → engine.lockedRound ≤ engine.round
  lockPolka : engine.locked = true →
    Backing env grants engine false engine.height engine.lockedRound engine.lockedHash
  validReached : engine.validSet = true → engine.validRound ≤ engine.round
  validPolka : engine.validSet = true →
    Backing env grants engine false engine.height engine.validRound engine.validHash
  lockValid : engine.locked = true → engine.validSet = true ∧
    engine.lockedRound ≤ engine.validRound ∧
    (engine.lockedRound = engine.validRound → engine.lockedHash = engine.validHash)
  proposing : engine.step = .propose → (engine.locked = true → engine.lockedRound < engine.round) ∧
    (engine.validSet = true → engine.validRound < engine.round)
  inPrevote : engine.step = .prevote → ∀ vote, engine.Signed false vote →
    vote.height = engine.height → vote.round = engine.round → vote.isNil = false →
    engine.selectPrevoteHash = some vote.blockHash
  holds : ∀ vote, engine.Signed true vote → vote.height = engine.height → vote.isNil = false →
    engine.locked = true ∧
      (engine.lockedHash = vote.blockHash ∨ vote.round < engine.lockedRound) ∧
      (engine.validHash = vote.blockHash ∨ vote.round ≤ engine.validRound)

structure Justified (env : Env) (grants : Grants) (engine : Engine) : Prop where
  backed : ∀ vote, engine.Signed true vote → vote.isNil = false →
    Backing env grants engine false vote.height vote.round vote.blockHash ∨
      ∀ other, engine.Signed false other → other.height = vote.height →
        other.round = vote.round → other.isNil = false → other.blockHash = vote.blockHash
  prevoteAfter : ∀ vote other, engine.Signed true vote → engine.Signed false other →
    other.height = vote.height → vote.isNil = false → other.isNil = false →
    vote.round < other.round → other.blockHash = vote.blockHash ∨
      ∃ round, vote.round ≤ round ∧ round < other.round ∧
        Backing env grants engine false vote.height round other.blockHash
  precommitAfter : ∀ vote other, engine.Signed true vote → engine.Signed true other →
    other.height = vote.height → vote.isNil = false → other.isNil = false →
    vote.round < other.round → other.blockHash = vote.blockHash ∨
      ∃ round, vote.round < round ∧ round ≤ other.round ∧
        Backing env grants engine false vote.height round other.blockHash
  decided : ∀ block, engine.commitBlock = some block → block.header.height = engine.height ∧
    ∃ round, Backing env grants engine true engine.height round (block.hash env.crypto)
  committed : ∀ block, engine.Committed block →
    ∃ round, Backing env grants engine true block.header.height round (block.hash env.crypto)

/-! ## The value a node prevotes -/

/-- A first proposal leaves a value that was already selected. -/
theorem selectPrevoteHash_store (engine : Engine) {proposal : Proposal}
    (first : engine.proposal = none) (selected : engine.selectPrevoteHash = some hash) :
    (engine.storeProposal proposal block).selectPrevoteHash = some hash := by
  have sameLock : (engine.storeProposal proposal block).locked = engine.locked := rfl
  have sameValid : (engine.storeProposal proposal block).validSet = engine.validSet := rfl
  unfold selectPrevoteHash at selected ⊢
  rw [first] at selected
  rw [sameLock, sameValid]
  split at selected
  next locked =>
    rw [if_pos locked]
    exact selected
  next unlocked =>
    rw [if_neg unlocked]
    split at selected
    next valid =>
      rw [if_pos valid]
      exact selected
    · cases selected

/-- A locked node that prevotes another value than its lock prevotes a newer valid value. -/
theorem selectPrevoteHash_locked (locked : engine.locked = true)
    (selected : engine.selectPrevoteHash = some hash) :
    (hash = engine.lockedHash) ∨
      (hash = engine.validHash ∧ engine.validSet = true ∧ engine.lockedRound < engine.validRound) := by
  unfold selectPrevoteHash at selected
  rw [if_pos locked] at selected
  split at selected
  next newer =>
    rw [Bool.and_eq_true, decide_eq_true_eq] at newer
    cases selected
    exact Or.inr ⟨rfl, newer.1, newer.2⟩
  · cases selected
    exact Or.inl rfl

/-- A node that stands by its lock has no other valid value. -/
theorem Locking.standing (locking : Locking env grants engine) (stands : engine.StandsByLock)
    (locked : engine.locked = true) : engine.validHash = engine.lockedHash := by
  obtain ⟨valid, le, same⟩ := locking.lockValid locked
  have selected := stands locked
  unfold selectPrevoteHash at selected
  rw [if_pos locked] at selected
  split at selected
  · exact Option.some.inj selected
  next notNewer =>
    rw [valid, Bool.true_and, decide_eq_true_eq] at notNewer
    exact (same (by omega)).symm

/-! ## The votes a node has cast -/

theorem Backing.grow {height round : Nat}
    (backing : Backing env grants before isPrecommit height round hash)
    (grows : ∀ isPrecommit vote, before.Signed isPrecommit vote → after.Signed isPrecommit vote) :
    Backing env grants after isPrecommit height round hash :=
  backing.mono (fun _ _ delivered => delivered) grows

theorem Voting.prevote_le (voting : Voting engine) (signed : engine.Signed false vote)
    (atHeight : vote.height = engine.height) : vote.round ≤ engine.round :=
  (voting.prevoted vote signed atHeight).elim le_of_lt fun inRound => inRound.1.le

/-- A node that has not reached its precommit step has precommitted in earlier rounds alone. -/
theorem Voting.precommit_lt (voting : Voting engine)
    (step : engine.step = .propose ∨ engine.step = .prevote) (signed : engine.Signed true vote)
    (atHeight : vote.height = engine.height) : vote.round < engine.round := by
  rcases voting.precommitted vote signed atHeight with earlier | ⟨_, notPropose, notPrevote⟩
  · exact earlier
  · exact absurd step (not_or.mpr ⟨notPropose, notPrevote⟩)

/-- The round goes up, or it stays and the step does not go back. -/
theorem move_position (increasing : Grants.Increasing grants)
    (move : Move env inputs grants before after) : before.round < after.round ∨
      (after.round = before.round ∧ (before.step ≠ .propose → after.step ≠ .propose ∧
        (before.step ≠ .prevote → after.step ≠ .prevote))) := by
  cases move.change with
  | newRound round timeouts undecided advances => exact Or.inl (increasing _ _ advances)
  | prevote step => exact Or.inr ⟨rfl, fun notPropose => absurd step notPropose⟩
  | precommit => exact Or.inr ⟨rfl, fun _ => ⟨Step.noConfusion, fun _ => Step.noConfusion⟩⟩
  | lock => exact Or.inr ⟨rfl, fun _ => ⟨Step.noConfusion, fun _ => Step.noConfusion⟩⟩
  | commit => exact Or.inr ⟨rfl, fun _ => ⟨Step.noConfusion, fun _ => Step.noConfusion⟩⟩
  | _ => exact Or.inr ⟨rfl, fun notPropose => ⟨notPropose, id⟩⟩

theorem move_voting (increasing : Grants.Increasing grants)
    (move : Move env inputs grants before after) (voting : Voting before) : Voting after := by
  have height := move_height move
  constructor
  · intro vote signed atHeight
    rcases signed_of_move move signed with old | casts
    · rcases voting.prevoted vote old (atHeight.trans height), move_position increasing move with
        ⟨earlier | ⟨inRound, notPropose⟩, above | ⟨same, keeps⟩⟩
      · exact Or.inl (earlier.trans above)
      · exact Or.inl (earlier.trans_eq same.symm)
      · exact Or.inl (inRound.trans_lt above)
      · exact Or.inr ⟨inRound.trans same.symm, (keeps notPropose).1⟩
    · exact Or.inr ⟨casts.round.trans casts.sameRound.symm, casts.stepAfter ▸ Step.noConfusion⟩
  · intro vote signed atHeight
    rcases signed_of_move move signed with old | casts
    · rcases voting.precommitted vote old (atHeight.trans height),
        move_position increasing move with
        ⟨earlier | ⟨inRound, notPropose, notPrevote⟩, above | ⟨same, keeps⟩⟩
      · exact Or.inl (earlier.trans above)
      · exact Or.inl (earlier.trans_eq same.symm)
      · exact Or.inl (inRound.trans_lt above)
      · exact Or.inr ⟨inRound.trans same.symm, (keeps notPropose).1, (keeps notPropose).2 notPrevote⟩
    · rw [casts.stepAfter]
      exact Or.inr ⟨casts.round.trans casts.sameRound.symm, Step.noConfusion, Step.noConfusion⟩

/-! ## What votes promise -/

/-- A prevote cast after a precommit is for the same value or for one with a polka since. -/
theorem Locking.prevote_after (locking : Locking env grants engine) (step : engine.step = .propose)
    (signed : engine.Signed true vote) (atHeight : vote.height = engine.height)
    (notNil : vote.isNil = false) (selected : engine.selectPrevoteHash = some hash) :
    hash = vote.blockHash ∨ ∃ round, vote.round ≤ round ∧ round < engine.round ∧
      Backing env grants engine false engine.height round hash := by
  obtain ⟨locked, lockFor, validFor⟩ := locking.holds vote signed atHeight notNil
  obtain ⟨lockBefore, validBefore⟩ := locking.proposing step
  rcases selectPrevoteHash_locked locked selected with isLock | ⟨isValid, valid, newer⟩
  · subst isLock
    rcases lockFor with same | later
    · exact Or.inl same
    · exact Or.inr ⟨engine.lockedRound, later.le, lockBefore locked, locking.lockPolka locked⟩
  · subst isValid
    rcases validFor with same | since
    · exact Or.inl same
    · exact Or.inr ⟨engine.validRound, since, validBefore valid, locking.validPolka valid⟩

/-- What the node may precommit at the end of its prevote step: a polka of the round, or the lock
it stands by. -/
structure Choosing (env : Env) (grants : Grants) (engine : Engine) (hash : Hash) : Prop where
  backed : Backing env grants engine false engine.height engine.round hash ∨
    ∀ other, engine.Signed false other → other.height = engine.height →
      other.round = engine.round → other.isNil = false → other.blockHash = hash
  after : ∀ early, engine.Signed true early → early.height = engine.height → early.isNil = false →
    hash = early.blockHash ∨ ∃ round, early.round < round ∧ round ≤ engine.round ∧
      Backing env grants engine false engine.height round hash

theorem Locking.choosing (locking : Locking env grants engine) (step : engine.step = .prevote)
    (polkaBacked : ∀ polka, engine.quorumValue env false = some polka →
      Backing env grants engine false engine.height engine.round polka)
    (stands : engine.quorumValue env false = none → engine.StandsByLock)
    (chosen : castValue env engine true = some hash) : Choosing env grants engine hash := by
  have choice : ((engine.setStep .precommit).lockPolka env).precommitChoice = some hash := chosen
  rcases lockPolka_cases env (engine.setStep .precommit) with ⟨noPolka, same⟩ | ⟨polka, quorum, same⟩
  · rw [same] at choice
    obtain ⟨locked, isLock⟩ := precommitChoice_eq_some choice
    subst isLock
    constructor
    · right
      intro other signed atHeight inRound notNil
      have selected := locking.inPrevote step other signed atHeight inRound notNil
      exact Option.some.inj (selected.symm.trans (stands noPolka locked))
    · intro early signed atHeight notNil
      obtain ⟨_, lockFor, _⟩ := locking.holds early signed atHeight notNil
      refine lockFor.imp id fun newer => ?_
      exact ⟨engine.lockedRound, newer, locking.lockReached locked, locking.lockPolka locked⟩
  · rw [same] at choice
    have isPolka : polka = hash := Option.some.inj choice
    have backed := isPolka ▸ polkaBacked polka quorum
    refine ⟨Or.inl backed, fun early signed atHeight _ => Or.inr ?_⟩
    exact ⟨engine.round, locking.precommit_lt (Or.inr step) signed atHeight, le_rfl, backed⟩

/-- What was promised stays true when one more vote is cast, in line with the lock. -/
theorem Justified.extend {cast : Engine} (justified : Justified env grants before)
    (grows : ∀ isPrecommit vote, before.Signed isPrecommit vote → after.Signed isPrecommit vote)
    (signs : ∀ {isPrecommit vote}, after.Signed isPrecommit vote →
      before.Signed isPrecommit vote ∨ Casts env before cast isPrecommit vote)
    (locking : ∀ {isPrecommit vote}, Casts env before cast isPrecommit vote →
      Locking env grants before)
    (choosing : ∀ {vote}, Casts env before cast true vote → vote.isNil = false →
      Choosing env grants before vote.blockHash)
    (decided : ∀ block, after.commitBlock = some block → block.header.height = after.height ∧
      ∃ round, Backing env grants before true after.height round (block.hash env.crypto))
    (committed : ∀ block, after.Committed block →
      before.Committed block ∨ before.commitBlock = some block) :
    Justified env grants after := by
  -- a move casts one vote
  have single {first second : Vote} (precommit : Casts env before cast true first)
      (prevote : Casts env before cast false second) : False :=
    Step.noConfusion (precommit.step.symm.trans prevote.step)
  refine ⟨?_, ?_, ?_, ?_, ?_⟩
  · intro vote signed notNil
    rcases signs signed with old | casts
    · refine (justified.backed vote old notNil).imp (·.grow grows) fun own => ?_
      intro other otherSigned sameHeight sameRound
      rcases signs otherSigned with otherOld | casts
      · exact own other otherOld sameHeight sameRound
      · -- the precommit would have been signed before the prevote of its round
        have earlier := (locking casts).precommit_lt (Or.inl casts.step) old
          (sameHeight.symm.trans casts.height)
        exact absurd (sameRound.symm.trans casts.round) earlier.ne
    · rw [casts.height, casts.round]
      refine (choosing casts notNil).backed.imp (·.grow grows) fun own => ?_
      intro other otherSigned
      rcases signs otherSigned with otherOld | otherCasts
      · exact own other otherOld
      · exact (single casts otherCasts).elim
  · intro vote other signed otherSigned sameHeight notNil otherNotNil later
    rcases signs signed with old | casts
    · rcases signs otherSigned with otherOld | casts
      · refine (justified.prevoteAfter vote other old otherOld sameHeight notNil otherNotNil later).imp
          id fun backed => ?_
        obtain ⟨round, notBefore, earlier, polka⟩ := backed
        exact ⟨round, notBefore, earlier, polka.grow grows⟩
      · have atHeight : vote.height = before.height := sameHeight.symm.trans casts.height
        rw [casts.round, atHeight]
        refine ((locking casts).prevote_after casts.step old atHeight notNil
          (casts.value otherNotNil)).imp id fun backed => ?_
        obtain ⟨round, notBefore, earlier, polka⟩ := backed
        exact ⟨round, notBefore, earlier, polka.grow grows⟩
    · rcases signs otherSigned with otherOld | otherCasts
      · have notLater := (locking casts).prevote_le otherOld (sameHeight.trans casts.height)
        exact absurd (casts.round ▸ later) notLater.not_gt
      · exact (single casts otherCasts).elim
  · intro vote other signed otherSigned sameHeight notNil otherNotNil later
    rcases signs otherSigned with otherOld | casts
    · rcases signs signed with old | casts
      · refine (justified.precommitAfter vote other old otherOld sameHeight notNil otherNotNil
          later).imp id fun backed => ?_
        obtain ⟨round, above, notAfter, polka⟩ := backed
        exact ⟨round, above, notAfter, polka.grow grows⟩
      · have earlier := (locking casts).precommit_lt (Or.inr casts.step) otherOld
          (sameHeight.trans casts.height)
        exact absurd (casts.round ▸ later) earlier.not_gt
    · rw [casts.round] at later ⊢
      rcases signs signed with old | castsToo
      · have atHeight : vote.height = before.height := sameHeight.symm.trans casts.height
        rw [atHeight]
        refine ((choosing casts otherNotNil).after vote old atHeight notNil).imp id fun backed => ?_
        obtain ⟨round, above, notAfter, polka⟩ := backed
        exact ⟨round, above, notAfter, polka.grow grows⟩
      · exact absurd later castsToo.round.not_lt
  · intro block isDecided
    obtain ⟨atHeight, round, quorum⟩ := decided block isDecided
    exact ⟨atHeight, round, quorum.grow grows⟩
  · intro block isCommitted
    rcases committed block isCommitted with old | isDecided
    · obtain ⟨round, quorum⟩ := justified.committed block old
      exact ⟨round, quorum.grow grows⟩
    · obtain ⟨atHeight, round, quorum⟩ := justified.decided block isDecided
      rw [atHeight]
      exact ⟨round, quorum.grow grows⟩

/-! ## Quorums -/

/-- The polka of the round is support, if there is one. -/
theorem quorumValue_supported (blocks : Blocks env engine) (tallied : Tallied env grants engine)
    (membership : Membership env engine) (pending : engine.pendingHeight = none)
    (quorum : engine.quorumValue env isPrecommit = some hash) :
    Backing env grants engine isPrecommit engine.height engine.round hash :=
  supported_of_quorum blocks tallied membership pending (tallied.current pending isPrecommit)
    (membership.current pending isPrecommit) quorum

/-- A block that is committed has a quorum of precommits in the round it is committed for. -/
theorem blockToCommit_supported {round : Nat} (blocks : Blocks env engine)
    (tallied : Tallied env grants engine) (membership : Membership env engine)
    (pending : engine.pendingHeight = none) (quorum : engine.blockToCommit env round = some block) :
    block.header.height = engine.height ∧
      Backing env grants engine true engine.height round (block.hash env.crypto) := by
  unfold blockToCommit at quorum
  obtain ⟨container, isContainer, quorum⟩ := Option.bind_eq_some_iff.mp quorum
  obtain ⟨hash, value, quorum⟩ := Option.bind_eq_some_iff.mp quorum
  obtain ⟨held, found, quorum⟩ := Option.bind_eq_some_iff.mp quorum
  have member := Table.find?_eq_some_iff.mp found
  dsimp only at quorum
  split at quorum
  · cases quorum
  · cases quorum
    refine ⟨blocks.height _ member, ?_⟩
    -- the commit round and the signatures are not hashed
    have sameHash : hash = held.hash env.crypto := (blocks.hash _ member).symm
    subst sameHash
    unfold commitContainer at isContainer
    split at isContainer
    next current =>
      cases isContainer
      subst current
      exact supported_of_quorum blocks tallied membership pending (tallied.current pending true)
        (membership.current pending true) value
    next past =>
      have inPast := Table.find?_eq_some_iff.mp isContainer
      exact supported_of_quorum blocks tallied membership pending
        (fun entry => tallied.past pending _ inPast entry)
        (fun entry => membership.past pending _ inPast entry) value

/-! ## Every move -/

/-- The grants let a node precommit without a polka only while it stands by its lock. -/
def Grants.Standing (grants : Grants) : Prop :=
  ∀ engine, grants.fallback engine → engine.StandsByLock

theorem move_justified (standing : Grants.Standing grants)
    (move : Move env inputs grants before after) (control : before.Control)
    (blocks : Blocks env before) (tallied : Tallied env grants before)
    (membership : Membership env before)
    (locking : before.pendingHeight = none → Locking env grants before)
    (justified : Justified env grants before) : Justified env grants after := by
  refine justified.extend (fun _ _ => signed_after_move move) (signed_of_move move)
    (fun casts => locking (casts.undecided control).2) ?_ ?_ (fun _ => move_committed move)
  · intro vote casts notNil
    have idle := (casts.undecided control).2
    refine (locking idle).choosing casts.step
      (fun polka quorum => quorumValue_supported blocks tallied membership idle quorum)
      ?_ (casts.value notNil)
    -- no quorum was reached, so only a timeout lets it precommit
    intro noPolka
    have registered := casts.registered
    rw [casts.round] at registered
    cases move.change with
    | precommit _ _ fallback => exact standing before fallback
    | lock polka _ quorum => cases noPolka.symm.trans quorum
    | prevote step => cases step.symm.trans casts.step
    | _ => cases casts.unsigned.symm.trans registered
  · intro block isDecided
    rw [move_height move]
    rcases decided_of_move move isDecided with old | ⟨round, undecided, quorum⟩
    · exact justified.decided block old
    · obtain ⟨atHeight, supported⟩ :=
        blockToCommit_supported blocks tallied membership undecided.2 quorum
      exact ⟨atHeight, round, supported⟩

/-- What the node prevotes in its prevote step stays what it would prevote. -/
theorem move_select (move : Move env inputs grants before after) (inPrevote : after.step = .prevote)
    (selected : before.selectPrevoteHash = some hash) : after.selectPrevoteHash = some hash := by
  cases move.change with
  | newRound => cases inPrevote
  | precommit => cases inPrevote
  | lock => cases inPrevote
  | commit => cases inPrevote
  | valid polka quorum notPrevote => exact absurd inPrevote notPrevote
  | accept proposal block source height round first =>
    exact selectPrevoteHash_store before first selected
  | own proposal block step first =>
    exact selectPrevoteHash_store ((before.emit (.signedProposal proposal)).emit
      (.broadcastProposal proposal)) first selected
  | _ => exact selected

/-- A node that precommits a value is locked on it, and it is the node's valid value. -/
theorem Casts.locks (standing : Grants.Standing grants)
    (move : Move env inputs grants before after) (locking : Locking env grants before)
    (casts : Casts env before after true vote) (notNil : vote.isNil = false) :
    after.locked = true ∧ after.lockedHash = vote.blockHash ∧ after.validHash = vote.blockHash := by
  have choice : ((before.setStep .precommit).lockPolka env).precommitChoice = some vote.blockHash :=
    casts.value notNil
  have registered := casts.registered
  rw [casts.round] at registered
  cases move.change with
  | precommit _ noPolka fallback =>
    rcases lockPolka_cases env (before.setStep .precommit) with ⟨_, same⟩ | ⟨polka, quorum, _⟩
    · rw [same] at choice
      obtain ⟨locked, isLock⟩ := precommitChoice_eq_some choice
      have isValid := locking.standing (standing before fallback) locked
      exact ⟨locked, isLock, isValid.trans isLock⟩
    · cases noPolka.symm.trans quorum
  | lock polka _ isPolka =>
    rcases lockPolka_cases env (before.setStep .precommit) with ⟨noPolka, _⟩ | ⟨other, quorum, same⟩
    · cases isPolka.symm.trans noPolka
    · rw [same] at choice
      have isOther : polka = other := Option.some.inj (isPolka.symm.trans quorum)
      have isHash : polka = vote.blockHash := isOther.trans (Option.some.inj choice)
      exact ⟨rfl, isHash, isHash⟩
  | prevote step => cases step.symm.trans casts.step
  | _ => cases casts.unsigned.symm.trans registered

theorem move_locking (increasing : Grants.Increasing grants) (standing : Grants.Standing grants)
    (move : Move env inputs grants before after)
    (polkaBacked : ∀ polka, before.quorumValue env false = some polka →
      Backing env grants before false before.height before.round polka)
    (locking : Locking env grants before) : Locking env grants after := by
  have voting := move_voting increasing move locking.toVoting
  have grows : ∀ isPrecommit vote, before.Signed isPrecommit vote →
      after.Signed isPrecommit vote := fun _ _ => signed_after_move move
  have proposing : after.step = .propose →
      (after.locked = true → after.lockedRound < after.round) ∧
        (after.validSet = true → after.validRound < after.round) := by
    intro inPropose
    cases move.change with
    | newRound round timeouts undecided advances =>
      have above := increasing _ _ advances
      exact ⟨fun locked => (locking.lockReached locked).trans_lt above,
        fun valid => (locking.validReached valid).trans_lt above⟩
    | prevote => cases inPropose
    | precommit => cases inPropose
    | lock => cases inPropose
    | commit => cases inPropose
    | valid polka quorum notPrevote notPropose => exact absurd inPropose notPropose
    | _ => exact locking.proposing inPropose
  have inPrevote : after.step = .prevote → ∀ vote, after.Signed false vote →
      vote.height = after.height → vote.round = after.round → vote.isNil = false →
      after.selectPrevoteHash = some vote.blockHash := by
    intro step vote signed atHeight inRound notNil
    refine move_select move step ?_
    rcases signed_of_move move signed with old | casts
    · have wasAtHeight := atHeight.trans (move_height move)
      have reached := locking.prevote_le old wasAtHeight
      rcases move_position increasing move with above | ⟨same, keeps⟩
      · exact absurd inRound (reached.trans_lt above).ne
      · have wasInRound := inRound.trans same
        refine locking.inPrevote ?_ vote old wasAtHeight wasInRound notNil
        rcases locking.prevoted vote old wasAtHeight with earlier | ⟨_, notPropose⟩
        · exact absurd wasInRound earlier.ne
        · exact by_contra fun notPrevote => (keeps notPropose).2 notPrevote step
    · exact casts.value notNil
  -- a vote of this move is for the lock; for the others the old lock answers
  have holds : (∀ vote, before.Signed true vote → vote.height = before.height →
      vote.isNil = false → after.locked = true ∧
        (after.lockedHash = vote.blockHash ∨ vote.round < after.lockedRound) ∧
        (after.validHash = vote.blockHash ∨ vote.round ≤ after.validRound)) →
      ∀ vote, after.Signed true vote → vote.height = after.height → vote.isNil = false →
        after.locked = true ∧
          (after.lockedHash = vote.blockHash ∨ vote.round < after.lockedRound) ∧
          (after.validHash = vote.blockHash ∨ vote.round ≤ after.validRound) := by
    intro kept vote signed atHeight notNil
    rcases signed_of_move move signed with old | casts
    · exact kept vote old (atHeight.trans (move_height move)) notNil
    · obtain ⟨locked, isLock, isValid⟩ := casts.locks standing move locking notNil
      exact ⟨locked, Or.inl isLock, Or.inl isValid⟩
  have lockPolka := fun locked => (locking.lockPolka locked).grow grows
  have validPolka := fun valid => (locking.validPolka valid).grow grows
  cases move.change with
  | newRound round timeouts undecided advances =>
    have above := increasing _ _ advances
    exact ⟨voting, fun locked => (locking.lockReached locked).trans above.le, lockPolka,
      fun valid => (locking.validReached valid).trans above.le, validPolka, locking.lockValid,
      proposing, inPrevote, holds locking.holds⟩
  | lock polka step quorum =>
    have backed := (polkaBacked polka quorum).grow grows
    refine ⟨voting, fun _ => le_rfl, fun _ => backed, fun _ => le_rfl, fun _ => backed,
      fun _ => ⟨rfl, le_rfl, fun _ => rfl⟩, proposing, inPrevote, holds ?_⟩
    intro vote old atHeight notNil
    have earlier := locking.precommit_lt (Or.inr step) old atHeight
    exact ⟨rfl, Or.inr earlier, Or.inr earlier.le⟩
  | valid polka quorum notPrevote notPropose newer =>
    refine ⟨voting, locking.lockReached, lockPolka, fun _ => le_rfl,
      fun _ => (polkaBacked polka quorum).grow grows, ?_, proposing, inPrevote, holds ?_⟩
    · intro locked
      obtain ⟨valid, le, _⟩ := locking.lockValid locked
      have below := newer.resolve_left (by simp [valid])
      exact ⟨rfl, locking.lockReached locked, fun same => absurd same (le.trans_lt below).ne⟩
    · intro vote old atHeight notNil
      obtain ⟨locked, lockFor, _⟩ := locking.holds vote old atHeight notNil
      refine ⟨locked, lockFor, Or.inr ?_⟩
      exact (locking.precommitted vote old atHeight).elim le_of_lt fun inRound => inRound.1.le
  | _ =>
    exact ⟨voting, locking.lockReached, lockPolka, locking.validReached, validPolka,
      locking.lockValid, proposing, inPrevote, holds locking.holds⟩

/-- The lock discipline, until the next height is pending, and what it promised. -/
structure Disciplined (env : Env) (grants : Grants) (engine : Engine) : Prop where
  locking : engine.pendingHeight = none → Locking env grants engine
  justified : Justified env grants engine

theorem move_disciplined (increasing : Grants.Increasing grants) (standing : Grants.Standing grants)
    (move : Move env inputs grants before after) (control : before.Control)
    (blocks : Blocks env before) (tallied : Tallied env grants before)
    (membership : Membership env before) (disciplined : Disciplined env grants before) :
    Disciplined env grants after := by
  have idleBefore : after.pendingHeight = none → before.pendingHeight = none := by
    intro idle
    cases move.change with
    | applied => cases idle
    | newRound round timeouts undecided => exact undecided.2
    | _ => exact idle
  refine ⟨fun idle => ?_, move_justified standing move control blocks tallied membership
    disciplined.locking disciplined.justified⟩
  exact move_locking increasing standing move
    (fun polka => quorumValue_supported blocks tallied membership (idleBefore idle))
    (disciplined.locking (idleBefore idle))

end Engine

end Clarity.Consensus
