import Clarity.Library.LockedVoting
import Clarity.Consensus.Engine.Safety
import Clarity.Consensus.Committee

/-!
Contract: agreement inside one height, over every schedule of a network.

Owns: the theorem that honest nodes hand on blocks of one hash for one height as long as
locks stand, that locks follow a decision, and a schedule on which a lock does not stand and two
blocks are handed on.
-/

namespace Clarity.Consensus

open Common Crypto Clarity.Core Library Relation

variable {node : Nat}

/-- A node whose prevote step times out without a polka stands by its lock. -/
def LocksStand (env : Env) (inputs : Inputs) (event : Event) (engine : Engine) : Prop :=
  Engine.PrevoteTimeout env inputs event engine → engine.StandsByLock

instance (env : Env) (inputs : Inputs) (event : Event) (engine : Engine) :
    Decidable (LocksStand env inputs event engine) :=
  inferInstanceAs (Decidable (_ ∧ _ ∧ _ ∧ _ ∧ _ → _))

namespace Network

variable {network : Network} {system : System} {ballots : Ballots}

/-! ## Each node keeps its invariant -/

/-- What the engines of the network may rely on, given what was signed. -/
def grants (network : Network) (ballots : Ballots) : Grants where
  delivered := network.Authentic ballots
  proposed := fun _ => True
  fallback := Engine.StandsByLock
  advance := fun round target => round < target

theorem allows_of_step {inputs : Inputs} {event : Event}
    (covers : ∀ id isPrecommit vote, system.ballots id isPrecommit vote →
      ballots id isPrecommit vote)
    (authentic : network.AuthenticEvent system.ballots event)
    (allowed : LocksStand (network.env node) inputs event (system node))
    (below : (system node).round < EMERGENCY_ROTATION_ROUNDS) :
    Engine.Allows (network.env node) inputs (network.grants ballots) event (system node) := by
  have widen : ∀ isPrecommit vote, network.Authentic system.ballots isPrecommit vote →
      network.Authentic ballots isPrecommit vote :=
    fun isPrecommit vote isAuthentic id honest verifies notNil =>
      let ⟨ballot, signed, isCast⟩ := isAuthentic id honest verifies notNil
      ⟨ballot, covers id isPrecommit ballot signed, isCast⟩
  refine ⟨fun _ _ advances => advances, fun _ _ => trivial, ?_, ?_, ?_, ?_⟩
  · rintro vote rfl
    exact widen false vote authentic
  · rintro vote rfl
    exact widen true vote authentic
  · intro timeout
    have stands : (system node).StandsByLock := allowed timeout
    obtain ⟨_, _, result, _⟩ := Engine.broadcastTimeoutVote_cases (network.env node)
      (system node).round ((system node).setTimer false)
    rw [result]
    exact stands
  · intro _ _
    have small : EMERGENCY_ROTATION_ROUNDS < 2 ^ 32 := by decide
    change (system node).round < ((system node).round + 1) % 2 ^ 32
    omega

theorem run_safe (run : network.Run LocksStand system)
    (covers : ∀ id isPrecommit vote, system.ballots id isPrecommit vote →
      ballots id isPrecommit vote) (honest : network.honest node = true) :
    Engine.Safe (network.env node) (network.grants ballots) (system node) ∧
      (system node).Sourced (network.grants ballots) ∧
      (system node).round < EMERGENCY_ROTATION_ROUNDS := by
  induction run generalizing node with
  | initial =>
    have startsBelow : 0 < EMERGENCY_ROTATION_ROUNDS := by decide
    refine ⟨Engine.safe_initial _ _, ⟨?_, fun _ _ => trivial⟩, startsBelow⟩
    rintro isPrecommit vote (inPending | inRound | inHeight)
    · cases isPrecommit <;> cases inPending
    · cases isPrecommit <;> exact absurd inRound (not_inStore_empty vote)
    · cases isPrecommit <;> exact absurd inHeight (not_inStore_empty vote)
  | @step system mover fuel event inputs after run moverHonest authentic fresh allowed ran below
      ih =>
      -- what was signed before the step is still signed after it
      have coversBefore : ∀ id isPrecommit vote, system.ballots id isPrecommit vote →
          ballots id isPrecommit vote := by
        intro id isPrecommit vote signed
        apply covers
        unfold System.ballots
        by_cases isMover : id = mover
        · subst isMover
          rw [Function.update_self]
          exact Engine.handle_signed signed ran
        · rw [Function.update_of_ne isMover]
          exact signed
      by_cases isMover : node = mover
      · subst isMover
        obtain ⟨safe, sourced, belowBefore⟩ := ih coversBefore honest
        have soundHash : SoundHash (network.env node).crypto :=
          network.sameCrypto node honest ▸ network.soundHash
        rw [Function.update_self]
        obtain ⟨safeAfter, sourcedAfter⟩ := Engine.handle_safe soundHash (fun _ _ advances => advances)
          (fun _ stands => stands) safe sourced
          (allows_of_step coversBefore authentic allowed belowBefore) fresh ran below
        exact ⟨safeAfter, sourcedAfter, below⟩
      · rw [Function.update_of_ne isMover]
        exact ih coversBefore honest

/-! ## Quorums of the network -/

/-- A quorum of the committed set whose honest members all cast this vote. -/
def Endorsed (network : Network) (ballots : Ballots) (isPrecommit : Bool) (height round : Nat)
    (hash : Hash) : Prop :=
  ∃ voters, IsQuorum (network.committed height) (bftQuorum (network.committed height).length) voters ∧
    ∀ id ∈ voters, network.honest id = true → Cast ballots isPrecommit height id round hash

/-- What a node has seen a quorum for, the network endorsed. -/
theorem endorsed_of_supported (honest : network.honest node = true) {isPrecommit : Bool}
    {height round : Nat} {hash : Hash}
    (supported : Supported (network.env node) (network.grants system.ballots) (system node).Signed
      isPrecommit height round hash) :
    network.Endorsed system.ballots isPrecommit height round hash := by
  obtain ⟨voters, quorum, votes⟩ := supported
  rw [network.sameSet node height honest] at quorum
  refine ⟨voters, quorum, ?_⟩
  intro id member idHonest
  obtain ⟨vote, atHeight, inRound, notNil, forHash, source⟩ := votes id member
  rcases source with ⟨delivered, validator, found, verified⟩ | ⟨own, isMe⟩
  · rw [network.sameLookup node height honest] at found
    rw [network.sameCrypto node honest] at verified
    have verifies : network.Verifies id vote := ⟨validator, atHeight.symm ▸ found, verified⟩
    have cast := delivered id idHonest verifies notNil
    rwa [atHeight, inRound, forHash] at cast
  · rw [network.identity node height honest] at isMe
    subst isMe
    exact ⟨vote, own, atHeight, inRound, notNil, forHash⟩

/-- Two endorsements of one height share an honest node. -/
theorem Endorsed.meet {left right : Bool} {height leftRound rightRound : Nat}
    {leftHash rightHash : Hash}
    (isLeft : network.Endorsed ballots left height leftRound leftHash)
    (isRight : network.Endorsed ballots right height rightRound rightHash) :
    ∃ id, network.honest id = true ∧ Cast ballots left height id leftRound leftHash ∧
      Cast ballots right height id rightRound rightHash := by
  obtain ⟨leftVoters, leftQuorum, leftVotes⟩ := isLeft
  obtain ⟨rightVoters, rightQuorum, rightVotes⟩ := isRight
  have few := network.fewFaulty height
  have large : (network.committed height).length +
      ((network.committed height).filter fun id => network.honest id = false).length <
      bftQuorum (network.committed height).length + bftQuorum (network.committed height).length := by
    unfold bftQuorum
    omega
  obtain ⟨id, inLeft, inRight, notFaulty⟩ := leftQuorum.meet rightQuorum large
  have honest : network.honest id = true := by simpa using notFaulty
  exact ⟨id, honest, leftVotes id inLeft honest, rightVotes id inRight honest⟩

/-! ## Agreement -/

theorem lockDiscipline (run : network.Run LocksStand system) (height : Nat) : LockDiscipline
      (fun id round hash => network.honest id = true ∧ Cast system.ballots false height id round hash)
      (fun id round hash => network.honest id = true ∧ Cast system.ballots true height id round hash)
      (network.Endorsed system.ballots false height)
      (network.Endorsed system.ballots true height) := by
  have safe : ∀ {id}, network.honest id = true →
      Engine.Safe (network.env id) (network.grants system.ballots) (system id) :=
    fun honest => (run_safe run (fun _ _ _ signed => signed) honest).1
  have one : ∀ {isPrecommit id round left right}, network.honest id = true →
      Cast system.ballots isPrecommit height id round left →
      Cast system.ballots isPrecommit height id round right → left = right := by
    rintro isPrecommit id round left right honest ⟨first, firstSigned, firstHeight, firstRound, _, rfl⟩
      ⟨second, secondSigned, secondHeight, secondRound, _, rfl⟩
    rw [(safe honest).registry.unique isPrecommit first second firstSigned secondSigned
      (firstHeight.trans secondHeight.symm) (firstRound.trans secondRound.symm)]
  refine ⟨?_, ?_, ?_, ?_, ?_, ?_, ?_, ?_⟩
  · rintro id round left right ⟨honest, first⟩ ⟨_, second⟩
    exact one honest first second
  · rintro id round left right ⟨honest, first⟩ ⟨_, second⟩
    exact one honest first second
  · rintro id round hash ⟨honest, vote, signed, rfl, rfl, notNil, rfl⟩
    rcases (safe honest).disciplined.justified.backed vote signed notNil with polka | own
    · exact Or.inl (endorsed_of_supported honest polka)
    · right
      rintro other ⟨_, prevote, prevoteSigned, atHeight, inRound, prevoteNotNil, rfl⟩
      exact own prevote prevoteSigned atHeight inRound prevoteNotNil
  · rintro id early late hash other ⟨honest, vote, signed, rfl, rfl, notNil, rfl⟩
      ⟨_, prevote, prevoteSigned, atHeight, rfl, prevoteNotNil, rfl⟩ later
    rcases (safe honest).disciplined.justified.prevoteAfter vote prevote signed prevoteSigned atHeight
      notNil prevoteNotNil later with equal | ⟨round, notBefore, before, polka⟩
    · exact Or.inl equal
    · exact Or.inr ⟨round, notBefore, before, endorsed_of_supported honest polka⟩
  · rintro id early late hash other ⟨honest, vote, signed, rfl, rfl, notNil, rfl⟩
      ⟨_, precommit, precommitSigned, atHeight, rfl, precommitNotNil, rfl⟩ later
    rcases (safe honest).disciplined.justified.precommitAfter vote precommit signed precommitSigned
      atHeight notNil precommitNotNil later with equal | ⟨round, after, notAfter, polka⟩
    · exact Or.inl equal
    · exact Or.inr ⟨round, after, notAfter, endorsed_of_supported honest polka⟩
  · intro round left right isLeft isRight
    obtain ⟨id, honest, first, second⟩ := isLeft.meet isRight
    exact ⟨id, ⟨honest, first⟩, ⟨honest, second⟩⟩
  · intro early late hash other decided polka
    obtain ⟨id, honest, precommit, prevote⟩ := decided.meet polka
    exact ⟨id, ⟨honest, precommit⟩, ⟨honest, prevote⟩⟩
  · intro early late hash other decided otherDecided
    obtain ⟨id, honest, first, second⟩ := decided.meet otherDecided
    exact ⟨id, ⟨honest, first⟩, ⟨honest, second⟩⟩

/-- What an honest node hands on was endorsed with precommits. -/
theorem endorsed_of_committed (run : network.Run LocksStand system)
    (honest : network.honest node = true) {block : Block} (committed : (system node).Committed block) :
    ∃ round, network.Endorsed system.ballots true block.header.height round
      (block.hash network.crypto) := by
  obtain ⟨safe, _⟩ := run_safe run (fun _ _ _ signed => signed) honest
  obtain ⟨round, supported⟩ := safe.disciplined.justified.committed block committed
  rw [network.sameCrypto node honest] at supported
  exact ⟨round, endorsed_of_supported honest supported⟩

/-- **Agreement.** In every run in which locks stand, honest nodes hand on blocks of one hash
for one height. -/
theorem committed_hash_eq (run : network.Run LocksStand system) {left right : Nat}
    (leftHonest : network.honest left = true) (rightHonest : network.honest right = true)
    {leftBlock rightBlock : Block} (leftCommitted : (system left).Committed leftBlock)
    (rightCommitted : (system right).Committed rightBlock)
    (sameHeight : leftBlock.header.height = rightBlock.header.height) :
    leftBlock.hash network.crypto = rightBlock.hash network.crypto := by
  obtain ⟨leftRound, leftEndorsed⟩ := endorsed_of_committed run leftHonest leftCommitted
  obtain ⟨rightRound, rightEndorsed⟩ := endorsed_of_committed run rightHonest rightCommitted
  rw [sameHeight] at leftEndorsed
  exact (lockDiscipline run rightBlock.header.height).decided_eq leftEndorsed rightEndorsed

/-- From this round on, what honest nodes that are still at the height are locked on, and what they
hold as valid, is this value. -/
def Settled (network : Network) (system : System) (height round : Nat) (hash : Hash) : Prop :=
  ∀ node, network.honest node = true → (system node).height = height →
    (system node).pendingHeight = none →
    ((system node).locked = true → round ≤ (system node).lockedRound →
      (system node).lockedHash = hash) ∧
    ((system node).validSet = true → round ≤ (system node).validRound →
      (system node).validHash = hash)

/-- **Locks follow decisions.** A block that an honest node hands on was endorsed in a round from
which on no honest node is locked on, or holds as valid, another value. -/
theorem settled_of_committed (run : network.Run LocksStand system)
    (honest : network.honest node = true) {block : Block} (committed : (system node).Committed block) :
    ∃ round, network.Endorsed system.ballots true block.header.height round
        (block.hash network.crypto) ∧
      network.Settled system block.header.height round (block.hash network.crypto) := by
  obtain ⟨round, endorsed⟩ := endorsed_of_committed run honest committed
  have settled := (lockDiscipline run block.header.height).polka_eq_of_decided endorsed
  refine ⟨round, endorsed, fun other otherHonest sameHeight idle => ?_⟩
  obtain ⟨safe, _⟩ := run_safe run (fun _ _ _ signed => signed) otherHonest
  have locking := safe.disciplined.locking idle
  rw [← sameHeight] at settled
  constructor
  · intro locked later
    exact settled _ _ later (endorsed_of_supported otherHonest (locking.lockPolka locked))
  · intro valid later
    exact settled _ _ later (endorsed_of_supported otherHonest (locking.validPolka valid))

end Network

/-! ## A round in which every lock stands -/

namespace Committee

/-- The proposer of height 5 and two more honest members vote for its block in round 0, and two
of them hand it on. -/
def calmSchedule : List Network.Action :=
  [start 5 2, start 5 1, start 5 3,
    deliverProposal 2 1, deliverProposal 2 3,
    deliverVote false 0 2 1, deliverVote false 0 3 1,
    deliverVote false 0 1 3, deliverVote false 0 2 3,
    deliverVote false 0 1 2, deliverVote false 0 3 2,
    deliverVote true 0 2 1, deliverVote true 0 3 1,
    deliverVote true 0 1 3, deliverVote true 0 2 3]

def firstCommitted (system : System) (node : Nat) : Option Block :=
  (system node).outputs.findSome? fun output =>
    match output with
    | .blockCommitted block _ => some block
    | _ => none

theorem committed_of_first {system : System} {block : Block}
    (first : firstCommitted system node = some block) : (system node).Committed block := by
  obtain ⟨output, member, isBlock⟩ := List.exists_of_findSome?_eq_some first
  split at isBlock
  next committed applied =>
    cases isBlock
    exact ⟨applied, member⟩
  · cases isBlock

def bothCommitted (system : System) (left right : Nat) : Option (Block × Block) := do
  let leftBlock ← firstCommitted system left
  let rightBlock ← firstCommitted system right
  if leftBlock.header.height = rightBlock.header.height then some (leftBlock, rightBlock) else none

theorem bothCommitted_spec {system : System} {left right : Nat} {blocks : Block × Block}
    (both : bothCommitted system left right = some blocks) :
    (system left).Committed blocks.1 ∧ (system right).Committed blocks.2 ∧
      blocks.1.header.height = blocks.2.header.height := by
  obtain ⟨leftBlock, first, both⟩ := Option.bind_eq_some_iff.mp both
  obtain ⟨rightBlock, second, both⟩ := Option.bind_eq_some_iff.mp both
  split at both
  next sameHeight =>
    cases both
    exact ⟨committed_of_first first, committed_of_first second, sameHeight⟩
  · cases both

def calmRun : Option System :=
  network.execute (members 4) LocksStand 9 calmSchedule fun _ => Engine.initial .empty .empty

theorem calm_run_agrees : ∃ system leftBlock rightBlock, network.Run LocksStand system ∧
      (system 1).Committed leftBlock ∧ (system 3).Committed rightBlock ∧
      leftBlock.header.height = rightBlock.header.height ∧
      leftBlock.hash network.crypto = rightBlock.hash network.crypto := by
  have ran : (calmRun.bind fun system => bothCommitted system 1 3).isSome = true := by decide +kernel
  obtain ⟨blocks, isBlocks⟩ := Option.isSome_iff_exists.mp ran
  obtain ⟨system, isSystem, both⟩ := Option.bind_eq_some_iff.mp isBlocks
  have run := Network.run_of_execute network_closed .initial isSystem
  obtain ⟨left, right, sameHeight⟩ := bothCommitted_spec both
  exact ⟨system, blocks.1, blocks.2, run, left, right, sameHeight,
    Network.committed_hash_eq run rfl rfl left right sameHeight⟩

theorem calm_run_settles : ∃ system block round, network.Run LocksStand system ∧
      (system 1).Committed block ∧
      network.Settled system block.header.height round (block.hash network.crypto) := by
  have ran : (calmRun.bind fun system => bothCommitted system 1 3).isSome = true := by decide +kernel
  obtain ⟨blocks, isBlocks⟩ := Option.isSome_iff_exists.mp ran
  obtain ⟨system, isSystem, both⟩ := Option.bind_eq_some_iff.mp isBlocks
  have run := Network.run_of_execute network_closed .initial isSystem
  have committed := (bothCommitted_spec both).1
  obtain ⟨round, _, settled⟩ := Network.settled_of_committed run rfl committed
  exact ⟨system, blocks.1, round, run, committed, settled⟩

/-! ## A fork on a superseded lock -/

/-- Honest members 1, 2 and 3, Byzantine member 4. In round 0 only member 1 sees the polka for
the first block and locks it. In round 1 a second block gets a polka that member 1 sees after it
has precommitted its lock again: its valid value is now the second block. In round 2 the
Byzantine member proposes the first block again, member 3 locks it, and member 1, which prevotes
its newer valid value, times out and precommits its superseded lock: member 3 hands on the first
block. In round 3 member 1 proposes its valid value, and hands on the second block. -/
def forkSchedule : List Network.Action :=
  let first := valueOf 0 2
  let second := valueOf 1 3
  [start 5 2, start 5 1, start 5 3,
    deliverProposal 2 1, deliverVote false 0 2 1, byzantineVote first false 0 1,
    timeout 1, timeout 2, timeout 2, timeout 3, timeout 3, timeout 3,
    deliverProposal 3 1, timeout 1, deliverProposal 3 2,
    deliverVote false 1 3 1, deliverVote false 1 2 1, byzantineVote second false 1 1,
    timeout 1, timeout 2, timeout 2, timeout 3, timeout 3,
    byzantineProposal first 2 2 2, byzantineProposal first 2 2 3,
    deliverVote false 2 2 3, byzantineVote first false 2 3,
    timeout 1, timeout 1, deliverVote true 2 1 3, byzantineVote first true 2 3,
    timeout 2, timeout 2, timeout 1,
    deliverProposal 1 2, deliverVote false 3 2 1, byzantineVote second false 3 1,
    deliverVote false 3 1 2, byzantineVote second false 3 2,
    deliverVote true 3 2 1, byzantineVote second true 3 1]

def forkRun : Option System :=
  network.execute (members 4) (fun _ _ _ _ => True) 9 forkSchedule fun _ =>
    Engine.initial .empty .empty

/-- Two honest nodes hand on different blocks for one height. -/
theorem honest_nodes_fork :
    ∃ system leftBlock rightBlock, network.Run (fun _ _ _ _ => True) system ∧
      network.honest 1 = true ∧ network.honest 3 = true ∧
      (system 1).Committed leftBlock ∧ (system 3).Committed rightBlock ∧
      leftBlock.header.height = rightBlock.header.height ∧
      leftBlock.hash network.crypto ≠ rightBlock.hash network.crypto := by
  have ran : ((forkRun.bind fun system => bothCommitted system 1 3).map fun blocks =>
      decide (blocks.1.hash network.crypto ≠ blocks.2.hash network.crypto)) = some true := by
    decide +kernel
  obtain ⟨blocks, isBlocks, differ⟩ := Option.map_eq_some_iff.mp ran
  obtain ⟨system, isSystem, both⟩ := Option.bind_eq_some_iff.mp isBlocks
  obtain ⟨left, right, sameHeight⟩ := bothCommitted_spec both
  exact ⟨system, blocks.1, blocks.2, Network.run_of_execute network_closed .initial isSystem, rfl,
    rfl, left, right, sameHeight, of_decide_eq_true differ⟩

end Committee

end Clarity.Consensus
