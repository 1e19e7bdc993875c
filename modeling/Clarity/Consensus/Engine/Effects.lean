import Clarity.Consensus.Engine.Propose
import Clarity.Library.Outcome

/-!
Contract: what each change of the engine's state writes.

Owns: for every function of `Engine.Transitions` with a branch, one lemma that lists its
outcomes as updates of the record. A field that an update does not name is then unchanged
by computation.
-/

namespace Clarity.Consensus

open Common Crypto Clarity.Core Library

namespace Engine

variable {env : Env} {inputs : Inputs} {engine : Engine}

/-! ## Recorded votes -/

/-- Evidence is two votes of one signer with a verified signature each. -/
def EvidenceOf (env : Env) (engine : Engine) (first second : Vote) (voterId : Nat)
    (evidence : EquivocationEvidence) : Prop :=
  evidence = { voteA := first, voteB := second, signerId := voterId } ∧
    engine.verifyVoteSignature env first voterId = true ∧
    engine.verifyVoteSignature env second voterId = true ∧ evidence.isValid = true

/-- All evidence is old, or it is that of the two votes. -/
def KeepsEvidence (env : Env) (engine : Engine) (first second : Vote) (voterId : Nat)
    (kept : List EquivocationEvidence) : Prop :=
  ∀ evidence ∈ kept, evidence ∈ engine.equivocations ∨
    EvidenceOf env engine first second voterId evidence

theorem recordEvidence_cases (env : Env) (first second : Vote) (voterId : Nat) (engine : Engine) :
    ∃ kept, engine.recordEvidence env first second voterId = { engine with equivocations := kept } ∧
      KeepsEvidence env engine first second voterId kept := by
  unfold recordEvidence
  split
  next verified =>
    dsimp only
    split
    next new =>
      refine ⟨_, rfl, ?_⟩
      intro evidence member
      have inBuffer : evidence ∈ engine.equivocations ++
          [{ voteA := first, voteB := second, signerId := voterId }] := by
        split at member
        · exact List.mem_of_mem_tail member
        · exact member
      rcases List.mem_append.mp inBuffer with old | isNew
      · exact Or.inl old
      · right
        simp only [Bool.and_eq_true] at verified new
        rw [List.mem_singleton] at isNew
        subst isNew
        exact ⟨rfl, verified.1, verified.2, new.2⟩
    · exact ⟨engine.equivocations, rfl, fun evidence member => Or.inl member⟩
  · exact ⟨engine.equivocations, rfl, fun evidence member => Or.inl member⟩

/-- A vote is new in its container, or it changes at most the evidence. -/
theorem insertVote_cases (env : Env) (container : VoteMap) (vote : Vote) (voterId : Nat)
    (engine : Engine) :
    (container.find? voterId = none ∧ engine.insertVote env container vote voterId =
      (container.emplace voterId vote, engine, .inserted)) ∨
    ∃ first kept result, container.find? voterId = some first ∧ result ≠ .inserted ∧
      engine.insertVote env container vote voterId =
        (container, { engine with equivocations := kept }, result) ∧
      KeepsEvidence env engine first vote voterId kept := by
  unfold insertVote
  cases found : container.find? voterId with
  | none => exact Or.inl ⟨rfl, rfl⟩
  | some first =>
    right
    dsimp only
    split
    · exact ⟨first, engine.equivocations, .duplicate, rfl, by decide, rfl,
        fun evidence member => Or.inl member⟩
    · obtain ⟨kept, same, sources⟩ := recordEvidence_cases env first vote voterId engine
      exact ⟨first, kept, .conflict, rfl, by decide, by rw [same], sources⟩

/-- The vote passes the checks of `recordVote`. -/
structure Countable (env : Env) (engine : Engine) (vote : Vote) : Prop where
  height : vote.height = engine.height
  round : vote.round = engine.round
  signer : engine.resolveVoteSigner env vote ≠ INVALID_ID
  verified : engine.verifyVoteSignature env vote (engine.resolveVoteSigner env vote) = true

/-- A tallied vote is new in its container, changes at most the evidence, or does nothing. -/
theorem tallyVote_cases (env : Env) (vote : Vote) (isPrecommit : Bool) (engine : Engine) :
    engine.tallyVote env vote isPrecommit = (engine, .duplicate) ∨
    (Countable env engine vote ∧
      (engine.votes isPrecommit).find? (engine.resolveVoteSigner env vote) = none ∧
      engine.tallyVote env vote isPrecommit =
        (engine.setVotes isPrecommit ((engine.votes isPrecommit).emplace
          (engine.resolveVoteSigner env vote) vote), .inserted)) ∨
    ∃ first kept result, Countable env engine vote ∧
      (engine.votes isPrecommit).find? (engine.resolveVoteSigner env vote) = some first ∧
      result ≠ .inserted ∧
      engine.tallyVote env vote isPrecommit = ({ engine with equivocations := kept }, result) ∧
      KeepsEvidence env engine first vote (engine.resolveVoteSigner env vote) kept := by
  have putBack : ∀ kept, setVotes isPrecommit (engine.votes isPrecommit)
      { engine with equivocations := kept } = { engine with equivocations := kept } := by
    intro kept
    cases isPrecommit <;> rfl
  unfold tallyVote
  dsimp only
  split
  · exact Or.inl rfl
  next current =>
    split
    · exact Or.inl rfl
    next signer =>
      split
      · exact Or.inl rfl
      next verified =>
        have countable : Countable env engine vote :=
          { height := by_contra fun other => current (Or.inl other)
            round := by_contra fun other => current (Or.inr other)
            signer := signer
            verified := by simpa using verified }
        rcases insertVote_cases env (engine.votes isPrecommit) vote
            (engine.resolveVoteSigner env vote) engine with
          ⟨missing, inserted⟩ | ⟨first, kept, result, found, notNew, same, sources⟩
        · rw [inserted]
          exact Or.inr (Or.inl ⟨countable, missing, rfl⟩)
        · rw [same]
          exact Or.inr (Or.inr ⟨first, kept, result, countable, found, notNew,
            by rw [putBack], sources⟩)

/-- Tallying a vote writes the containers of the round and the evidence alone. -/
theorem tallyVote_frame (env : Env) (vote : Vote) (isPrecommit : Bool) (engine : Engine) :
    ∃ prevotes precommits kept, (engine.tallyVote env vote isPrecommit).1 =
      { engine with prevotes := prevotes, precommits := precommits, equivocations := kept } := by
  rcases tallyVote_cases env vote isPrecommit engine with
    same | ⟨_, _, inserted⟩ | ⟨_, kept, _, _, _, _, conflict, _⟩
  · exact ⟨engine.prevotes, engine.precommits, engine.equivocations, by rw [same]⟩
  · exact ⟨_, _, engine.equivocations, by rw [inserted]; rfl⟩
  · exact ⟨engine.prevotes, engine.precommits, kept, by rw [conflict]⟩

/-- A past precommit is new among those kept for its round, or changes at most the evidence. -/
theorem tallyPast_cases (env : Env) (vote : Vote) (engine : Engine) :
    (((engine.pastPrecommits.find? vote.round).getD .empty).find?
        (engine.resolveVoteSigner env vote) = none ∧
      engine.tallyPast env vote =
        ({ engine with pastPrecommits := evictOldest (engine.pastPrecommits.put vote.round
            (((engine.pastPrecommits.find? vote.round).getD .empty).emplace
              (engine.resolveVoteSigner env vote) vote)) },
          ((engine.pastPrecommits.find? vote.round).getD .empty).emplace
            (engine.resolveVoteSigner env vote) vote, .inserted)) ∨
    ∃ first kept result,
      ((engine.pastPrecommits.find? vote.round).getD .empty).find?
        (engine.resolveVoteSigner env vote) = some first ∧ result ≠ .inserted ∧
      engine.tallyPast env vote =
        ({ engine with
            equivocations := kept
            pastPrecommits := engine.pastPrecommits.put vote.round
              ((engine.pastPrecommits.find? vote.round).getD .empty) },
          (engine.pastPrecommits.find? vote.round).getD .empty, result) ∧
      KeepsEvidence env engine first vote (engine.resolveVoteSigner env vote) kept := by
  unfold tallyPast
  rcases insertVote_cases env ((engine.pastPrecommits.find? vote.round).getD .empty) vote
      (engine.resolveVoteSigner env vote) engine with
    ⟨missing, inserted⟩ | ⟨first, kept, result, found, notNew, same, sources⟩
  · left
    rw [inserted]
    exact ⟨missing, rfl⟩
  · right
    rw [same]
    exact ⟨first, kept, result, found, notNew, by simp [notNew], sources⟩

theorem tallyPast_frame (env : Env) (vote : Vote) (engine : Engine) :
    ∃ past kept, (engine.tallyPast env vote).1 =
      { engine with pastPrecommits := past, equivocations := kept } := by
  rcases tallyPast_cases env vote engine with ⟨_, inserted⟩ | ⟨_, kept, _, _, _, conflict, _⟩
  · exact ⟨_, engine.equivocations, by rw [inserted]⟩
  · exact ⟨_, kept, by rw [conflict]⟩

/-! ## Own votes -/

/-- Signing an own vote does nothing, finds the vote signed before, or registers a new one. -/
theorem signOwnVote_cases (env : Env) (isPrecommit isNil : Bool) (hash : Hash) (engine : Engine) :
    engine.signOwnVote env isPrecommit isNil hash = (engine, none) ∨
      (∃ prior, engine.signedVotes.find? (engine.height, engine.round, isPrecommit) = some prior ∧
        engine.signOwnVote env isPrecommit isNil hash = (engine, some prior)) ∨
      (engine.signedVotes.find? (engine.height, engine.round, isPrecommit) = none ∧
        (env.now engine).myValidatorId ≠ INVALID_ID ∧
        (engine.ownVote env isNil hash).signerIndex ≠ INVALID_INDEX ∧
        engine.signOwnVote env isPrecommit isNil hash =
          (engine.registerVote isPrecommit (engine.ownVote env isNil hash),
            some (engine.ownVote env isNil hash))) := by
  unfold signOwnVote
  split
  · exact Or.inl rfl
  next valid =>
    cases found : engine.signedVotes.find? (engine.height, engine.round, isPrecommit) with
    | some prior => exact Or.inr (Or.inl ⟨prior, rfl, rfl⟩)
    | none =>
      dsimp only
      split
      · exact Or.inl rfl
      next inSet => exact Or.inr (Or.inr ⟨rfl, valid, inSet, rfl⟩)

/-- The engine an own vote leaves behind: as it was, or with a new vote registered. -/
theorem signOwnVote_state (env : Env) (isPrecommit isNil : Bool) (hash : Hash) (engine : Engine) :
    (engine.signOwnVote env isPrecommit isNil hash).1 = engine ∨
      (engine.signedVotes.find? (engine.height, engine.round, isPrecommit) = none ∧
        (env.now engine).myValidatorId ≠ INVALID_ID ∧
        (engine.ownVote env isNil hash).signerIndex ≠ INVALID_INDEX ∧
        (engine.signOwnVote env isPrecommit isNil hash).1 =
          engine.registerVote isPrecommit (engine.ownVote env isNil hash)) := by
  rcases signOwnVote_cases env isPrecommit isNil hash engine with
    none | ⟨_, _, prior⟩ | ⟨missing, valid, inSet, new⟩
  · exact Or.inl (by rw [none])
  · exact Or.inl (by rw [prior])
  · exact Or.inr ⟨missing, valid, inSet, by rw [new]⟩

theorem castPrevote_cases (env : Env) (engine : Engine) :
    (engine.castPrevote env).1 = engine.setStep .prevote ∨
      (engine.signedVotes.find? (engine.height, engine.round, false) = none ∧
        (env.now engine).myValidatorId ≠ INVALID_ID ∧
        ∃ value, value = engine.selectPrevoteHash ∧
          (engine.ownVote env value.isNone (value.getD 0)).signerIndex ≠ INVALID_INDEX ∧
          (engine.castPrevote env).1 = (engine.setStep .prevote).registerVote false
            (engine.ownVote env value.isNone (value.getD 0))) := by
  rcases signOwnVote_state env false (engine.setStep .prevote).selectPrevoteHash.isNone
      ((engine.setStep .prevote).selectPrevoteHash.getD 0) (engine.setStep .prevote) with
    same | ⟨missing, valid, inSet, new⟩
  · exact Or.inl same
  · exact Or.inr ⟨missing, valid, engine.selectPrevoteHash, rfl, inSet, new⟩

/-- Casting a vote writes the step, the registry, the log and the outputs. -/
def voted (step : Step) (walVotes : Table (Nat × Nat × Nat) (Vote × Bool))
    (signedVotes : Table SignedKey Vote) (sent : List Output) (engine : Engine) : Engine :=
  { engine with
    step := step
    walVotes := walVotes
    signedVotes := signedVotes
    outputs := engine.outputs ++ sent }

theorem voted_nil (step : Step) (engine : Engine) :
    engine.voted step engine.walVotes engine.signedVotes [] = engine.setStep step := by
  rw [voted, List.append_nil]
  rfl

theorem castPrevote_frame (env : Env) (engine : Engine) :
    ∃ walVotes signedVotes sent, (∀ output ∈ sent, ∃ vote, output = .signedVote vote false) ∧
      (engine.castPrevote env).1 = engine.voted .prevote walVotes signedVotes sent := by
  rcases castPrevote_cases env engine with same | ⟨_, _, _, _, _, new⟩
  · exact ⟨_, _, [], by simp, same.trans (voted_nil .prevote engine).symm⟩
  · exact ⟨_, _, [_], by simp, new⟩

/-- A polka of the round becomes the valid value and the lock. -/
def lockOn (polka : Hash) (engine : Engine) : Engine :=
  { engine with
    validSet := true
    validHash := polka
    validRound := engine.round
    walLocks := engine.walLocks.put (engine.height, engine.round) polka
    locked := true
    lockedHash := polka
    lockedRound := engine.round }

theorem lockPolka_cases (env : Env) (engine : Engine) :
    (engine.quorumValue env false = none ∧ engine.lockPolka env = engine) ∨
    ∃ polka, engine.quorumValue env false = some polka ∧
      engine.lockPolka env = engine.lockOn polka := by
  unfold lockPolka
  cases found : engine.quorumValue env false with
  | none => exact Or.inl ⟨rfl, rfl⟩
  | some polka => exact Or.inr ⟨polka, rfl, rfl⟩

theorem castPrecommit_cases (env : Env) (engine : Engine) :
    (engine.castPrecommit env).1 = (engine.setStep .precommit).lockPolka env ∨
      ∃ locked value, locked = (engine.setStep .precommit).lockPolka env ∧
        value = locked.precommitChoice ∧
        locked.signedVotes.find? (locked.height, locked.round, true) = none ∧
        (env.now locked).myValidatorId ≠ INVALID_ID ∧
        (locked.ownVote env value.isNone (value.getD 0)).signerIndex ≠ INVALID_INDEX ∧
        (engine.castPrecommit env).1 = locked.registerVote true
          (locked.ownVote env value.isNone (value.getD 0)) := by
  rcases signOwnVote_state env true ((engine.setStep .precommit).lockPolka env).precommitChoice.isNone
      (((engine.setStep .precommit).lockPolka env).precommitChoice.getD 0)
      ((engine.setStep .precommit).lockPolka env) with
    same | ⟨missing, valid, inSet, new⟩
  · exact Or.inl same
  · exact Or.inr ⟨_, _, rfl, rfl, missing, valid, inSet, new⟩

/-- Casting a precommit locks the polka, if there is one. -/
theorem castPrecommit_frame (env : Env) (engine : Engine) :
    ∃ walVotes signedVotes sent, (∀ output ∈ sent, ∃ vote, output = .signedVote vote true) ∧
      ((engine.quorumValue env false = none ∧
        (engine.castPrecommit env).1 = engine.voted .precommit walVotes signedVotes sent) ∨
      ∃ polka, engine.quorumValue env false = some polka ∧
        (engine.castPrecommit env).1 =
          (engine.lockOn polka).voted .precommit walVotes signedVotes sent) := by
  rcases castPrecommit_cases env engine with unsent | ⟨_, _, isLocked, _, _, _, _, sent⟩
  · refine ⟨engine.walVotes, engine.signedVotes, [], by simp, ?_⟩
    rcases lockPolka_cases env (engine.setStep .precommit) with ⟨none, same⟩ | ⟨polka, some, same⟩
    · exact Or.inl ⟨none, (unsent.trans same).trans (voted_nil .precommit engine).symm⟩
    · exact Or.inr ⟨polka, some,
        (unsent.trans same).trans (voted_nil .precommit (engine.lockOn polka)).symm⟩
  · rcases lockPolka_cases env (engine.setStep .precommit) with ⟨none, same⟩ | ⟨polka, some, same⟩
    · rw [isLocked, same] at sent
      exact ⟨_, _, [_], by simp, Or.inl ⟨none, sent⟩⟩
    · rw [isLocked, same] at sent
      exact ⟨_, _, [_], by simp, Or.inr ⟨polka, some, sent⟩⟩

/-- A polka becomes the valid value unless one of this round is already kept. -/
theorem noteValid_cases (polka : Hash) (engine : Engine) : engine.noteValid polka = engine ∨
      ((engine.validSet = false ∨ engine.validRound < engine.round) ∧
        engine.step ≠ .propose ∧
        engine.noteValid polka =
          { engine with validSet := true, validHash := polka, validRound := engine.round }) := by
  unfold noteValid
  split
  next newer =>
    right
    simp only [stepAtLeastPrevote, Bool.and_eq_true, Bool.or_eq_true, Bool.not_eq_true',
      decide_eq_true_eq, beq_iff_eq] at newer
    refine ⟨newer.2, ?_, rfl⟩
    rintro propose
    simp [propose] at newer
  · exact Or.inl rfl

theorem noteValid_frame (polka : Hash) (engine : Engine) :
    ∃ validSet validHash validRound, engine.noteValid polka =
      { engine with validSet := validSet, validHash := validHash, validRound := validRound } := by
  rcases noteValid_cases polka engine with same | ⟨_, _, noted⟩
  · exact ⟨engine.validSet, engine.validHash, engine.validRound, same⟩
  · exact ⟨_, _, _, noted⟩

/-! ## Committing -/

/-- Handing a block on advances the height, or counts a failed attempt and may halt. -/
theorem tryApplyCommit_cases (env : Env) (inputs : Inputs) (engine : Engine) :
    engine.tryApplyCommit env inputs = engine ∨
    (∃ block, engine.commitBlock = some block ∧ inputs.onBlockCommitted block = true ∧
      engine.tryApplyCommit env inputs = engine.commitApplied inputs block) ∨
    ∃ block commitBlock running halted timerRunning attempts next extra,
      engine.commitBlock = some block ∧ inputs.onBlockCommitted block = false ∧
      ((commitBlock = none ∧ running = false) ∨ commitBlock = some block) ∧
      (∀ output ∈ extra, output = Output.consensusHalt) ∧
      engine.tryApplyCommit env inputs =
        { engine with
          outputs := engine.outputs ++ .blockCommitted block false :: extra
          commitBlock := commitBlock
          running := running
          halted := halted
          timerRunning := timerRunning
          commitAttempts := attempts
          nextCommitAttemptMs := next } := by
  unfold tryApplyCommit
  cases decided : engine.commitBlock with
  | none => exact Or.inl rfl
  | some block =>
    dsimp only
    split
    next applied => exact Or.inr (Or.inl ⟨block, rfl, applied, rfl⟩)
    next rejected =>
      right
      right
      have isRejected : inputs.onBlockCommitted block = false := by simpa using rejected
      unfold commitRejected
      dsimp only
      split
      · refine ⟨block, none, false, true, false, engine.commitAttempts + 1,
          engine.nextCommitAttemptMs, [.consensusHalt], rfl, isRejected, Or.inl ⟨rfl, rfl⟩, by simp, ?_⟩
        simp [haltConsensus, emit]
      · refine ⟨block, some block, engine.running, engine.halted, engine.timerRunning,
          engine.commitAttempts + 1, inputs.nowMs + env.config.commitRetryBackoffMs *
            (engine.commitAttempts + 1), [], rfl, isRejected, Or.inr rfl, by simp, ?_⟩
        rw [← decided]
        rfl

/-! ## Timeout votes -/

/-- A timeout vote changes the stored timeout votes and the outputs, which gain no vote. -/
theorem broadcastTimeoutVote_cases (env : Env) (round : Nat) (engine : Engine) : ∃ stored extra,
      engine.broadcastTimeoutVote env round =
        { engine with timeoutVotes := stored, outputs := engine.outputs ++ extra } ∧
      ∀ output ∈ extra, ∃ vote : TimeoutVote,
        output = .signedTimeoutVote vote ∨ output = .broadcastTimeoutVote vote := by
  have unchanged : engine = { engine with
      timeoutVotes := engine.timeoutVotes, outputs := engine.outputs ++ [] } := by
    simp
  unfold broadcastTimeoutVote
  dsimp only
  split
  · exact ⟨engine.timeoutVotes, [], unchanged, by simp⟩
  · split
    · exact ⟨engine.timeoutVotes, [], unchanged, by simp⟩
    · split
      · exact ⟨engine.timeoutVotes, [_], rfl, by simp⟩
      next stored _ =>
        refine ⟨stored, [.signedTimeoutVote (engine.ownTimeoutVote env round),
          .broadcastTimeoutVote (engine.ownTimeoutVote env round)], ?_, by simp⟩
        simp only [emit, List.append_assoc, List.cons_append, List.nil_append]

/-! ## The log -/

/-- A replayed vote is an own vote of the log at this height. -/
theorem mem_replayVotes {height me : Nat} {entry : SignedKey × Vote}
    (member : entry ∈ (engine.replayVotes height me).entries) :
    entry ∈ engine.signedVotes.entries ∨
      ∃ logged ∈ engine.walVotes.entries, logged.1.1 = height ∧ logged.2.1.height = height ∧
        logged.2.1.signerId = me ∧
        entry = ((logged.2.1.height, logged.2.1.round, logged.2.2), logged.2.1) := by
  refine @foldl_keeps _ _ (fun signed => entry ∈ Table.entries signed → _) _
    engine.walVotes.entries (fun logged inLog signed source member => ?_) _ Or.inl member
  split at member
  next own =>
    rcases Table.mem_emplace member with old | isNew
    · exact source old
    · exact Or.inr ⟨logged, inLog, own.1, own.2.1, own.2.2, isNew⟩
  · exact source member

/-- The replayed locks change the lock alone. -/
theorem replayLocks_cases (height : Nat) (engine : Engine) :
    ∃ locked lockedHash lockedRound, engine.replayLocks height =
      { engine with locked := locked, lockedHash := lockedHash, lockedRound := lockedRound } := by
  refine @foldl_keeps _ _ (fun reached => ∃ locked lockedHash lockedRound, reached =
      { engine with locked := locked, lockedHash := lockedHash, lockedRound := lockedRound })
    _ engine.walLocks.entries (fun logged _ reached found => ?_) engine ⟨_, _, _, rfl⟩
  obtain ⟨locked, lockedHash, lockedRound, rfl⟩ := found
  split
  · exact ⟨_, _, _, rfl⟩
  · exact ⟨_, _, _, rfl⟩

/-- A height that opens starts from the reset engine, with the votes and the lock of the log. -/
theorem openHeight_cases (env : Env) (height : Nat) (engine : Engine) :
    ∃ signed locked lockedHash lockedRound validSet validHash validRound timeouts resent,
      (engine.openHeight env height).1 =
        { engine.resetForNewHeight height with
          signedVotes := signed
          locked := locked
          lockedHash := lockedHash
          lockedRound := lockedRound
          validSet := validSet
          validHash := validHash
          validRound := validRound
          consecutiveTimeouts := timeouts
          outputs := engine.outputs ++ resent } ∧
      (∀ entry ∈ signed.entries,
        (env.now (engine.resetForNewHeight height)).myValidatorId ≠ INVALID_ID ∧
        ∃ logged ∈ engine.walVotes.entries, logged.1.1 = height ∧ logged.2.1.height = height ∧
          logged.2.1.signerId = (env.now (engine.resetForNewHeight height)).myValidatorId ∧
          entry = ((logged.2.1.height, logged.2.1.round, logged.2.2), logged.2.1)) ∧
      ∀ output ∈ resent, ∃ vote isPrecommit, output = .broadcastVote vote isPrecommit := by
  have opened : ∃ timeouts, (engine.openHeight env height).1 =
      { ((engine.resetForNewHeight height).replayWalForHeight env height).1 with
        consecutiveTimeouts := timeouts } := by
    unfold openHeight
    dsimp only
    split
    · exact ⟨_, rfl⟩
    · exact ⟨_, rfl⟩
  obtain ⟨timeouts, result⟩ := opened
  rw [result]
  unfold replayWalForHeight
  dsimp only
  split
  · refine ⟨.empty, false, 0, 0, false, 0, 0, timeouts, [], ?_, ?_, by simp⟩
    · rw [List.append_nil]
      rfl
    · intro entry member
      cases member
  next valid =>
    obtain ⟨locked, hash, round, replayed⟩ := replayLocks_cases height
      { engine.resetForNewHeight height with
        signedVotes := (engine.resetForNewHeight height).replayVotes height
          (env.now (engine.resetForNewHeight height)).myValidatorId }
    rw [replayed]
    have sources := fun entry member => And.intro valid ((@mem_replayVotes
      (engine.resetForNewHeight height) height (env.now (engine.resetForNewHeight height)).myValidatorId
      entry member).resolve_left List.not_mem_nil)
    have resent (signed : Table SignedKey Vote) : ∀ output ∈ signed.entries.map fun entry =>
        Output.broadcastVote entry.2 entry.1.2.2,
          ∃ vote isPrecommit, output = .broadcastVote vote isPrecommit :=
      List.forall_mem_map.mpr fun entry _ => ⟨entry.2, entry.1.2.2, rfl⟩
    cases locked with
    | true => exact ⟨_, true, hash, round, true, hash, round, timeouts, _, rfl, sources, resent _⟩
    | false => exact ⟨_, false, hash, round, false, 0, 0, timeouts, _, rfl, sources, resent _⟩

theorem openHeight_fresh {height : Nat}
    (noVotes : ∀ logged ∈ engine.walVotes.entries, logged.1.1 ≠ height)
    (noLocks : ∀ logged ∈ engine.walLocks.entries, logged.1.1 ≠ height) :
    engine.openHeight env height = (engine.resetForNewHeight height, 0) := by
  have noReplay : (engine.resetForNewHeight height).replayVotes height
      (env.now (engine.resetForNewHeight height)).myValidatorId = .empty :=
    @foldl_keeps _ _ (· = Table.empty) _ engine.walVotes.entries
      (fun logged inLog _ same => (if_neg fun own => noVotes logged inLog own.1).trans same) _ rfl
  have noLock : ({ engine.resetForNewHeight height with signedVotes := .empty } : Engine).replayLocks
      height = engine.resetForNewHeight height :=
    @foldl_keeps _ _ (· = engine.resetForNewHeight height) _ engine.walLocks.entries
      (fun logged inLog _ same => (if_neg fun own => noLocks logged inLog own.1).trans same) _ rfl
  have replayed : (engine.resetForNewHeight height).replayWalForHeight env height =
      (engine.resetForNewHeight height, 0) := by
    unfold replayWalForHeight
    dsimp only
    split
    · rfl
    · rw [noReplay, noLock]
      simp [resetForNewHeight, Table.empty]
  unfold openHeight
  rw [replayed]
  rfl

/-! ## Own proposals -/

/-- What `propose` sends: the proposal of a candidate block that was simulated. -/
theorem makeProposal_spec {proposal : Proposal} {block : Block}
    (made : engine.makeProposal env inputs = some (proposal, block)) :
    ∃ candidate reProposing signerSet,
      engine.candidateBlock env inputs = some (candidate, reProposing) ∧
      engine.proposerSetFor env (env.now engine).myValidatorId engine.round
        candidate.header.emergency = some signerSet ∧
      simulatedBlock env inputs candidate reProposing = some block ∧
      proposal.height = engine.height ∧ proposal.round = engine.round ∧
      proposal.signerId = (env.now engine).myValidatorId ∧
      proposal.signerIndex = engine.indexInSet env proposal.signerId signerSet ∧
      proposal.blockHash = block.hash env.crypto ∧ proposal.blockBytes = block.serialize := by
  unfold makeProposal at made
  obtain ⟨⟨candidate, reProposing⟩, isCandidate, made⟩ := Option.bind_eq_some_iff.mp made
  obtain ⟨signerSet, entitled, made⟩ := Option.bind_eq_some_iff.mp made
  obtain ⟨simulated, isSimulated, made⟩ := Option.bind_eq_some_iff.mp made
  cases made
  exact ⟨candidate, reProposing, signerSet, isCandidate, entitled, isSimulated, rfl, rfl, rfl, rfl,
    rfl, rfl⟩

end Engine

end Clarity.Consensus
