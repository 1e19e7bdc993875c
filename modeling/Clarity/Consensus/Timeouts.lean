import Clarity.Consensus.Bodies

/-!
Contract: the counter of consecutive timeouts is the round.

Owns: that the first round of a height sets the counter to its number, that every path of acts
keeps it there, and what this makes of the emergency set in every run in which the round number
does not wrap around.
-/

namespace Clarity.Consensus

open Common Crypto Clarity.Core Library Relation

namespace Engine

variable {env : Env} {inputs : Inputs} {grants : Grants} {engine before after : Engine}
  {event : Event} {height : Nat}

theorem Acts.timed (increasing : Grants.Increasing grants)
    (path : Acts env inputs grants before after) (typed : after.round < 2 ^ 32)
    (timed : before.Timed) : after.Timed := by
  induction path with
  | refl => exact timed
  | tail _ act ih =>
    have grows := move_round_le increasing act.move
    exact act.timed grows typed (ih (grows.trans_lt typed))

/-- The replay of the log leaves the cleared counter alone. -/
theorem replayWalForHeight_timeouts :
    ((engine.resetForNewHeight height).replayWalForHeight env height).1.consecutiveTimeouts = 0 := by
  unfold replayWalForHeight
  dsimp only
  split
  · rfl
  · obtain ⟨locked, hash, round, replayed⟩ := replayLocks_cases height
      { engine.resetForNewHeight height with
        signedVotes := (engine.resetForNewHeight height).replayVotes height
          (env.now (engine.resetForNewHeight height)).myValidatorId }
    rw [replayed]
    cases locked with
    | false => rfl
    | true => rfl

/-- A height resumes with the counter at the round it resumes in. -/
theorem timed_openHeight (typed : (engine.openHeight env height).2 < 2 ^ 32) :
    ((engine.openHeight env height).1.beginRound env (engine.openHeight env height).2).Timed := by
  intro _
  change (if (engine.openHeight env height).2 > 0 then
    u32 ((engine.openHeight env height).1.consecutiveTimeouts + 1)
    else (engine.openHeight env height).1.consecutiveTimeouts) = (engine.openHeight env height).2
  unfold openHeight at typed ⊢
  dsimp only at typed ⊢
  by_cases resumed : ((engine.resetForNewHeight height).replayWalForHeight env height).2 > 0
  · rw [if_pos resumed] at typed ⊢
    rw [if_pos resumed, Nat.sub_add_cancel resumed]
    exact Nat.mod_eq_of_lt typed
  · rw [if_neg resumed, if_neg resumed, replayWalForHeight_timeouts]
    exact (Nat.eq_zero_of_not_pos resumed).symm

theorem handle_timed (fits : engine.RoundFits event) (typed : after.round < 2 ^ 32)
    (ran : handle env inputs fuel event engine = some after) (timed : engine.Timed) :
    after.Timed := by
  have increasing : Grants.Increasing climbing := fun _ _ above => above
  have sourced : engine.Sourced climbing := ⟨fun _ _ _ => trivial, fun _ _ => trivial⟩
  cases (handle_outcome sourced (allows_climbing fits) ran).2 with
  | acts path => exact path.timed increasing typed timed
  | notes appliedHeight isNote =>
    subst isNote
    cases ran
    exact timed
  | opens height _ opened =>
    obtain ⟨first, ⟨_, base, _, _, _, _, _, _, _, rfl⟩, _, path⟩ := opened
    have grows := path_invariant (fun _ _ move below => le_trans below (move_round_le increasing move))
      path.moves (le_refl _)
    exact path.timed increasing typed (timed_openHeight (grows.trans_lt typed))

end Engine

open Engine in
/-- In a run whose round numbers do not wrap around, the counter of timeouts is the round whenever
nothing is pending, and the emergency set is used from its first round on. -/
theorem consecutiveTimeouts_eq_round {env : Env} {engine : Engine}
    (reachable : Reachable env RoundFits engine) (typed : engine.round < 2 ^ 32) :
    engine.running = true → engine.Undecided →
      engine.consecutiveTimeouts = engine.round ∧
        (engine.useEmergencySet = true ↔ EMERGENCY_ROTATION_ROUNDS ≤ engine.round) := by
  have timed : engine.Timed := by
    induction reachable with
    | initial => exact fun _ => rfl
    | step _ allowed ran ih =>
      exact handle_timed allowed typed ran (ih (Nat.lt_of_succ_lt allowed))
  intro _ undecided
  refine ⟨timed undecided.2, ?_⟩
  unfold useEmergencySet
  rw [timed undecided.2]
  exact decide_eq_true_iff

namespace Committee

/-- A nil prevote of a later round. Two of them make a node skip to that round. -/
def nilPrevoteOf (round id : Nat) : Vote :=
  { height := 1
    round := round
    signerIndex := id - 1
    signerId := id
    isNil := true
    signature := signAs id (voteSigningHash crypto 1 round true 0) }

/-- The log of a member that prevoted nil in round 30. -/
def prevotedLate : Table (Nat × Nat × Nat) (Vote × Bool) :=
  Table.empty.emplace (1, 30, 4) (nilPrevoteOf 30 4, false)

/-- The member resumes in that round, and uses the emergency set. -/
theorem resumed_timeouts : ∃ engine,
      handle (env 4 4) (inputs 20000 false) 9 (.start 1) (Engine.initial prevotedLate .empty) =
        some engine ∧
      engine.round = 30 ∧ engine.consecutiveTimeouts = engine.round ∧
      (engine.useEmergencySet = true ↔ EMERGENCY_ROTATION_ROUNDS ≤ engine.round) := by
  have started : (handle (env 4 4) (inputs 20000 false) 9 (.start 1)
      (Engine.initial prevotedLate .empty)).any (fun engine => engine.round == 30 &&
        engine.running && engine.commitBlock.isNone && engine.pendingHeight.isNone) = true := by
    decide +kernel
  rw [Option.any_eq_true] at started
  obtain ⟨engine, ran, facts⟩ := started
  simp only [Bool.and_eq_true, beq_iff_eq, Option.isNone_iff_eq_none] at facts
  obtain ⟨⟨⟨round, running⟩, noBlock⟩, noHeight⟩ := facts
  have reachable : Reachable (env 4 4) Engine.RoundFits engine :=
    .step (.initial prevotedLate .empty) (show 0 + 1 < 2 ^ 32 by decide) ran
  exact ⟨engine, ran, round,
    consecutiveTimeouts_eq_round reachable (by omega) running ⟨noBlock, noHeight⟩⟩

/-- Two members send prevotes of the last round there is, and the fourth one's timer expires in
each step of it. -/
def lastRound : List (Inputs × Event) :=
  [(inputs 20000 false, .start 1),
    (inputs 20000 false, .onPrevote (nilPrevoteOf (2 ^ 32 - 1) 1)),
    (inputs 20000 false, .onPrevote (nilPrevoteOf (2 ^ 32 - 1) 3)),
    (inputs 30000 true, .pollTimers), (inputs 40000 true, .pollTimers),
    (inputs 50000 true, .pollTimers)]

/-- The member is back in round 0, with the counter where it was. -/
theorem wrapped_round_counted : ∃ engine, Reachable (env 4 4) Engine.FreshStart engine ∧
      engine.running = true ∧ engine.Undecided ∧ engine.round = 0 ∧
      engine.consecutiveTimeouts = 2 ^ 32 - 1 ∧ engine.useEmergencySet = true := by
  have wrapped : (runEvents Engine.FreshStart (env 4 4) 9 lastRound {}).any (fun engine => engine.running &&
      engine.commitBlock.isNone && engine.pendingHeight.isNone && engine.round == 0 &&
      engine.consecutiveTimeouts == 2 ^ 32 - 1 && engine.useEmergencySet) = true := by
    decide +kernel
  rw [Option.any_eq_true] at wrapped
  obtain ⟨engine, ran, facts⟩ := wrapped
  simp only [Bool.and_eq_true, beq_iff_eq, Option.isNone_iff_eq_none] at facts
  obtain ⟨⟨⟨⟨⟨running, noBlock⟩, noHeight⟩, round⟩, timeouts⟩, emergency⟩ := facts
  exact ⟨engine, reachable_of_runEvents _ ran, running, ⟨noBlock, noHeight⟩, round, timeouts,
    emergency⟩

end Committee

end Clarity.Consensus
