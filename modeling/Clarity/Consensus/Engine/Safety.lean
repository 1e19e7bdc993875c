import Clarity.Consensus.Engine.Locks

/-!
Contract: the invariant of a node that votes below the emergency rounds, over whole events.

Owns: the bound on the node's log, the fresh start of a new height, and `Safe`, the
conjunction of the engine's invariants, with its preservation by every event.
-/

namespace Clarity.Consensus

open Common Crypto Clarity.Core Library Relation

variable {event : Event}

namespace Engine

variable {env : Env} {inputs : Inputs} {grants : Grants} {engine before after : Engine}

/-! ## The log -/

structure Logged (engine : Engine) : Prop where
  votes : ∀ entry ∈ engine.walVotes.entries, entry.1.1 ≤ engine.height
  locks : ∀ entry ∈ engine.walLocks.entries, entry.1.1 ≤ engine.height

theorem move_logged (move : Move env inputs grants before after) (logged : before.Logged) :
    after.Logged := by
  have height := move_height move
  constructor
  · intro entry member
    rw [height]
    rcases move_silent_or_casts move with silent | ⟨isPrecommit, vote, casts⟩
    · exact logged.votes entry (silent.walVotes entry member)
    · rcases casts.walVotes entry member with old | isNew
      · exact logged.votes entry old
      · subst isNew
        exact casts.height.le
  · intro entry member
    rw [height]
    cases move.change with
    | lock =>
      rcases Table.mem_put member with ⟨old, _⟩ | isNew
      · exact logged.locks entry old
      · exact (congrArg (fun entry => entry.1.1) isNew).le
    | applied => exact logged.locks entry (Table.mem_filter.mp member).1
    | _ => exact logged.locks entry member

/-! ## The invariant -/

structure Safe (env : Env) (grants : Grants) (engine : Engine) : Prop where
  registry : Registry env engine
  tallied : Tallied env grants engine
  blocks : Blocks env engine
  membership : Membership env engine
  disciplined : Disciplined env grants engine
  logged : engine.Logged

/-- A path that ends below the emergency rounds was below them all along. -/
theorem path_safe (soundHash : SoundHash env.crypto) (increasing : Grants.Increasing grants)
    (standing : Grants.Standing grants) (path : ReflTransGen (Move env inputs grants) before after)
    (safe : Safe env grants before) (below : after.round < EMERGENCY_ROTATION_ROUNDS) :
    Safe env grants after := by
  have kept : ∀ before after, Move env inputs grants before after →
      (before.round < EMERGENCY_ROTATION_ROUNDS → Safe env grants before) →
      (after.round < EMERGENCY_ROTATION_ROUNDS → Safe env grants after) := by
    intro before after move safeBefore below
    have belowBefore := (move_round_le increasing move).trans_lt below
    have safe := safeBefore belowBefore
    exact {
      registry := move_registry move safe.registry
      tallied := move_tallied move safe.registry.control safe.tallied
      blocks := move_blocks soundHash increasing move below safe.blocks
      membership := move_membership soundHash increasing move safe.blocks safe.membership
      disciplined := move_disciplined increasing standing move safe.registry.control safe.blocks
        safe.tallied safe.membership safe.disciplined
      logged := move_logged move safe.logged }
  exact path_invariant kept path (fun _ => safe) below

/-! ## New heights -/

theorem Blocks.of_empty (held : engine.proposalsByHash = .empty) (proposal : engine.proposal = none)
    (timeouts : engine.consecutiveTimeouts ≤ engine.round) : Blocks env engine := by
  refine ⟨?_, ?_, ?_, ?_, timeouts⟩
  · rw [held]
    intro entry member
    cases member
  · rw [held]
    intro entry member
    cases member
  · rw [held]
    intro entry member
    cases member
  · rw [proposal]
    intro other isProposal
    cases isProposal

theorem Membership.of_empty (signed : engine.signedVotes = .empty) (unlocked : engine.locked = false)
    (unset : engine.validSet = false)
    (votes : ∀ isPrecommit entry, entry ∉ (engine.votes isPrecommit).entries)
    (past : engine.pastPrecommits = .empty) : Membership env engine := by
  refine ⟨?_, ?_, ?_, ?_, ?_, ?_, ?_⟩
  · rw [signed]
    intro key vote found
    cases found
  · rw [signed]
    intro key vote found
    cases found
  · rw [signed]
    intro key vote found
    cases found
  · rw [unlocked]
    intro locked
    cases locked
  · rw [unset]
    intro valid
    cases valid
  · intro _ isPrecommit entry member
    exact absurd member (votes isPrecommit entry)
  · rw [past]
    intro _ bucket member
    cases member

/-- A node without a lock that has not voted at its height keeps the discipline. -/
theorem Locking.of_unlocked (unlocked : engine.locked = false) (unset : engine.validSet = false)
    (elsewhere : ∀ isPrecommit vote, engine.Signed isPrecommit vote →
      vote.height ≠ engine.height) : Locking env grants engine := by
  have notLocked : ¬engine.locked = true := by simp [unlocked]
  have notValid : ¬engine.validSet = true := by simp [unset]
  exact ⟨⟨fun vote signed atHeight => absurd atHeight (elsewhere _ vote signed),
      fun vote signed atHeight => absurd atHeight (elsewhere _ vote signed)⟩,
    fun locked => absurd locked notLocked, fun locked => absurd locked notLocked,
    fun valid => absurd valid notValid, fun valid => absurd valid notValid,
    fun locked => absurd locked notLocked,
    fun _ => ⟨fun locked => absurd locked notLocked, fun valid => absurd valid notValid⟩,
    fun _ vote signed atHeight => absurd atHeight (elsewhere _ vote signed),
    fun vote signed atHeight => absurd atHeight (elsewhere _ vote signed)⟩

theorem newHeight_safe {height : Nat} {opened : Engine}
    (newHeight : NewHeight env event engine height opened) (safe : Safe env grants engine)
    (fresh : FreshStart engine event) : Safe env grants opened := by
  have above := newHeight_above newHeight safe.registry.control fresh
  have registry := newHeight_registry newHeight safe.registry fresh
  have tallied : Tallied env grants opened := newHeight_tallied newHeight
  obtain ⟨base, undecided, outputs, _, _, walVotes, walLocks, _, isOpened⟩ := newHeight.base
  have noVotes : ∀ entry ∈ base.walVotes.entries, entry.1.1 ≠ height := fun entry member =>
    ((safe.logged.votes entry (walVotes entry member)).trans_lt above).ne
  have noLocks : ∀ entry ∈ base.walLocks.entries, entry.1.1 ≠ height := fun entry member =>
    ((safe.logged.locks entry (walLocks entry member)).trans_lt above).ne
  rw [openHeight_fresh noVotes noLocks] at isOpened
  have same : ∀ isPrecommit vote, base.Signed isPrecommit vote ↔ engine.Signed isPrecommit vote := by
    intro isPrecommit vote
    unfold Signed
    rw [outputs]
  have lower : ∀ isPrecommit vote, base.Signed isPrecommit vote → vote.height < height :=
    fun isPrecommit vote signed =>
      (safe.registry.reached isPrecommit vote ((same _ _).mp signed)).trans_lt above
  rw [isOpened] at registry tallied ⊢
  refine ⟨registry, tallied, .of_empty rfl rfl le_rfl,
    .of_empty rfl rfl rfl
      (fun _ _ member => let ⟨_, _, found⟩ := mem_beginRound_votes member; by cases found) rfl,
    ⟨fun _ => .of_unlocked rfl rfl fun isPrecommit vote signed => (lower isPrecommit vote signed).ne,
      ?_⟩, ?_, ?_⟩
  · -- nothing is signed, so nothing has to be justified anew
    have unsigned : ∀ {isPrecommit vote}, ¬Casts env engine engine isPrecommit vote := by
      intro isPrecommit vote casts
      have registered := casts.registered
      rw [casts.round] at registered
      cases casts.unsigned.symm.trans registered
    refine safe.disciplined.justified.extend (fun _ _ => (same _ _).mpr)
      (fun signed => Or.inl ((same _ _).mp signed)) (fun casts => absurd casts unsigned)
      (fun casts => absurd casts unsigned) ?_ ?_
    · intro block decided
      cases decided
    · rintro block ⟨applied, committed⟩
      exact Or.inl ⟨applied, outputs ▸ committed⟩
  · intro entry member
    exact (safe.logged.votes entry (walVotes entry member)).trans above.le
  · intro entry member
    exact (safe.logged.locks entry (walLocks entry member)).trans above.le

/-! ## Events -/

theorem safe_initial (env : Env) (grants : Grants) : Safe env grants (initial .empty .empty) := by
  have unsigned : ∀ isPrecommit vote, ¬(initial .empty .empty).Signed isPrecommit vote :=
    fun _ _ => List.not_mem_nil
  have noVotes : ∀ isPrecommit entry, entry ∉ ((initial .empty .empty).votes isPrecommit).entries := by
    intro isPrecommit entry member
    cases isPrecommit <;> cases member
  refine ⟨registry_initial env .empty .empty, ⟨?_, ?_, ?_⟩, .of_empty rfl rfl le_rfl,
    .of_empty rfl rfl rfl noVotes rfl, ⟨fun _ => .of_unlocked rfl rfl ?_, ?_, ?_, ?_, ?_, ?_⟩, ?_, ?_⟩
  · intro key vote found
    cases found
  · intro _ isPrecommit entry member
    exact absurd member (noVotes isPrecommit entry)
  · intro _ bucket member
    cases member
  · intro isPrecommit vote signed
    exact absurd signed (unsigned isPrecommit vote)
  · intro vote signed
    exact absurd signed (unsigned true vote)
  · intro vote other signed
    exact absurd signed (unsigned true vote)
  · intro vote other signed
    exact absurd signed (unsigned true vote)
  · intro block decided
    cases decided
  · rintro block ⟨applied, committed⟩
    cases committed
  · intro entry member
    cases member
  · intro entry member
    cases member

/-- Every event keeps the invariant, as long as the node stays below the emergency rounds. -/
theorem handle_safe {fuel : Nat} (soundHash : SoundHash env.crypto)
    (increasing : Grants.Increasing grants) (standing : Grants.Standing grants)
    (safe : Safe env grants engine) (sourced : engine.Sourced grants)
    (allows : Allows env inputs grants event engine) (fresh : FreshStart engine event)
    (ran : handle env inputs fuel event engine = some after)
    (below : after.round < EMERGENCY_ROTATION_ROUNDS) :
    Safe env grants after ∧ after.Sourced grants := by
  obtain ⟨kept, path | ⟨height, opened, newHeight, path⟩⟩ := handle_handled sourced allows ran
  · exact ⟨path_safe soundHash increasing standing path safe below, kept⟩
  · exact ⟨path_safe soundHash increasing standing path (newHeight_safe newHeight safe fresh) below,
      kept⟩

theorem handle_signed {fuel : Nat} {isPrecommit : Bool} {vote : Vote}
    (signed : engine.Signed isPrecommit vote)
    (ran : handle env inputs fuel event engine = some after) : after.Signed isPrecommit vote := by
  have kept : ∀ before after, Move env inputs anyGrants before after →
      before.Signed isPrecommit vote → after.Signed isPrecommit vote :=
    fun _ _ move => signed_after_move move
  obtain ⟨_, path | ⟨height, opened, newHeight, path⟩⟩ :=
    handle_handled (sourced_any engine) (allows_any env inputs event engine) ran
  · exact path_invariant kept path signed
  · exact path_invariant kept path ((newHeight_signed newHeight isPrecommit vote).mpr signed)

end Engine

end Clarity.Consensus
