import Clarity.Consensus.Engine.Paths

/-!
Contract: an event is a path of moves, after at most one change of height; a run is a list
of events.

Owns: the path of each event, what an event asks of the grants, and the runs of one engine.
-/

namespace Clarity.Consensus

open Common Crypto Clarity.Core Library Relation

namespace Engine

variable {env : Env} {inputs : Inputs} {grants : Grants} {engine : Engine} {self : Self}
  {after : Engine} {height fuel : Nat} {event : Event}

/-! ## Timeouts -/

/-- After a commit attempt nothing is left to decide only if there was no attempt. -/
theorem enterCommit_undecided {round : Nat}
    (undecided : (engine.enterCommit env inputs height round).Undecided)
    (running : (engine.enterCommit env inputs height round).running = true) :
    engine.enterCommit env inputs height round = engine := by
  rcases enterCommit_cases env inputs height round engine with same | ⟨block, free, _, result⟩
  · exact same
  · exfalso
    rw [result] at undecided running
    rcases tryApplyCommit_cases env inputs (engine.startCommit block) with
      same | ⟨_, _, _, applied⟩ | ⟨_, left, _, _, _, _, _, _, decided, _, outcome, _, rejected⟩
    · rw [same] at undecided
      cases undecided.1
    · rw [applied] at undecided
      cases undecided.2
    · rw [rejected] at undecided running
      rcases outcome with ⟨_, stopped⟩ | kept
      · exact absurd (stopped.symm.trans running) (by decide)
      · rw [kept] at undecided
        cases undecided.1

/-- The prevote step times out on a node that sees no polka. -/
def PrevoteTimeout (env : Env) (inputs : Inputs) (event : Event) (engine : Engine) : Prop :=
  event = .pollTimers ∧ engine.timerRunning = true ∧ inputs.timerExpired = true ∧
    engine.step = .prevote ∧ engine.quorumValue env false = none

/-- What an event asks of the grants: that they cover the messages it delivers, a precommit
without a polka, and the next round. -/
structure Allows (env : Env) (inputs : Inputs) (grants : Grants) (event : Event)
    (engine : Engine) : Prop where
  skips : Grants.Skips grants
  proposal : ∀ proposal, event = .onProposal proposal → grants.proposed proposal
  prevote : ∀ vote, event = .onPrevote vote → grants.delivered false vote
  precommit : ∀ vote, event = .onPrecommit vote → grants.delivered true vote
  fallback : PrevoteTimeout env inputs event engine →
    grants.fallback ((engine.setTimer false).broadcastTimeoutVote env engine.round)
  advance : event = .pollTimers → engine.step = .precommit →
    grants.advance engine.round (u32 (engine.round + 1))

section Calls

variable (selfFollows : SelfFollows env inputs grants self)

include selfFollows

theorem onProposeTimeout_follows (step : engine.step = .propose) :
    Follows env inputs grants engine (engine.onProposeTimeout env inputs self) := by
  unfold onProposeTimeout
  apply Reaches.afterStep (quiet (.ownTimeout engine) (broadcastTimeoutVote_inbox env _ engine))
  obtain ⟨stored, extra, result, _⟩ := broadcastTimeoutVote_cases env engine.round engine
  rw [result]
  exact enterPrevote_follows selfFollows step

theorem onPrevoteTimeout_follows (step : engine.step = .prevote)
    (fallback : engine.quorumValue env false = none →
      grants.fallback (engine.broadcastTimeoutVote env engine.round)) :
    Follows env inputs grants engine (engine.onPrevoteTimeout env inputs self) := by
  unfold onPrevoteTimeout
  apply Reaches.afterStep (quiet (.ownTimeout engine) (broadcastTimeoutVote_inbox env _ engine))
  have reason : ((engine.broadcastTimeoutVote env engine.round).quorumValue env false).isSome = true ∨
      grants.fallback (engine.broadcastTimeoutVote env engine.round) := by
    have same : (engine.broadcastTimeoutVote env engine.round).quorumValue env false =
        engine.quorumValue env false := by
      obtain ⟨_, _, result, _⟩ := broadcastTimeoutVote_cases env engine.round engine
      rw [result]
      rfl
    rw [same]
    cases polka : engine.quorumValue env false with
    | none => exact Or.inr (fallback polka)
    | some value => exact Or.inl rfl
  obtain ⟨stored, extra, result, _⟩ := broadcastTimeoutVote_cases env engine.round engine
  rw [result] at reason ⊢
  exact enterPrecommit_follows selfFollows step step reason rfl

/-- The end of `onPrecommitTimeout`, from a state in which nothing is decided. -/
theorem commitOrAdvance_follows (step : engine.step ≠ .commit) (undecided : engine.Undecided)
    (advances : grants.advance engine.round (u32 (engine.round + 1))) (quorumBlock : Option Hash) :
    Follows env inputs grants engine (engine.commitOrAdvance env inputs self quorumBlock) := by
  have advance : Follows env inputs grants engine
      (self (.enterPropose engine.height (u32 (engine.round + 1))) engine) :=
    selfFollows.enterPropose engine (u32 (engine.round + 1)) engine.consecutiveTimeouts undecided
      step advances (Or.inl ⟨rfl, rfl⟩)
  unfold commitOrAdvance
  cases known : (quorumBlock.bind engine.proposalsByHash.find?).isSome with
  | false => exact advance
  | true =>
    dsimp only
    rw [if_pos rfl]
    split
    · exact Reaches.path (enterCommit_moves _ _ engine)
    next left =>
      simp only [true_and, not_or, Bool.not_eq_true, Option.isSome_eq_false_iff,
        Option.isNone_iff_eq_none, Bool.not_eq_false] at left
      rw [enterCommit_undecided ⟨left.1, left.2.1⟩ left.2.2]
      exact advance

theorem onPrecommitTimeout_follows (step : engine.step = .precommit)
    (undecided : engine.Undecided)
    (advances : grants.advance engine.round (u32 (engine.round + 1))) :
    Follows env inputs grants engine (engine.onPrecommitTimeout env inputs self) := by
  unfold onPrecommitTimeout
  apply Reaches.afterStep (quiet (.ownTimeout engine) (broadcastTimeoutVote_inbox env _ engine))
  obtain ⟨stored, extra, result, _⟩ := broadcastTimeoutVote_cases env engine.round engine
  rw [result]
  apply commitOrAdvance_follows selfFollows
  · simp [step]
  · exact undecided
  · exact advances

theorem handleTimeoutVote_follows {vote : TimeoutVote} :
    Follows env inputs grants engine (engine.handleTimeoutVote env inputs self vote) := by
  unfold handleTimeoutVote
  refine .guard fun height => .guard fun _ => .guard fun _ => ?_
  split
  · exact Reaches.stay
  next voterId voter =>
    split
    · exact Reaches.stay
    next validator found =>
      refine .guard fun verified => ?_
      split
      · exact Reaches.stay
      next stored fits =>
        apply Reaches.afterStep (quiet (.peerTimeout engine vote voterId validator stored
          (not_not.mp height) voter found (by simpa using verified) fits) ⟨rfl, rfl, rfl⟩)
        unfold retryEmergencyPropose
        exact .guard fun _ => .guard fun _ => .guard fun _ => .guard fun _ =>
          tryPropose_follows selfFollows

theorem pollRoundTimer_follows (undecided : engine.Undecided)
    (allows : Allows env inputs grants .pollTimers engine) :
    Follows env inputs grants engine (engine.pollRoundTimer env inputs self) := by
  unfold pollRoundTimer
  refine .guard fun fired => ?_
  simp only [not_or, Bool.not_eq_false] at fired
  dsimp only
  apply Reaches.afterStep (quiet (.control engine _ false _) ⟨rfl, rfl, rfl⟩)
  split
  next step => exact onProposeTimeout_follows selfFollows step
  next step =>
    apply onPrevoteTimeout_follows selfFollows step
    intro noPolka
    exact allows.fallback ⟨rfl, fired.1, fired.2, step, noPolka⟩
  next step =>
    exact onPrecommitTimeout_follows selfFollows step undecided (allows.advance rfl step)
  · exact Reaches.stay

end Calls

/-! ## New heights -/

/-- A new height keeps at most the messages that waited for it. -/
theorem Sourced.openHeight (sourced : engine.Sourced grants) :
    (engine.openHeight env height).1.Sourced grants := by
  obtain ⟨_, _, _, _, _, _, _, _, _, result, _⟩ := openHeight_cases env height engine
  rw [result]
  apply sourced.take
  refine { pending := ?_, rounds := ?_, proposals := ?_ }
  · rintro (_ | _) vote ⟨⟩
  · rintro (_ | _) vote held
    · exact absurd held (not_inStore_empty vote)
    · exact absurd held (not_inStore_empty vote)
  · rintro entry ⟨⟩

/-- The result of an event: moves, or a new height and then moves. -/
def Handled (env : Env) (inputs : Inputs) (grants : Grants) (event : Event)
    (engine after : Engine) : Prop :=
  ReflTransGen (Move env inputs grants) engine after ∨
    ∃ height opened, NewHeight env event engine height opened ∧
      ReflTransGen (Move env inputs grants) opened after

/-- The heights an event opens: the one it starts, the one after a commit, or a noted one. -/
def Opens (engine : Engine) (event : Event) (height : Nat) : Prop :=
  (event = .start height ∧ engine.running = false) ∨
    (engine.running = true ∧ engine.pendingHeight = some height) ∨
    (engine.externalNextHeight = height ∧ engine.stateHeight < height)

/-- The height was opened, from the noted head or from none, and then there were acts. -/
def Opened (env : Env) (inputs : Inputs) (grants : Grants) (event : Event) (engine : Engine)
    (height : Nat) (after : Engine) : Prop :=
  ∃ opened, NewHeight env event engine height opened ∧
    (opened.externalNextHeight = engine.externalNextHeight ∨ opened.externalNextHeight = 0) ∧
    Acts env inputs grants opened after

/-- The result of an event in detail: acts, a noted head, or a new height and then acts. -/
inductive Outcome (env : Env) (inputs : Inputs) (grants : Grants) (event : Event)
    (engine after : Engine) : Prop
  | acts (path : Acts env inputs grants engine after)
  | notes (appliedHeight : Nat) (isNote : event = .noteChainHead appliedHeight)
      (path : Move env inputs grants engine after)
  | opens (height : Nat) (opening : Opens engine event height)
      (opened : Opened env inputs grants event engine height after)

/-- A new height from a base that keeps the log, the mailbox, the evidence and the outputs. -/
theorem enterNewHeight_opens {base : Engine} (skips : Grants.Skips grants)
    (sourced : engine.Sourced grants) (opening : Opens engine event height)
    (ran : base.enterNewHeight env (exec env inputs fuel) height = some after)
    (undecided : base.Undecided) (outputs : base.outputs = engine.outputs)
    (mailbox : base.mailbox = engine.mailbox)
    (equivocations : base.equivocations = engine.equivocations)
    (noted : base.externalNextHeight = engine.externalNextHeight ∨ base.externalNextHeight = 0)
    (walVotes : ∀ entry ∈ base.walVotes.entries, entry ∈ engine.walVotes.entries)
    (walLocks : ∀ entry ∈ base.walLocks.entries, entry ∈ engine.walLocks.entries)
    (keptVotes : ∀ entry ∈ engine.walVotes.entries, height ≤ entry.1.1 →
      entry ∈ base.walVotes.entries) :
    after.Sourced grants ∧ Opened env inputs grants event engine height after := by
  have sourcedBase : base.Sourced grants := sourced.of_mailbox_eq mailbox
  have reason := opening.imp id (Or.imp And.right And.right)
  have kept : ((base.openHeight env height).1.beginRound env
      (base.openHeight env height).2).externalNextHeight = base.externalNextHeight := by
    obtain ⟨_, _, _, _, _, _, _, _, _, result, _⟩ := openHeight_cases env height base
    rw [result]
    rfl
  cases fuel with
  | zero => cases ran
  | succ fuel =>
    have begun : ((base.openHeight env height).1.beginRound env
        (base.openHeight env height).2).Sourced grants :=
      sourcedBase.openHeight.take (takes_beginRound _ _)
    have course := enterPropose_follows (exec_follows env inputs skips fuel) skips begun after ran
    exact ⟨Course.sourced course begun, _, ⟨reason, base, undecided, outputs, mailbox, equivocations,
      walVotes, walLocks, keptVotes, rfl⟩, by rwa [kept], Course.acts course⟩

/-- A truncation below a height keeps what was logged from it on. -/
theorem mem_walTruncate_of_le (positive : height > 0) :
    ∀ entry ∈ engine.walVotes.entries, height ≤ entry.1.1 →
      entry ∈ (engine.walTruncate (height - 1)).walVotes.entries := by
  intro entry member above
  refine Table.mem_filter.mpr ⟨member, decide_eq_true ?_⟩
  omega

theorem start_opens (skips : Grants.Skips grants) (sourced : engine.Sourced grants)
    (stopped : engine.running = false)
    (ran : engine.start env (exec env inputs fuel) height = some after) :
    after.Sourced grants ∧ Opened env inputs grants (.start height) engine height after := by
  have opening : Opens engine (.start height) height := Or.inl ⟨rfl, stopped⟩
  unfold start at ran
  rw [if_neg (by simp [stopped])] at ran
  dsimp only at ran
  split at ran
  next positive =>
    exact enterNewHeight_opens skips sourced opening ran ⟨rfl, rfl⟩ rfl rfl rfl (Or.inr rfl)
      (fun entry member => (Table.mem_filter.mp member).1)
      (fun entry member => (Table.mem_filter.mp member).1) (mem_walTruncate_of_le positive)
  · exact enterNewHeight_opens skips sourced opening ran ⟨rfl, rfl⟩ rfl rfl rfl (Or.inr rfl)
      (fun entry member => member) (fun entry member => member) (fun entry member _ => member)

theorem Follows.outcome {result : Option Engine} (follows : Follows env inputs grants engine result)
    (sourced : engine.Sourced grants) (ran : result = some after) :
    after.Sourced grants ∧ Outcome env inputs grants event engine after := by
  have course := follows sourced after ran
  exact ⟨Course.sourced course sourced, .acts (Course.acts course)⟩

theorem pollTimers_outcome (sourced : engine.Sourced grants)
    (allows : Allows env inputs grants .pollTimers engine)
    (ran : engine.pollTimers env inputs (exec env inputs fuel) = some after) :
    after.Sourced grants ∧ Outcome env inputs grants .pollTimers engine after := by
  unfold pollTimers at ran
  split at ran
  · exact Follows.outcome Reaches.stay sourced ran
  next running =>
    split at ran
    next overtaken =>
      have opening : Opens engine .pollTimers engine.externalNextHeight :=
        Or.inr (Or.inr ⟨rfl, overtaken.2⟩)
      exact (enterNewHeight_opens allows.skips sourced opening ran ⟨rfl, rfl⟩ rfl rfl rfl
        (Or.inl rfl) (fun entry member => (Table.mem_filter.mp member).1)
        (fun entry member => (Table.mem_filter.mp member).1)
        (mem_walTruncate_of_le (Nat.pos_of_ne_zero overtaken.1))).imp id (.opens _ opening)
    · split at ran
      · split at ran
        · exact Follows.outcome (Reaches.step (applies engine)) sourced ran
        · exact Follows.outcome Reaches.stay sourced ran
      next uncommitted =>
        have noBlock : engine.commitBlock = none := by simpa using uncommitted
        split at ran
        next next pending =>
          split at ran
          · exact Follows.outcome Reaches.stay sourced ran
          · have opening : Opens engine .pollTimers next :=
              Or.inr (Or.inl ⟨by simpa using running, pending⟩)
            exact (enterNewHeight_opens allows.skips sourced opening ran ⟨noBlock, rfl⟩ rfl rfl rfl
              (Or.inl rfl) (fun entry member => member) (fun entry member => member)
              (fun entry member _ => member)).imp id (.opens _ opening)
        next idle =>
          exact Follows.outcome (pollRoundTimer_follows (exec_follows env inputs allows.skips fuel)
            ⟨noBlock, idle⟩ allows) sourced ran

/-- Handling an event is a path of acts, after at most one change of height. -/
theorem handle_outcome (sourced : engine.Sourced grants)
    (allows : Allows env inputs grants event engine)
    (ran : handle env inputs fuel event engine = some after) :
    after.Sourced grants ∧ Outcome env inputs grants event engine after := by
  have calls := exec_follows env inputs allows.skips fuel
  have unlessStopped : ∀ {result : Option Engine}, Follows env inputs grants engine result →
      (if engine.running then result else some engine) = some after →
      after.Sourced grants ∧ Outcome env inputs grants event engine after := by
    intro result follows same
    split at same
    · exact Follows.outcome follows sourced same
    · exact Follows.outcome Reaches.stay sourced same
  cases event with
  | start height =>
    cases running : engine.running with
    | false =>
      exact (start_opens allows.skips sourced running ran).imp id
        (.opens height (Or.inl ⟨rfl, running⟩))
    | true =>
      unfold handle start at ran
      dsimp only at ran
      rw [if_pos running] at ran
      cases ran
      exact ⟨sourced, .acts .refl⟩
  | pollTimers => exact pollTimers_outcome sourced allows ran
  | onProposal proposal =>
    exact unlessStopped
      (handleProposal_follows calls allows.skips (allows.proposal proposal rfl)) ran
  | onPrevote vote =>
    exact unlessStopped
      (handleVote_follows calls allows.skips (allows.prevote vote rfl)) ran
  | onPrecommit vote =>
    exact unlessStopped
      (handleVote_follows calls allows.skips (allows.precommit vote rfl)) ran
  | onTimeoutVote vote => exact unlessStopped (handleTimeoutVote_follows calls) ran
  | tryPropose => exact Follows.outcome (tryPropose_follows calls) sourced ran
  | noteChainHead appliedHeight =>
    cases ran
    exact ⟨sourced.of_mailbox_eq rfl, .notes appliedHeight rfl (.control engine engine.running
      engine.timerRunning (max engine.externalNextHeight (appliedHeight + 1)))⟩
  | stop =>
    have stops : Follows env inputs grants engine (some engine.stop) := by
      unfold stop
      split
      · exact Reaches.step (quiet (.control engine false false _) ⟨rfl, rfl, rfl⟩)
      · exact Reaches.stay
    exact Follows.outcome stops sourced ran

theorem handle_handled (sourced : engine.Sourced grants)
    (allows : Allows env inputs grants event engine)
    (ran : handle env inputs fuel event engine = some after) :
    after.Sourced grants ∧ Handled env inputs grants event engine after := by
  refine (handle_outcome sourced allows ran).imp id fun outcome => ?_
  cases outcome with
  | acts path => exact Or.inl path.moves
  | notes _ _ move => exact Or.inl (.single move)
  | opens height _ opened =>
    obtain ⟨first, newHeight, _, path⟩ := opened
    exact Or.inr ⟨height, first, newHeight, path.moves⟩

/-- As long as `noteChainHead` is not called, no head is noted. -/
theorem Outcome.unnoted (outcome : Outcome env inputs grants event engine after)
    (other : ∀ height, event ≠ .noteChainHead height) (idle : engine.externalNextHeight = 0) :
    after.externalNextHeight = 0 := by
  cases outcome with
  | acts path => exact path.noted.trans idle
  | notes height isNote => exact absurd isNote (other height)
  | opens height _ opened =>
    obtain ⟨first, _, kept | cleared, path⟩ := opened
    · exact path.noted.trans (kept.trans idle)
    · exact path.noted.trans cleared

end Engine

end Clarity.Consensus
