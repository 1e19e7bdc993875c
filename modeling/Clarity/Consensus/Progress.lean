import Clarity.Consensus.Bodies

/-!
Contract: what an engine sends while it handles one event, and where that leaves it.

Owns: `Output.acts`, a vote, a proposal or a block handed over; `Ready`, the bookkeeping of an
engine between two events; `Advances`, the effect of moves at one height: the outputs grow, at most
one block is applied, and an engine that waits for its next height does nothing; and which heights
an event can open when no external head was noted.
-/

namespace Clarity.Consensus

open Common Crypto Clarity.Core Library Relation

variable {sent : List Output} {event : Event}

/-- The engine proposes, votes or hands a block over. -/
def Output.acts : Output → Bool
  | .signedVote _ _ => true
  | .signedProposal _ => true
  | .blockCommitted _ _ => true
  | _ => false

def Output.applied? : Output → Option Block
  | .blockCommitted block true => some block
  | _ => none

def appliedBlocks (outputs : List Output) : List Block := outputs.filterMap Output.applied?

theorem appliedBlocks_append (first second : List Output) :
    appliedBlocks (first ++ second) = appliedBlocks first ++ appliedBlocks second :=
  List.filterMap_append

namespace Engine

variable {env : Env} {inputs : Inputs} {grants : Grants} {engine before middle after : Engine}

/-- Every held block is of the engine's height. -/
def HeldHeight (engine : Engine) : Prop :=
  ∀ entry ∈ engine.proposalsByHash.entries, entry.2.header.height = engine.height

/-- The bookkeeping of an engine: what it holds and what it decided is of its height, and a height
that is left has nothing in flight. -/
structure Ready (engine : Engine) : Prop where
  control : engine.Control
  held : engine.HeldHeight
  decided : ∀ block, engine.commitBlock = some block → block.header.height = engine.height
  settled : engine.pendingHeight ≠ none → engine.commitBlock = none

/-- The effect of moves at one height. -/
structure Advances (inputs : Inputs) (before after : Engine) (sent : List Output) : Prop where
  outputs : after.outputs = before.outputs ++ sent
  height : after.height = before.height
  progress : (appliedBlocks sent = [] ∧ after.pendingHeight = before.pendingHeight) ∨
    ∃ block, appliedBlocks sent = [block] ∧ inputs.onBlockCommitted block = true ∧
      before.pendingHeight = none ∧ block.header.height = before.height ∧
      after.pendingHeight = some (before.height + 1)
  waits : before.pendingHeight ≠ none →
    ∀ output ∈ sent, output.acts = false ∧ output ≠ .consensusHalt

/-! ## Held blocks -/

theorem freshBlock_height {block : Block} (fresh : engine.freshBlock env inputs = some block) :
    block.header.height = engine.height := by
  unfold freshBlock at fresh
  dsimp only at fresh
  split at fresh
  · split at fresh
    · cases fresh
    · cases fresh
      dsimp only
      split
      · rfl
      · split
        · rfl
        · rfl
  · cases fresh
    split
    · rfl
    · split
      · rfl
      · rfl

theorem makeProposal_height {proposal : Proposal} {block : Block} (held : engine.HeldHeight)
    (made : engine.makeProposal env inputs = some (proposal, block)) :
    block.header.height = engine.height := by
  obtain ⟨candidate, reProposing, _, isCandidate, _, isSimulated, _⟩ := makeProposal_spec made
  refine (simulatedBlock_header isSimulated).1.trans ?_
  unfold candidateBlock at isCandidate
  split at isCandidate
  next known found =>
    cases isCandidate
    obtain ⟨hash, _, stored⟩ := Option.bind_eq_some_iff.mp found
    exact held _ (Table.find?_eq_some_iff.mp stored)
  · obtain ⟨fresh, isFresh, same⟩ := Option.map_eq_some_iff.mp isCandidate
    cases same
    exact freshBlock_height isFresh

theorem move_heldHeight (move : Move env inputs grants before after) (held : before.HeldHeight) :
    after.HeldHeight := by
  intro entry member
  rw [move_height move]
  rcases held_of_move move member with old | ⟨proposal, _, ⟨_, height, acceptable⟩ | made⟩
  · exact held entry old
  · obtain ⟨_, valid⟩ := acceptableBlock_spec acceptable
    exact (validateProposal_spec valid).2.1.trans height
  · exact makeProposal_height held made

theorem newHeight_heldHeight {event : Event} {height : Nat} {opened : Engine}
    (newHeight : NewHeight env event engine height opened) : opened.HeldHeight := by
  obtain ⟨base, _, _, _, _, _, _, _, isOpened⟩ := newHeight.base
  obtain ⟨_, _, _, _, _, _, _, _, _, result, _, _⟩ := openHeight_cases env height base
  have noBlocks : opened.proposalsByHash = .empty := by
    rw [isOpened, result]
    rfl
  unfold HeldHeight
  rw [noBlocks]
  intro entry member
  cases member

/-! ## Composition -/

theorem Advances.refl (engine : Engine) : Advances inputs engine engine [] :=
  ⟨(List.append_nil _).symm, rfl, Or.inl ⟨rfl, rfl⟩, fun _ _ none => absurd none List.not_mem_nil⟩

/-- A waiting engine goes on waiting. -/
theorem Advances.pending (advances : Advances inputs before after sent)
    (waiting : before.pendingHeight ≠ none) : after.pendingHeight = before.pendingHeight := by
  rcases advances.progress with ⟨_, same⟩ | ⟨_, _, _, idle, _⟩
  · exact same
  · exact absurd idle waiting

theorem Advances.trans {first second : List Output} (left : Advances inputs before middle first)
    (right : Advances inputs middle after second) :
    Advances inputs before after (first ++ second) where
  outputs := by rw [right.outputs, left.outputs, List.append_assoc]
  height := right.height.trans left.height
  progress := by
    rw [appliedBlocks_append]
    rcases left.progress with ⟨none, same⟩ | ⟨block, one, accepted, idle, height, pending⟩
    · rw [none, List.nil_append]
      rcases right.progress with
        ⟨noneLater, sameLater⟩ | ⟨block, one, accepted, idle, height, pending⟩
      · exact Or.inl ⟨noneLater, sameLater.trans same⟩
      · refine Or.inr ⟨block, one, accepted, same.symm.trans idle, height.trans left.height, ?_⟩
        rw [pending, left.height]
    · rcases right.progress with ⟨noneLater, sameLater⟩ | ⟨_, _, _, idleLater, _⟩
      · exact Or.inr ⟨block, by rw [one, noneLater, List.append_nil], accepted, idle, height,
          sameLater.trans pending⟩
      · exact absurd (pending.symm.trans idleLater) (by simp)
  waits := by
    intro waiting output member
    rcases List.mem_append.mp member with early | late
    · exact left.waits waiting output early
    · exact right.waits (left.pending waiting ▸ waiting) output late

theorem Advances.of_same (outputs : after.outputs = before.outputs ++ sent)
    (height : after.height = before.height) (pending : after.pendingHeight = before.pendingHeight)
    (nothing : appliedBlocks sent = [])
    (waits : before.pendingHeight ≠ none →
      ∀ output ∈ sent, output.acts = false ∧ output ≠ .consensusHalt) :
    Advances inputs before after sent :=
  ⟨outputs, height, Or.inl ⟨nothing, pending⟩, waits⟩

/-! ## Every move -/

theorem Advances.of_votes {isPrecommit : Bool}
    (outputs : after.outputs = before.outputs ++ sent) (height : after.height = before.height)
    (pending : after.pendingHeight = before.pendingHeight)
    (votes : ∀ output ∈ sent, ∃ vote, output = .signedVote vote isPrecommit)
    (undecided : before.Undecided) : Advances inputs before after sent := by
  refine .of_same outputs height pending ?_ fun waiting => absurd undecided.2 waiting
  refine List.filterMap_eq_nil_iff.mpr fun output member => ?_
  obtain ⟨vote, isVote⟩ := votes output member
  rw [isVote]
  rfl

theorem Output.of_isNotice {output : Output} (notice : output.isNotice = true) :
    output.applied? = none ∧ output.acts = false ∧ output ≠ .consensusHalt := by
  refine ⟨?_, ?_, Output.ne_of_isNotice notice rfl⟩ <;>
    cases output <;> first | rfl | cases notice

/-- What the engine sends on the way, move by move. -/
theorem move_advances (move : Move env inputs grants before after) (ready : before.Ready) :
    ∃ sent, Advances inputs before after sent := by
  have idle : ∀ block, before.commitBlock = some block → before.pendingHeight = none := by
    intro block decided
    by_contra waiting
    rw [ready.settled waiting] at decided
    cases decided
  cases move.change with
  | prevote step votes =>
    exact ⟨_, .of_votes rfl rfl rfl votes (ready.control.undecided (by simp [step]))⟩
  | precommit step noPolka fallback votes =>
    exact ⟨_, .of_votes rfl rfl rfl votes (ready.control.undecided (by simp [step]))⟩
  | lock polka step quorum votes =>
    exact ⟨_, .of_votes rfl rfl rfl votes (ready.control.undecided (by simp [step]))⟩
  | applied block decided accepted =>
    refine ⟨[.blockCommitted block true, .heightAdvanced (before.height + 1)], rfl, rfl,
      Or.inr ⟨block, rfl, accepted, idle block decided, ready.decided block decided, rfl⟩, ?_⟩
    exact fun waiting => absurd (idle block decided) waiting
  | rejected block _ _ _ _ _ _ extra decided _ halts =>
    refine ⟨.blockCommitted block false :: extra, .of_same rfl rfl rfl ?_
      fun waiting => absurd (idle block decided) waiting⟩
    have none : extra.filterMap Output.applied? = [] := by
      refine List.filterMap_eq_nil_iff.mpr fun output member => ?_
      rw [halts output member]
      rfl
    exact none
  | books _ _ _ _ _ sent notices =>
    refine ⟨sent, .of_same rfl rfl rfl ?_ fun _ output member => ?_⟩
    · exact List.filterMap_eq_nil_iff.mpr
        fun output member => (Output.of_isNotice (notices output member)).1
    · exact (Output.of_isNotice (notices output member)).2
  | own proposal block step =>
    have undecided := ready.control.undecided (by simp [step])
    refine ⟨[.signedProposal proposal, .broadcastProposal proposal], .of_same ?_ rfl rfl rfl
      fun waiting => absurd undecided.2 waiting⟩
    exact List.append_assoc _ _ _
  | _ =>
    exact ⟨[], .of_same (List.append_nil _).symm rfl rfl rfl
      fun _ _ none => absurd none List.not_mem_nil⟩

/-! ## The bookkeeping is kept -/

theorem Ready.of_undecided (undecided : engine.Undecided) (held : engine.HeldHeight) :
    engine.Ready where
  control := .of_undecided undecided
  held := held
  decided := by
    intro block decided
    rw [undecided.1] at decided
    cases decided
  settled := fun waiting => absurd undecided.2 waiting

theorem move_ready (move : Move env inputs grants before after) (ready : before.Ready) :
    after.Ready := by
  have control := move_control move ready.control
  refine ⟨control, move_heldHeight move ready.held, ?_, ?_⟩
  · intro block isDecided
    rw [move_height move]
    rcases decided_of_move move isDecided with old | ⟨round, _, quorum⟩
    · exact ready.decided block old
    · obtain ⟨entry, member, signatures, isHeld⟩ := blockToCommit_held quorum
      rw [isHeld]
      exact ready.held entry member
  · intro waiting
    cases move.change with
    | newRound round timeouts undecided => exact undecided.1
    | commit round block undecided => exact absurd undecided.2 waiting
    | applied => rfl
    | rejected block _ _ _ _ _ _ _ decided =>
      rw [ready.settled waiting] at decided
      cases decided
    | _ => exact ready.settled waiting

theorem path_advances (path : ReflTransGen (Move env inputs grants) before after)
    (ready : before.Ready) : after.Ready ∧ ∃ sent, Advances inputs before after sent := by
  induction path with
  | refl => exact ⟨ready, [], .refl before⟩
  | tail _ move ih =>
    obtain ⟨readyMiddle, sent, advances⟩ := ih
    obtain ⟨more, advancesMore⟩ := move_advances move readyMiddle
    exact ⟨move_ready move readyMiddle, _, advances.trans advancesMore⟩

/-! ## New heights -/

theorem newHeight_ready {height : Nat} {opened : Engine}
    (newHeight : NewHeight env event engine height opened) :
    opened.Ready ∧ opened.height = height ∧ opened.pendingHeight = none ∧
      ∃ resent, opened.outputs = engine.outputs ++ resent ∧ appliedBlocks resent = [] ∧
        ∀ output ∈ resent, output.acts = false ∧ output ≠ .consensusHalt := by
  obtain ⟨openedHeight, undecided, _, resent, outputs, votes⟩ := newHeight_opened newHeight
  refine ⟨.of_undecided undecided (newHeight_heldHeight newHeight), openedHeight, undecided.2,
    resent, outputs, ?_, ?_⟩
  · refine List.filterMap_eq_nil_iff.mpr fun output member => ?_
    obtain ⟨vote, isPrecommit, isVote⟩ := votes output member
    rw [isVote]
    rfl
  · intro output member
    obtain ⟨vote, isPrecommit, isVote⟩ := votes output member
    rw [isVote]
    exact ⟨rfl, Output.noConfusion⟩

theorem poll_stopped (fuel : Nat) (stopped : engine.running = false) :
    handle env inputs fuel .pollTimers engine = some engine :=
  if_pos stopped

theorem handle_stopped {fuel : Nat} (stopped : engine.running = false)
    (notStart : ∀ height, event ≠ .start height)
    (notNoted : ∀ height, event ≠ .noteChainHead height) (notPropose : event ≠ .tryPropose)
    (ran : handle env inputs fuel event engine = some after) : after = engine := by
  have asleep : ∀ {result : Option Engine},
      (if engine.running then result else some engine) = some after → after = engine := by
    intro result same
    rw [stopped] at same
    exact (Option.some.inj same).symm
  cases event with
  | start height => exact absurd rfl (notStart height)
  | noteChainHead height => exact absurd rfl (notNoted height)
  | tryPropose => exact absurd rfl notPropose
  | pollTimers =>
    exact (Option.some.inj ((poll_stopped fuel stopped).symm.trans ran)).symm
  | stop =>
    have same : engine.stop = engine := by
      rw [stop, stopped]
      rfl
    exact (Option.some.inj ran).symm.trans same
  | onProposal proposal => exact asleep ran
  | onPrevote vote => exact asleep ran
  | onPrecommit vote => exact asleep ran
  | onTimeoutVote vote => exact asleep ran

/-! ## One event -/

/-- What an event does to an engine that is due at `next`: it acts and halts there only, and the
height it is due at afterwards follows the blocks that were applied. -/
structure ActsAt (inputs : Inputs) (next : Nat) (engine after : Engine) (sent : List Output) :
    Prop where
  outputs : after.outputs = engine.outputs ++ sent
  acting : ∀ output ∈ sent, output.acts = true ∨ output = .consensusHalt → after.height = next
  progress : (appliedBlocks sent = [] ∧ (after.running = true → after.stateHeight = next)) ∨
    ∃ block, appliedBlocks sent = [block] ∧ inputs.onBlockCommitted block = true ∧
      block.header.height = next ∧ after.stateHeight = next + 1

theorem stateHeight_of_pending {height : Nat} (pending : engine.pendingHeight = some height) :
    engine.stateHeight = height := by
  rw [stateHeight, pending]
  rfl

theorem stateHeight_of_idle (idle : engine.pendingHeight = none) :
    engine.stateHeight = engine.height := by
  rw [stateHeight, idle]
  rfl

theorem Advances.actsAt {next : Nat}
    (advances : Advances inputs engine after sent) (due : engine.stateHeight = next) :
    ActsAt inputs next engine after sent where
  outputs := advances.outputs
  acting := by
    intro output member acts
    by_cases idle : engine.pendingHeight = none
    · rw [advances.height, ← due, stateHeight_of_idle idle]
    · obtain ⟨quiet, noHalt⟩ := advances.waits idle output member
      rcases acts with isAct | isHalt
      · exact absurd (quiet.symm.trans isAct) Bool.false_ne_true
      · exact absurd isHalt noHalt
  progress := by
    rcases advances.progress with ⟨none, same⟩ | ⟨block, one, accepted, idle, height, pending⟩
    · refine Or.inl ⟨none, fun _ => ?_⟩
      rw [← due, stateHeight, stateHeight, same, advances.height]
    · have isNext : engine.height = next := (stateHeight_of_idle idle).symm.trans due
      refine Or.inr ⟨block, one, accepted, height.trans isNext, ?_⟩
      rw [stateHeight_of_pending pending, isNext]

/-- Sending the logged votes again comes before anything else. -/
theorem ActsAt.after_resent {next : Nat} {opened : Engine} {resent : List Output}
    (acts : ActsAt inputs next opened after sent)
    (outputs : opened.outputs = engine.outputs ++ resent) (nothing : appliedBlocks resent = [])
    (quiet : ∀ output ∈ resent, output.acts = false ∧ output ≠ .consensusHalt) :
    ActsAt inputs next engine after (resent ++ sent) where
  outputs := by rw [acts.outputs, outputs, List.append_assoc]
  acting := by
    intro output member acting
    rcases List.mem_append.mp member with early | late
    · obtain ⟨noAct, noHalt⟩ := quiet output early
      rcases acting with isAct | isHalt
      · exact absurd (noAct.symm.trans isAct) Bool.false_ne_true
      · exact absurd isHalt noHalt
    · exact acts.acting output late acting
  progress := by
    rw [appliedBlocks_append, nothing, List.nil_append]
    exact acts.progress

/-- An engine that is due at `next` while it runs, and is started there only. -/
theorem handle_actsAt {fuel next : Nat} (ready : engine.Ready)
    (unnoted : engine.externalNextHeight = 0)
    (due : engine.running = true → engine.stateHeight = next)
    (starts : ∀ height, event = .start height → height = next)
    (notNoted : ∀ height, event ≠ .noteChainHead height) (notPropose : event ≠ .tryPropose)
    (ran : handle env inputs fuel event engine = some after) :
    after.Ready ∧ ∃ sent, ActsAt inputs next engine after sent := by
  have opens : ∀ height, Opened env inputs anyGrants event engine height after → height = next →
      after.Ready ∧ ∃ sent, ActsAt inputs next engine after sent := by
    rintro height ⟨opened, newHeight, _, path⟩ isNext
    obtain ⟨openedReady, openedHeight, idle, resent, outputs, nothing, quiet⟩ :=
      newHeight_ready newHeight
    obtain ⟨afterReady, sent, advances⟩ := path_advances path.moves openedReady
    have openedDue : opened.stateHeight = next :=
      (stateHeight_of_idle idle).trans (openedHeight.trans isNext)
    exact ⟨afterReady, _, (advances.actsAt openedDue).after_resent outputs nothing quiet⟩
  cases running : engine.running with
  | true =>
    cases (handle_outcome (sourced_any engine) (allows_any env inputs event engine) ran).2 with
    | acts path =>
      obtain ⟨afterReady, sent, advances⟩ := path_advances path.moves ready
      exact ⟨afterReady, sent, advances.actsAt (due running)⟩
    | notes height isNote => exact absurd isNote (notNoted height)
    | opens height opening opened =>
      rcases opening with ⟨_, stopped⟩ | ⟨_, pending⟩ | ⟨isNoted, above⟩
      · exact absurd (stopped.symm.trans running) Bool.false_ne_true
      · exact opens height opened ((stateHeight_of_pending pending).symm.trans (due running))
      · rw [← isNoted, unnoted] at above
        exact absurd above (Nat.not_lt_zero _)
  | false =>
    by_cases isStart : ∃ height, event = .start height
    · obtain ⟨height, rfl⟩ := isStart
      exact opens height (start_opens (allows_any env inputs (.start height) engine).skips
        (sourced_any engine) running ran).2 (starts height rfl)
    · have same := handle_stopped running (fun height isThat => isStart ⟨height, isThat⟩)
        notNoted notPropose ran
      refine ⟨same ▸ ready, [], ?_, ?_, Or.inl ⟨rfl, ?_⟩⟩
      · rw [same, List.append_nil]
      · exact fun _ none => absurd none List.not_mem_nil
      · intro stillRunning
        rw [same, running] at stillRunning
        cases stillRunning

end Engine

end Clarity.Consensus
