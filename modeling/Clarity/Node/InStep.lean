import Clarity.Consensus.Progress
import Clarity.Consensus.ProposalCodec
import Clarity.Node.EmergencySet
import Clarity.Node.Linkage

/-!
Contract: the height the engine works at, and the head of the chain its node keeps.

Owns: `NodeState`, an engine with the ledger of its node; `NodeStep`, one event of the engine as the
node wires it, a relayed block, a batch of the synchronisation or a proposal that makes the node
apply a block the engine holds; `StaysInStep`, what the engine may do beside a head that others move
too; and the runs in which it does that.

The node calls `start`, `stop`, `onProposal`, `onPrevote`, `onPrecommit` and `pollTimers` of the
engine. It never calls `noteChainHead`.
-/

namespace Clarity

open Common Crypto Clarity.Core Library State Consensus
open Relation

/-- What the configuration of a node fixes. -/
structure NodeSetup where
  chain : ChainEnv
  chainId : Nat
  config : Config
  order : IterationOrder
  validatorId : Nat
  sign : Hash → Signature

structure NodeState where
  engine : Engine
  ledger : Ledger
  /-- The blocks that were applied, but not by the engine. -/
  external : List AppliedBlock

namespace NodeSetup

variable (setup : NodeSetup)

/-- The callbacks of `buildConsensusDeps` that read the chain. -/
def view (ledger : Ledger) : ChainView where
  myValidatorId := setup.validatorId
  sign := setup.sign
  activeSet := Node.activeSet setup.chain.sorter ledger.state ledger.head.height
  stateLookupValidator := ledger.state.getValidator
  chainId := setup.chainId
  parentHash := ledger.head.hash
  myAddress := ((ledger.state.getValidator setup.validatorId).map (·.rewardAddress)).getD 0

/-- The environment of one event: a block that is decided at `height` is applied before the next
height is asked about. -/
def env (height : Nat) (before after : Ledger) : Env where
  crypto := setup.chain.crypto
  config := setup.config
  order := setup.order
  view := fun asked => if asked = height + 1 then setup.view after else setup.view before

def commit (nowMs : Nat) (ledger : Ledger) (blocks : List Block) : Ledger :=
  blocks.foldl
    (fun ledger block => (ledger.onBlockCommitted setup.chain setup.chainId nowMs block).1) ledger

/-- The node that simulates blocks on a ledger. -/
def simulator (ledger : Ledger) : Node where
  chain := setup.chain
  chainId := setup.chainId
  preState := fun _ => ledger.state

/-- The callbacks that simulate and apply work on the ledger; the others may answer anything. A block
may be refused for other reasons too: the transaction of the database may throw. -/
structure Answers (inputs : Inputs) (ledger : Ledger) : Prop where
  simulates : inputs.simulateBlock = (setup.simulator ledger).simulateBlock inputs.nowMs
  commits : ∀ block, inputs.onBlockCommitted block = true →
    (ledger.applyCommittedBlock setup.chain setup.chainId inputs.nowMs block).isOk = true

/-- `handleIncomingProposal`: an emergency proposal after the head conflicts with a block the engine
holds a quorum for. -/
def conflictingBlock (node : NodeState) (proposal : Proposal) : Option Block :=
  match Block.deserialize proposal.blockBytes with
  | none => none
  | some proposed =>
    if proposal.height = node.ledger.head.height + 1 ∧ proposed.header.emergencyRotation > 0 then
      (node.engine.heldQuorumBlock (setup.env node.engine.height node.ledger node.ledger)
        proposal.height).filter fun held =>
          held.hash setup.chain.crypto ≠ proposed.hash setup.chain.crypto
    else none

end NodeSetup

/-- The calls a node makes: it starts the engine at the height after its head. -/
def NodeCall (ledger : Ledger) : Consensus.Event → Prop
  | .start height => height = ledger.head.height + 1
  | .onTimeoutVote _ => False
  | .noteChainHead _ => False
  | .tryPropose => False
  | _ => True

instance (ledger : Ledger) : DecidablePred (NodeCall ledger)
  | .start height => inferInstanceAs (Decidable (height = ledger.head.height + 1))
  | .onTimeoutVote _ => .isFalse id
  | .noteChainHead _ => .isFalse id
  | .tryPropose => .isFalse id
  | .stop => .isTrue trivial
  | .onProposal _ => .isTrue trivial
  | .onPrevote _ => .isTrue trivial
  | .onPrecommit _ => .isTrue trivial
  | .pollTimers => .isTrue trivial

/-- One step of a node, with what its engine sends and what others apply. -/
inductive NodeStep (setup : NodeSetup) :
    NodeState → List Output → List AppliedBlock → NodeState → Prop
  | engine {node : NodeState} {event : Consensus.Event} {inputs : Inputs} {fuel : Nat}
      {after : Engine} {sent : List Output} (call : NodeCall node.ledger event)
      (answers : setup.Answers inputs node.ledger)
      (ran : handle (setup.env after.height node.ledger
          (setup.commit inputs.nowMs node.ledger (appliedBlocks sent))) inputs fuel event
        node.engine = some after)
      (outputs : after.outputs = node.engine.outputs ++ sent) :
      NodeStep setup node sent []
        { node with
          engine := after
          ledger := setup.commit inputs.nowMs node.ledger (appliedBlocks sent) }
  | relay {node : NodeState} {ledger : Ledger} {applied : List AppliedBlock} (nowMs : Nat)
      (block : Block)
      (ran : node.ledger.handleIncomingBlock setup.chain setup.chainId nowMs block =
        (ledger, applied)) :
      NodeStep setup node [] applied
        { node with ledger := ledger, external := node.external ++ applied }
  | sync {node : NodeState} {ledger : Ledger} {applied : List AppliedBlock} (nowMs : Nat)
      (blocks : List Block)
      (ran : node.ledger.applyBlocks setup.chain setup.chainId nowMs blocks = (ledger, applied)) :
      NodeStep setup node [] applied
        { node with ledger := ledger, external := node.external ++ applied }
  -- where the block is refused the proposal goes on to the engine
  | held {node : NodeState} {ledger : Ledger} {applied : List AppliedBlock} (nowMs : Nat)
      (message : Bytes) (proposal : Proposal) (block : Block)
      (decoded : decodeProposal setup.chain.crypto message = some proposal)
      (conflict : setup.conflictingBlock node proposal = some block)
      (ran : node.ledger.applyHeld setup.chain setup.chainId nowMs proposal.height block =
        (ledger, applied)) :
      NodeStep setup node [] applied
        { node with ledger := ledger, external := node.external ++ applied }

/-- The next poll takes the engine to a height. -/
def MovesTo (engine : Engine) (height : Nat) : Prop :=
  ∀ env inputs fuel polled, handle env inputs fuel .pollTimers engine = some polled →
    polled.height = height

/-- An engine that acts does so at the height after the head, or its next poll takes it there; and
it does not halt at a height that others already applied. -/
structure StaysInStep (before : NodeState) (sent : List Output) (after : NodeState) : Prop where
  acts : (∃ output ∈ sent, output.acts = true) →
    before.ledger.head.height + 1 = after.engine.height ∨
      MovesTo after.engine (before.ledger.head.height + 1)
  halts : .consensusHalt ∈ sent →
    ∀ applied ∈ before.external, applied.block.header.height ≠ after.engine.height

/-- Others move the head upwards, and only while the engine is stopped. -/
structure Undisturbed (node : NodeState) (applied : List AppliedBlock) : Prop where
  stopped : applied ≠ [] → node.engine.running = false
  upwards : ∀ entry ∈ applied, entry.head.height < entry.block.header.height

def CalmStep (setup : NodeSetup) (before after : NodeState) : Prop :=
  ∃ sent applied, NodeStep setup before sent applied after ∧ Undisturbed before applied

/-! ## The invariant -/

/-- The engine waits for the block after the head while it runs, no head was noted, and the blocks
that others applied lie below the head. -/
structure InStep (node : NodeState) : Prop where
  ready : node.engine.Ready
  unnoted : node.engine.externalNextHeight = 0
  next : node.engine.running = true → node.ledger.head.height + 1 = node.engine.stateHeight
  below : ∀ applied ∈ node.external, applied.block.header.height ≤ node.ledger.head.height

variable {setup : NodeSetup} {chain : ChainEnv} {chainId nowMs : Nat} {ledger reached : Ledger}
variable {node before after : NodeState} {sent : List Output} {applied : List AppliedBlock}

theorem Ledger.appliesAll_of_deliver (delivery : Delivery)
    (ran : ledger.deliver chain chainId nowMs delivery = (reached, applied)) :
    AppliesAll chain chainId ledger applied reached := by
  have applies := @Ledger.deliver_appliesAll chain chainId nowMs ledger delivery
  rwa [ran] at applies

/-- Blocks that go upwards leave a head above all of them. -/
theorem AppliesAll.head_ge (applies : AppliesAll chain chainId ledger applied reached)
    (upwards : ∀ entry ∈ applied, entry.head.height < entry.block.header.height) :
    ledger.head.height ≤ reached.head.height ∧
      ∀ entry ∈ applied, entry.block.header.height ≤ reached.head.height := by
  induction applies with
  | start => exact ⟨Nat.le_refl _, fun _ none => absurd none List.not_mem_nil⟩
  | @apply history middle reached entry _ applies ih =>
    obtain ⟨higher, all⟩ := ih fun earlier member =>
      upwards earlier (List.mem_append_left _ member)
    obtain ⟨state, _, isReached⟩ := applies.extension
    have above := upwards entry (List.mem_append_right _ (List.mem_singleton.mpr rfl))
    have head : reached.head.height = entry.block.header.height := by
      rw [isReached]
      rfl
    rw [applies.head] at above
    refine ⟨by omega, fun other member => ?_⟩
    rcases List.mem_append.mp member with early | last
    · have := all other early
      omega
    · rw [List.mem_singleton.mp last]
      omega

theorem InStep.external (inStep : InStep node) (calm : Undisturbed node applied)
    (applies : AppliesAll chain chainId node.ledger applied reached) :
    InStep { node with ledger := reached, external := node.external ++ applied } := by
  obtain ⟨higher, all⟩ := applies.head_ge calm.upwards
  refine ⟨inStep.ready, inStep.unnoted, ?_, ?_⟩
  · intro running
    cases applies with
    | start => exact inStep.next running
    | apply earlier last =>
      have stopped := calm.stopped (by simp)
      exact absurd (stopped.symm.trans running) Bool.false_ne_true
  · intro entry member
    rcases List.mem_append.mp member with early | late
    · exact (inStep.below entry early).trans higher
    · exact all entry late

/-! ## The engine -/

theorem NodeSetup.commit_head {block : Block} {inputs : Inputs}
    (answers : setup.Answers inputs ledger) (accepted : inputs.onBlockCommitted block = true) :
    (setup.commit inputs.nowMs ledger [block]).head.height = block.header.height := by
  have applies := answers.commits block accepted
  show (ledger.onBlockCommitted setup.chain setup.chainId inputs.nowMs block).1.head.height = _
  unfold Ledger.onBlockCommitted Ledger.attempt
  split
  next refused =>
    rw [refused] at applies
    cases applies
  next extended =>
    obtain ⟨state, _, isExtended⟩ := Ledger.applyCommittedBlock_ok extended
    rw [isExtended]
    rfl

theorem InStep.actsAt {event : Consensus.Event} {env : Env} {inputs : Inputs} {fuel : Nat}
    {engine : Engine} (inStep : InStep node) (call : NodeCall node.ledger event)
    (ran : handle env inputs fuel event node.engine = some engine)
    (outputs : engine.outputs = node.engine.outputs ++ sent) :
    engine.Ready ∧ engine.externalNextHeight = 0 ∧
      Engine.ActsAt inputs (node.ledger.head.height + 1) node.engine engine sent := by
  have notNoted : ∀ height, event ≠ .noteChainHead height := by
    rintro height rfl
    exact call
  have notPropose : event ≠ .tryPropose := by
    rintro rfl
    exact call
  have starts : ∀ height, event = .start height → height = node.ledger.head.height + 1 := by
    rintro height rfl
    exact call
  obtain ⟨ready, emitted, acts⟩ := Engine.handle_actsAt inStep.ready inStep.unnoted
    (fun running => (inStep.next running).symm) starts notNoted notPropose ran
  have same : emitted = sent := List.append_cancel_left (acts.outputs.symm.trans outputs)
  have outcome := (Engine.handle_outcome (Engine.sourced_any node.engine)
    (Engine.allows_any env inputs event node.engine) ran).2
  exact ⟨ready, outcome.unnoted notNoted inStep.unnoted, same ▸ acts⟩

theorem InStep.engine {inputs : Inputs} {engine : Engine} (inStep : InStep node)
    (answers : setup.Answers inputs node.ledger) (ready : engine.Ready)
    (unnoted : engine.externalNextHeight = 0)
    (acts : Engine.ActsAt inputs (node.ledger.head.height + 1) node.engine engine sent) :
    InStep { node with
      engine := engine
      ledger := setup.commit inputs.nowMs node.ledger (appliedBlocks sent) } := by
  rcases acts.progress with ⟨none, due⟩ | ⟨block, one, accepted, height, due⟩
  · rw [none]
    exact ⟨ready, unnoted, fun running => (due running).symm, inStep.below⟩
  · rw [one]
    have head := NodeSetup.commit_head answers accepted
    refine ⟨ready, unnoted, fun _ => ?_, fun entry member => ?_⟩
    · show (setup.commit inputs.nowMs node.ledger [block]).head.height + 1 = engine.stateHeight
      rw [head, height, due]
    · show entry.block.header.height ≤ (setup.commit inputs.nowMs node.ledger [block]).head.height
      have lower := inStep.below entry member
      omega

theorem InStep.step (inStep : InStep before) (step : NodeStep setup before sent applied after)
    (calm : Undisturbed before applied) : InStep after := by
  cases step with
  | engine call answers ran outputs =>
    obtain ⟨ready, unnoted, acts⟩ := inStep.actsAt call ran outputs
    exact inStep.engine answers ready unnoted acts
  | relay nowMs block ran =>
    exact inStep.external calm
      (Ledger.appliesAll_of_deliver (.relayed block) ran)
  | sync nowMs blocks ran =>
    exact inStep.external calm
      (Ledger.appliesAll_of_deliver (.synced blocks) ran)
  | held nowMs message proposal block _ _ ran =>
    exact inStep.external calm
      (Ledger.appliesAll_of_deliver (.held proposal.height block) ran)

theorem InStep.run (inStep : InStep before) (run : ReflTransGen (CalmStep setup) before after) :
    InStep after := by
  induction run with
  | refl => exact inStep
  | tail _ last ih =>
    obtain ⟨_, _, lastStep, calm⟩ := last
    exact ih.step lastStep calm

theorem InStep.stays (inStep : InStep before) (step : NodeStep setup before sent applied after) :
    StaysInStep before sent after := by
  cases step with
  | engine call answers ran outputs =>
    obtain ⟨_, _, acts⟩ := inStep.actsAt call ran outputs
    constructor
    · rintro ⟨output, member, isAct⟩
      exact Or.inl (acts.acting output member (Or.inl isAct)).symm
    · intro halts entry member same
      have height : entry.block.header.height = before.ledger.head.height + 1 :=
        same.trans (acts.acting _ halts (Or.inr rfl))
      have lower := inStep.below entry member
      omega
  | relay =>
    exact ⟨fun acting => absurd acting (by simp), fun halting => absurd halting (by simp)⟩
  | sync =>
    exact ⟨fun acting => absurd acting (by simp), fun halting => absurd halting (by simp)⟩
  | held =>
    exact ⟨fun acting => absurd acting (by simp), fun halting => absurd halting (by simp)⟩

/-- A node when it comes up: the engine has not been started. -/
def NodeState.initial (walVotes : Table (Nat × Nat × Nat) (Vote × Bool))
    (walLocks : Table (Nat × Nat) Hash) (ledger : Ledger) : NodeState where
  engine := .initial walVotes walLocks
  ledger := ledger
  external := []

theorem InStep.initial (walVotes : Table (Nat × Nat × Nat) (Vote × Bool))
    (walLocks : Table (Nat × Nat) Hash) (ledger : Ledger) :
    InStep (.initial walVotes walLocks ledger) where
  ready := .of_undecided ⟨rfl, rfl⟩ fun _ none => absurd none List.not_mem_nil
  unnoted := rfl
  next := fun running => Bool.noConfusion running
  below := fun _ none => absurd none List.not_mem_nil

/-- As long as others move the head upwards and only while the engine is stopped, the engine acts
after the head, and halts at no height that others applied. -/
theorem calm_run_staysInStep {walVotes : Table (Nat × Nat × Nat) (Vote × Bool)}
    {walLocks : Table (Nat × Nat) Hash} {ledger : Ledger}
    (run : ReflTransGen (CalmStep setup) (.initial walVotes walLocks ledger) before)
    (step : NodeStep setup before sent applied after) : StaysInStep before sent after :=
  (InStep.run (.initial walVotes walLocks ledger) run).stays step

/-! ## A relayed block during a commit -/

namespace Consensus.Committee

open Consensus

def firstMember : NodeSetup where
  chain := supplyChain
  chainId := 7
  config := {}
  order := .insertion
  validatorId := 1
  sign := signAs 1

def rewardProposal : Proposal := proposalOf 0 2 { firstReward with quorumSignatures := [] }

def rewardPrecommit (id : Nat) : Vote := precommitOf 0 id firstReward

def relayedLedger : Ledger :=
  (genesisLedger.handleIncomingBlock firstMember.chain 7 20000 firstReward).1

def memberInputs (ledger : Ledger) (nowMs : Nat) : Inputs :=
  { inputs nowMs false with
    simulateBlock := (firstMember.simulator ledger).simulateBlock nowMs
    onBlockCommitted := fun block =>
      (ledger.applyCommittedBlock firstMember.chain firstMember.chainId nowMs block).isOk }

def memberStep (ledger : Ledger) (engine : Engine) (entry : Nat × Event) : Option Engine :=
  (handle (firstMember.env 1 ledger ledger) (memberInputs ledger entry.1) 9 entry.2 engine).filter
    fun after => after.height == 1 && engine.outputs.isPrefixOf after.outputs &&
      (appliedBlocks (after.outputs.drop engine.outputs.length)).isEmpty

def beforeRelay : List (Nat × Event) := [(20000, .start 1), (20000, .onProposal rewardProposal)]

/-- The block has been relayed; now the precommits arrive, and the polls try to apply it. -/
def afterRelay : List (Nat × Event) :=
  [(20000, .onPrecommit (rewardPrecommit 2)), (20000, .onPrecommit (rewardPrecommit 3)),
    (20000, .onPrecommit (rewardPrecommit 4)), (30000, .pollTimers), (40000, .pollTimers),
    (50000, .pollTimers), (60000, .pollTimers)]

/-- A step of the first member, whoever else works on its chain. -/
def MemberStep (before after : NodeState) : Prop :=
  ∃ sent applied, NodeStep firstMember before sent applied after

theorem memberStep_nodeStep {engine after : Engine} {entry : Nat × Event}
    {external : List AppliedBlock} (call : NodeCall ledger entry.2)
    (ran : memberStep ledger engine entry = some after) :
    after.height = 1 ∧
      NodeStep firstMember ⟨engine, ledger, external⟩ (after.outputs.drop engine.outputs.length) []
        ⟨after, ledger, external⟩ := by
  obtain ⟨handled, kept⟩ := Option.filter_eq_some_iff.mp ran
  simp only [Bool.and_eq_true, beq_iff_eq, List.isEmpty_iff, List.isPrefixOf_iff_prefix] at kept
  obtain ⟨⟨height, grows⟩, nothing⟩ := kept
  have outputs : after.outputs =
      engine.outputs ++ after.outputs.drop engine.outputs.length := by
    obtain ⟨suffix, isSuffix⟩ := grows
    rw [← isSuffix, List.drop_left]
  have answers : firstMember.Answers (memberInputs ledger entry.1) ledger :=
    ⟨rfl, fun _ => id⟩
  have same : firstMember.commit (memberInputs ledger entry.1).nowMs ledger
      (appliedBlocks (after.outputs.drop engine.outputs.length)) = ledger := by
    rw [nothing]
    rfl
  have step := @NodeStep.engine firstMember ⟨engine, ledger, external⟩ entry.2
    (memberInputs ledger entry.1) _ after _ call answers (by simpa only [same, height] using handled)
    outputs
  exact ⟨height, by simpa only [same] using step⟩

theorem memberSteps_run {engine after : Engine} {events : List (Nat × Event)}
    {external : List AppliedBlock} (calls : ∀ entry ∈ events, NodeCall ledger entry.2)
    (ran : events.foldlM (memberStep ledger) engine = some after) :
    ReflTransGen MemberStep ⟨engine, ledger, external⟩ ⟨after, ledger, external⟩ := by
  induction events generalizing engine with
  | nil =>
    cases ran
    exact .refl
  | cons entry rest ih =>
    obtain ⟨middle, first, later⟩ := Option.bind_eq_some_iff.mp ran
    have step := (@memberStep_nodeStep _ _ _ _ external (calls entry List.mem_cons_self) first).2
    refine .head ⟨_, _, step⟩ (ih (fun other member => ?_) later)
    exact calls other (List.mem_cons_of_mem entry member)

/-- The member prevotes a block, the block is relayed to it and applied, and then the precommits
arrive: the engine hands the block over again and again while the head is already there, and halts
in the end. -/
theorem relayed_block_halts_engine :
    ∃ before sent after, ReflTransGen MemberStep (.initial .empty .empty genesisLedger) before ∧
      NodeStep firstMember before sent [] after ∧ before.ledger.head.height = 1 ∧
      after.engine.height = 1 ∧ (∃ output ∈ sent, output.acts = true) ∧
      ¬MovesTo after.engine 2 ∧ .consensusHalt ∈ sent ∧
      before.external = [⟨.relay, genesisLedger.head, firstReward⟩] ∧
      ¬StaysInStep before sent after := by
  have runs : ((beforeRelay.foldlM (memberStep genesisLedger) (.initial .empty .empty)).bind
      fun prevoted => (afterRelay.foldlM (memberStep relayedLedger) prevoted).bind fun before =>
        (memberStep relayedLedger before (70000, .pollTimers)).filter fun after =>
          (after.outputs.drop before.outputs.length).any Output.acts &&
            (after.outputs.drop before.outputs.length).contains .consensusHalt &&
              !after.running).isSome = true := by
    decide +kernel
  obtain ⟨after, ran⟩ := Option.isSome_iff_exists.mp runs
  obtain ⟨prevoted, first, ran⟩ := Option.bind_eq_some_iff.mp ran
  obtain ⟨before, second, ran⟩ := Option.bind_eq_some_iff.mp ran
  obtain ⟨polled, facts⟩ := Option.filter_eq_some_iff.mp ran
  simp only [Bool.and_eq_true, List.any_eq_true, List.contains_iff_mem, Bool.not_eq_true'] at facts
  obtain ⟨⟨acting, halts⟩, stopped⟩ := facts
  have relayed : genesisLedger.handleIncomingBlock firstMember.chain firstMember.chainId 20000
      firstReward =
      (relayedLedger, [⟨.relay, genesisLedger.head, firstReward⟩]) := by
    decide +kernel
  have head : relayedLedger.head.height = 1 := by decide +kernel
  have landed : MemberStep ⟨prevoted, genesisLedger, []⟩
      ⟨prevoted, relayedLedger, [⟨.relay, genesisLedger.head, firstReward⟩]⟩ :=
    ⟨_, _, NodeStep.relay 20000 firstReward relayed⟩
  have prevotes := @memberSteps_run genesisLedger _ prevoted beforeRelay [] (by decide +kernel)
    first
  have retries := @memberSteps_run relayedLedger prevoted before afterRelay
    [⟨.relay, genesisLedger.head, firstReward⟩] (by decide +kernel) second
  obtain ⟨height, step⟩ := @memberStep_nodeStep relayedLedger before after (70000, .pollTimers)
    [⟨.relay, genesisLedger.head, firstReward⟩] trivial polled
  have stays : ¬MovesTo after 2 := by
    intro moves
    have same := @Engine.poll_stopped (env 4 1) (inputs 0 false) after 0 stopped
    exact absurd ((moves _ _ _ _ same).symm.trans height) (by decide)
  refine ⟨⟨before, relayedLedger, [⟨.relay, genesisLedger.head, firstReward⟩]⟩, _,
    ⟨after, relayedLedger, [⟨.relay, genesisLedger.head, firstReward⟩]⟩,
    prevotes.trans (.head landed retries), step, ?_, height, acting, stays, halts, rfl, ?_⟩
  · simp only [head]
  · exact fun inStep => inStep.halts halts _ (List.mem_singleton.mpr rfl) height.symm

/-- The member starts and prevotes; nothing is relayed. -/
theorem calm_member_staysInStep : ∃ before sent after,
      ReflTransGen (CalmStep firstMember) (.initial .empty .empty genesisLedger) before ∧
      NodeStep firstMember before sent [] after ∧ (∃ output ∈ sent, output.acts = true) ∧
      StaysInStep before sent after := by
  have runs : ((memberStep genesisLedger (.initial .empty .empty) (20000, .start 1)).bind
      fun before => (memberStep genesisLedger before (20000, .onProposal rewardProposal)).filter
        fun after => (after.outputs.drop before.outputs.length).any Output.acts).isSome = true := by
    decide +kernel
  obtain ⟨after, ran⟩ := Option.isSome_iff_exists.mp runs
  obtain ⟨before, started, ran⟩ := Option.bind_eq_some_iff.mp ran
  obtain ⟨prevoted, acting⟩ := Option.filter_eq_some_iff.mp ran
  rw [List.any_eq_true] at acting
  have start := (@memberStep_nodeStep _ _ _ _ [] (by decide +kernel) started).2
  have calm : Undisturbed ⟨.initial .empty .empty, genesisLedger, []⟩ [] :=
    ⟨fun none => absurd rfl none, fun _ none => absurd none List.not_mem_nil⟩
  have run : ReflTransGen (CalmStep firstMember) (.initial .empty .empty genesisLedger)
      ⟨before, genesisLedger, []⟩ := .single ⟨_, _, start, calm⟩
  have step := (@memberStep_nodeStep _ _ _ (20000, .onProposal rewardProposal) [] trivial
    prevoted).2
  exact ⟨_, _, _, run, step, acting, calm_run_staysInStep run step⟩

end Consensus.Committee

end Clarity
