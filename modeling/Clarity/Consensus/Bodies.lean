import Clarity.Consensus.Committee
import Clarity.Consensus.Engine.Runs
import Clarity.Node.Simulation

/-!
Contract: which blocks an engine hands to the chain, body and all.

Owns: `Simulated`, that every block an engine holds, has decided or has handed on passed the
node's simulation; that every move keeps it as long as no delivered proposal carries the hash of a
block that passes with a body that does not; and a run in which one does.

The hash of a block is the hash of its header. A proposal whose hash the engine already holds is
taken without a second simulation, and its block replaces the one that was simulated.
-/

namespace Clarity.Consensus

open Common Crypto Clarity.Core Library Relation

def PassedAt (node : Node) (times : List Nat) (block : Block) : Prop :=
  ∃ nowMs ∈ times, node.Passes nowMs block

/-- The block of the proposal passes whenever a block with its hash does. -/
def Proposal.SharesVerdict (crypto : Primitives) (node : Node) (proposal : Proposal) : Prop :=
  ∀ block, Block.deserialize proposal.blockBytes = some block →
    ∀ nowMs other, other.hash crypto = block.hash crypto → node.Passes nowMs other →
      node.Passes nowMs block

namespace Engine

variable {env : Env} {inputs : Inputs} {grants : Grants} {node : Node} {times : List Nat}
  {engine before after : Engine} {block : Block} {proposal : Proposal}

/-- Every block the engine holds, has decided or has handed on passed the simulation. -/
structure Simulated (env : Env) (node : Node) (times : List Nat) (engine : Engine) : Prop where
  hash : ∀ entry ∈ engine.proposalsByHash.entries, entry.2.hash env.crypto = entry.1
  held : ∀ entry ∈ engine.proposalsByHash.entries, PassedAt node times entry.2
  decided : ∀ block, engine.commitBlock = some block → PassedAt node times block
  handed : ∀ block, engine.Committed block → PassedAt node times block

/-! ## Accepted and own blocks -/

theorem validateProposal_simulated
    (valid : engine.validateProposal env inputs proposal block = true) :
    engine.proposalsByHash.contains (block.hash env.crypto) = true ∨
      simulationOk env inputs block = true := by
  unfold validateProposal at valid
  split at valid
  · cases valid
  · split at valid
    · cases valid
    · split at valid
      next known => exact Or.inl known
      · rw [Bool.and_eq_true] at valid
        exact Or.inr valid.2

theorem simulateFresh_simulated {attempts : Nat} {result : Block × Simulation}
    (ran : simulateFresh env inputs attempts block = some result) :
    result.2 = inputs.simulateBlock result.1 ∧ (inputs.simulateBlock result.1).ok = true := by
  induction attempts generalizing block with
  | zero => cases ran
  | succ attempts ih =>
    unfold simulateFresh at ran
    dsimp only at ran
    split at ran
    next simulated =>
      cases ran
      exact ⟨rfl, simulated⟩
    · split at ran
      · cases ran
      · split at ran
        · cases ran
        · exact ih ran

/-- The node simulates its own proposals, those it makes again included. -/
theorem makeProposal_passes (wired : inputs.simulateBlock = node.simulateBlock inputs.nowMs)
    (made : engine.makeProposal env inputs = some (proposal, block)) :
    proposal.blockHash = block.hash env.crypto ∧ node.Passes inputs.nowMs block := by
  obtain ⟨candidate, _, _, _, _, isSimulated, _, _, _, _, hash, _⟩ := makeProposal_spec made
  refine ⟨hash, ?_⟩
  unfold simulatedBlock at isSimulated
  split at isSimulated
  · dsimp only at isSimulated
    split at isSimulated
    next ok =>
      cases isSimulated
      rw [wired] at ok ⊢
      exact Node.passes_of_simulated candidate.header.epochFillsRoot ok
    · cases isSimulated
  · obtain ⟨result, ran, same⟩ := Option.map_eq_some_iff.mp isSimulated
    cases same
    obtain ⟨isSimulation, ok⟩ := simulateFresh_simulated ran
    rw [isSimulation]
    rw [wired] at ok ⊢
    exact Node.passes_of_simulated _ ok

/-- The block of a commit is a held one, with its round and signatures. -/
theorem blockToCommit_held {round : Nat} (quorum : engine.blockToCommit env round = some block) :
    ∃ entry ∈ engine.proposalsByHash.entries, ∃ signatures,
      block = { entry.2 with
        header := { entry.2.header with commitRound := round }
        quorumSignatures := signatures } := by
  unfold blockToCommit at quorum
  obtain ⟨container, _, quorum⟩ := Option.bind_eq_some_iff.mp quorum
  obtain ⟨hash, _, quorum⟩ := Option.bind_eq_some_iff.mp quorum
  obtain ⟨held, found, quorum⟩ := Option.bind_eq_some_iff.mp quorum
  dsimp only at quorum
  split at quorum
  · cases quorum
  · cases quorum
    exact ⟨(hash, held), Table.find?_eq_some_iff.mp found, _, rfl⟩

/-! ## Every move -/

/-- An accepted block passed itself, or shares the verdict of the one it replaces. -/
theorem acceptableBlock_passed (simulated : Simulated env node times engine)
    (current : inputs.nowMs ∈ times)
    (wired : inputs.simulateBlock = node.simulateBlock inputs.nowMs)
    (shares : proposal.SharesVerdict env.crypto node)
    (acceptable : engine.acceptableBlock env inputs proposal = some block) :
    block.hash env.crypto = proposal.blockHash ∧ PassedAt node times block := by
  obtain ⟨decoded, valid⟩ := acceptableBlock_spec acceptable
  refine ⟨(validateProposal_spec valid).1, ?_⟩
  rcases validateProposal_simulated valid with known | ok
  · obtain ⟨other, found⟩ := Option.isSome_iff_exists.mp known
    have member := Table.find?_eq_some_iff.mp found
    have otherHash := simulated.hash _ member
    obtain ⟨nowMs, isTime, passes⟩ := simulated.held _ member
    dsimp only at otherHash passes
    exact ⟨nowMs, isTime, shares block decoded nowMs other otherHash passes⟩
  · unfold simulationOk at ok
    simp only [Bool.and_eq_true, beq_iff_eq] at ok
    rw [wired] at ok
    exact ⟨inputs.nowMs, current, ok.1.1.1, ok.1.1.2⟩

theorem move_simulated (current : inputs.nowMs ∈ times)
    (wired : inputs.simulateBlock = node.simulateBlock inputs.nowMs)
    (shares : ∀ proposal, grants.proposed proposal → proposal.SharesVerdict env.crypto node)
    (move : Move env inputs grants before after) (simulated : Simulated env node times before) :
    Simulated env node times after := by
  have held : ∀ entry ∈ after.proposalsByHash.entries,
      entry.2.hash env.crypto = entry.1 ∧ PassedAt node times entry.2 := by
    intro entry member
    rcases held_of_move move member with old | ⟨proposal, isHash, ⟨source, _, acceptable⟩ | made⟩
    · exact ⟨simulated.hash entry old, simulated.held entry old⟩
    · rw [isHash]
      exact acceptableBlock_passed simulated current wired (shares proposal source) acceptable
    · obtain ⟨sameHash, passes⟩ := makeProposal_passes wired made
      rw [isHash]
      exact ⟨sameHash.symm, inputs.nowMs, current, passes⟩
  refine ⟨fun entry member => (held entry member).1, fun entry member => (held entry member).2,
    ?_, ?_⟩
  · intro block isDecided
    rcases decided_of_move move isDecided with old | ⟨round, _, quorum⟩
    · exact simulated.decided block old
    · obtain ⟨entry, member, signatures, isBlock⟩ := blockToCommit_held quorum
      obtain ⟨nowMs, isTime, passes⟩ := simulated.held entry member
      rw [isBlock]
      exact ⟨nowMs, isTime, passes.recommit round signatures⟩
  · intro block committed
    rcases move_committed move committed with old | decided
    · exact simulated.handed block old
    · exact simulated.decided block decided

theorem newHeight_simulated {event : Event} {height : Nat} {opened : Engine}
    (newHeight : NewHeight env event engine height opened)
    (simulated : Simulated env node times engine) : Simulated env node times opened := by
  obtain ⟨base, _, outputs, _, _, _, _, _, isOpened⟩ := newHeight.base
  obtain ⟨_, _, _, _, _, _, _, _, resent, result, _, votes⟩ := openHeight_cases env height base
  have sent : opened.outputs = engine.outputs ++ resent := by
    rw [isOpened, result, ← outputs]
    rfl
  have noBlocks : opened.proposalsByHash = .empty ∧ opened.commitBlock = none := by
    rw [isOpened, result]
    exact ⟨rfl, rfl⟩
  refine ⟨?_, ?_, ?_, ?_⟩
  · rw [noBlocks.1]
    intro entry member
    cases member
  · rw [noBlocks.1]
    intro entry member
    cases member
  · rw [noBlocks.2]
    intro block decided
    cases decided
  · rintro block ⟨applied, committed⟩
    rw [sent, List.mem_append] at committed
    rcases committed with old | isSent
    · exact simulated.handed block ⟨applied, old⟩
    · obtain ⟨vote, isPrecommit, isVote⟩ := votes _ isSent
      cases isVote

/-! ## Runs -/

/-- What a node may rely on when every delivered proposal shares the verdict of its hash. -/
def verdictGrants (env : Env) (node : Node) : Grants where
  delivered := fun _ _ => True
  proposed := fun proposal => proposal.SharesVerdict env.crypto node
  fallback := fun _ => True
  advance := fun _ _ => True

theorem handle_simulated {event : Event} {fuel : Nat}
    (sourced : engine.Sourced (verdictGrants env node))
    (simulated : Simulated env node times engine) (current : inputs.nowMs ∈ times)
    (wired : inputs.simulateBlock = node.simulateBlock inputs.nowMs)
    (shares : ∀ proposal, event = .onProposal proposal → proposal.SharesVerdict env.crypto node)
    (ran : handle env inputs fuel event engine = some after) :
    after.Sourced (verdictGrants env node) ∧ Simulated env node times after := by
  have allows : Allows env inputs (verdictGrants env node) event engine :=
    ⟨fun _ _ _ => trivial, shares, fun _ _ => trivial, fun _ _ => trivial, fun _ => trivial,
      fun _ _ => trivial⟩
  have kept : ∀ before after, Move env inputs (verdictGrants env node) before after →
      Simulated env node times before → Simulated env node times after :=
    fun _ _ move => move_simulated current wired (fun _ proposed => proposed) move
  obtain ⟨sourcedAfter, path | ⟨height, opened, newHeight, path⟩⟩ :=
    handle_handled sourced allows ran
  · exact ⟨sourcedAfter, path_invariant kept path simulated⟩
  · exact ⟨sourcedAfter, path_invariant kept path (newHeight_simulated newHeight simulated)⟩

end Engine

/-- The runs of a node's engine from any log, with the times of its events. Its simulations are
those of the node, and every event is `Allowed`. -/
inductive NodeRun (env : Env) (node : Node) (Allowed : Event → Prop) : List Nat → Engine → Prop
  | initial (walVotes : Table (Nat × Nat × Nat) (Vote × Bool)) (walLocks : Table (Nat × Nat) Hash) :
      NodeRun env node Allowed [] (Engine.initial walVotes walLocks)
  | step {times : List Nat} {engine after : Engine} {event : Event} {inputs : Inputs} {fuel : Nat}
      (run : NodeRun env node Allowed times engine) (allowed : Allowed event)
      (wired : inputs.simulateBlock = node.simulateBlock inputs.nowMs)
      (ran : handle env inputs fuel event engine = some after) :
      NodeRun env node Allowed (inputs.nowMs :: times) after

/-- A proposal that is delivered shares the verdict of its hash. -/
def SharedVerdicts (env : Env) (node : Node) (event : Event) : Prop :=
  ∀ proposal, event = .onProposal proposal → proposal.SharesVerdict env.crypto node

def runNode (env : Env) (node : Node) (fuel : Nat) :
    List (Nat × Bool × Event) → Engine → Option Engine
  | [], engine => some engine
  | (nowMs, timerExpired, event) :: rest, engine =>
    (handle env { Committee.inputs nowMs timerExpired with simulateBlock := node.simulateBlock nowMs }
      fuel event engine).bind (runNode env node fuel rest)

theorem nodeRun_of_runNode {env : Env} {node : Node} {Allowed : Event → Prop} {fuel : Nat}
    {events : List (Nat × Bool × Event)} {times : List Nat} {engine after : Engine}
    (run : NodeRun env node Allowed times engine) (allowed : ∀ entry ∈ events, Allowed entry.2.2)
    (ran : runNode env node fuel events engine = some after) :
    NodeRun env node Allowed ((events.map Prod.fst).reverse ++ times) after := by
  induction events generalizing engine times with
  | nil =>
    cases ran
    exact run
  | cons head rest ih =>
    obtain ⟨nowMs, timerExpired, event⟩ := head
    obtain ⟨middle, first, second⟩ := Option.bind_eq_some_iff.mp ran
    have stepped := run.step (allowed _ List.mem_cons_self) rfl first
    have later := ih stepped
      (fun entry member => allowed entry (List.mem_cons_of_mem _ member)) second
    rw [List.map_cons, List.reverse_cons, List.append_assoc]
    exact later

theorem NodeRun.simulated {env : Env} {node : Node} {times : List Nat} {engine : Engine}
    (run : NodeRun env node (SharedVerdicts env node) times engine) :
    engine.Sourced (Engine.verdictGrants env node) ∧ engine.Simulated env node times := by
  induction run with
  | initial walVotes walLocks =>
    refine ⟨⟨fun _ _ _ => trivial, ?_⟩, ?_, ?_, ?_, ?_⟩
    · rintro proposal (⟨entry, member, _⟩ | ⟨entry, member, _⟩)
      · cases member
      · cases member
    · intro entry member
      cases member
    · intro entry member
      cases member
    · intro block decided
      cases decided
    · rintro block ⟨applied, member⟩
      cases member
  | @step times _ _ _ inputs _ _ allowed wired ran ih =>
    obtain ⟨sourced, simulated⟩ := ih
    have widen : ∀ block, PassedAt node times block →
        PassedAt node (inputs.nowMs :: times) block := fun block =>
      Exists.imp fun _ => And.imp (List.mem_cons_of_mem _) id
    refine Engine.handle_simulated sourced ⟨simulated.hash, ?_, ?_, ?_⟩ List.mem_cons_self wired
      allowed ran
    · exact fun entry member => widen _ (simulated.held entry member)
    · exact fun block decided => widen _ (simulated.decided block decided)
    · exact fun block committed => widen _ (simulated.handed block committed)

/-- **Only simulated bodies are handed on.** In a run in which every delivered proposal shares the
verdict of its hash, every block handed to the chain passed the simulation as it is. -/
theorem committed_passed {env : Env} {node : Node} {times : List Nat} {engine : Engine}
    {block : Block} (run : NodeRun env node (SharedVerdicts env node) times engine)
    (committed : engine.Committed block) : PassedAt node times block :=
  run.simulated.2.handed block committed

/-! ## A body that was never simulated -/

namespace Committee

/-- The entry of a member in the genesis configuration. -/
def seat (id : Nat) (addressed : isNull (keyOf id) = false) : GenesisValidator :=
  { id := id
    rewardAddress := keyOf id
    isSeed := true
    consensusKey := keyOf id
    hasAddress := addressed }

def seats : List GenesisValidator :=
  [seat 1 (by decide), seat 2 (by decide), seat 3 (by decide), seat 4 (by decide)]

def freshNode : Node where
  chain := { crypto := crypto, root := fun _ => 9, sorter := stableSort }
  chainId := 7
  preState := fun _ => applyGenesis
    { chainId := 7
      validators := seats
      initialActiveSetSize := 4 }

def emptyBlock : Block :=
  { header :=
      { chainId := 7
        height := 1
        parentHash := 5
        proposer := keyOf 2
        stateRoot := 9
        txRoot := computeTxRoot crypto []
        validatorSetRoot := computeValidatorSetRoot crypto (members 4)
        activeValidatorCount := 4 }
    participants := members 4 }

/-- Its header over a transaction that the header does not commit to. -/
def stuffedBlock : Block :=
  { emptyBlock with
    transactions :=
      [{ chainId := 7, txType := .transfer, sender := keyOf 1, recipient := keyOf 2, amount := 1,
         fee := 1 }] }

def proposalOf (round id : Nat) (block : Block) : Proposal :=
  { height := 1
    round := round
    signerId := id
    signerIndex := id - 1
    blockHash := block.hash crypto
    blockBytes := block.serialize
    signature := signAs id (proposalSigningHash crypto 1 round (block.hash crypto)) }

def precommitOf (round id : Nat) (block : Block) : Vote :=
  { height := 1
    round := round
    signerIndex := id - 1
    signerId := id
    isNil := false
    blockHash := block.hash crypto
    signature := signAs id (voteSigningHash crypto 1 round false (block.hash crypto)) }

/-- The first round ends without a quorum. In the second one the header is proposed again with
another body, and three members precommit its hash. -/
def stuffedEvents : List (Nat × Bool × Event) :=
  [(20000, false, .start 1), (20000, false, .onProposal (proposalOf 0 2 emptyBlock)),
    (30000, true, .pollTimers), (40000, true, .pollTimers),
    (40000, false, .onProposal (proposalOf 1 3 stuffedBlock)),
    (40000, false, .onPrecommit (precommitOf 1 2 emptyBlock)),
    (40000, false, .onPrecommit (precommitOf 1 3 emptyBlock)),
    (40000, false, .onPrecommit (precommitOf 1 4 emptyBlock))]

def handedOn (node : Node) (events : List (Nat × Bool × Event)) : Option Block :=
  (runNode (env 4 1) node 9 events (Engine.initial .empty .empty)).bind fun engine =>
    engine.outputs.findSome? fun output =>
      match output with
      | .blockCommitted block _ => some block
      | _ => none

theorem committed_of_handedOn {node : Node} {Allowed : Event → Prop}
    {events : List (Nat × Bool × Event)} {block : Block}
    (allowed : ∀ entry ∈ events, Allowed entry.2.2) (handed : handedOn node events = some block) :
    ∃ engine, NodeRun (env 4 1) node Allowed (events.map Prod.fst).reverse engine ∧
      engine.Committed block := by
  obtain ⟨engine, ran, found⟩ := Option.bind_eq_some_iff.mp handed
  obtain ⟨output, member, isBlock⟩ := List.exists_of_findSome?_eq_some found
  have run := nodeRun_of_runNode (.initial .empty .empty) allowed ran
  rw [List.append_nil] at run
  refine ⟨engine, run, ?_⟩
  split at isBlock
  next committed applied =>
    cases isBlock
    exact ⟨applied, member⟩
  · cases isBlock

/-- The node hands on a block with a transaction in it. What passed the simulation under the same
hash was the empty block; this one never did. -/
theorem stuffed_block_committed : ∃ engine block, NodeRun (env 4 1) freshNode (fun _ => True)
        (stuffedEvents.map Prod.fst).reverse engine ∧ engine.Committed block ∧
      block.transactions = stuffedBlock.transactions ∧
      block.hash crypto = emptyBlock.hash crypto ∧
      ¬PassedAt freshNode (stuffedEvents.map Prod.fst).reverse block := by
  have handed : (handedOn freshNode stuffedEvents).any (fun block =>
      block.transactions == stuffedBlock.transactions &&
        block.hash crypto == emptyBlock.hash crypto &&
        (stuffedEvents.map Prod.fst).reverse.all fun nowMs =>
          !decide (freshNode.Passes nowMs block)) = true := by
    decide +kernel
  rw [Option.any_eq_true] at handed
  obtain ⟨block, isHanded, facts⟩ := handed
  simp only [Bool.and_eq_true, beq_iff_eq] at facts
  obtain ⟨⟨sameTransactions, sameHash⟩, fails⟩ := facts
  obtain ⟨engine, run, committed⟩ := @committed_of_handedOn freshNode (fun _ => True) stuffedEvents block
    (fun _ _ => trivial) isHanded
  refine ⟨engine, block, run, committed, sameTransactions, sameHash, ?_⟩
  rintro ⟨nowMs, isTime, passes⟩
  have isFalse := List.all_eq_true.mp fails nowMs isTime
  rw [decide_eq_true passes] at isFalse
  cases isFalse

/-- The first member owns five units. -/
def fundedNode : Node :=
  { freshNode with
    preState := fun _ => applyGenesis
      { chainId := 7
        accounts := [{ address := keyOf 1, balanceAtomic := 5 }]
        validators := seats
        initialActiveSetSize := 4 } }

def payOne (nonce : Nat) : Transaction :=
  let tx : Transaction :=
    { chainId := 7, txType := .transfer, nonce := nonce, sender := keyOf 1, recipient := keyOf 2
      amount := 1, fee := 1 }
  { tx with signature := signAs 1 (tx.signingHash crypto) }

/-- A block with two payments of one account, the second of which depends on the first. -/
def paidBlock : Block :=
  { emptyBlock with
    header := { emptyBlock.header with txRoot := computeTxRoot crypto [payOne 0, payOne 1] }
    transactions := [payOne 0, payOne 1] }

/-- A first round that ends with three precommits. -/
def calmEvents : List (Nat × Bool × Event) :=
  [(20000, false, .start 1), (20000, false, .onProposal (proposalOf 0 2 paidBlock)),
    (20000, false, .onPrecommit (precommitOf 0 2 paidBlock)),
    (20000, false, .onPrecommit (precommitOf 0 3 paidBlock)),
    (20000, false, .onPrecommit (precommitOf 0 4 paidBlock))]

theorem paidBlock_sharesVerdict : (proposalOf 0 2 paidBlock).SharesVerdict crypto fundedNode := by
  intro block decoded nowMs other _ _
  have roundTrip : Block.deserialize paidBlock.serialize = some paidBlock := by decide +kernel
  have isPaid : paidBlock = block := Option.some.inj (roundTrip.symm.trans decoded)
  have passes : fundedNode.Passes 0 paidBlock := by decide +kernel
  exact isPaid ▸ passes.later (Nat.zero_le nowMs)

theorem paid_block_passed :
    ∃ engine block, NodeRun (env 4 1) fundedNode (SharedVerdicts (env 4 1) fundedNode)
        (calmEvents.map Prod.fst).reverse engine ∧ engine.Committed block ∧
      block.transactions = [payOne 0, payOne 1] ∧
      PassedAt fundedNode (calmEvents.map Prod.fst).reverse block := by
  have handed : (handedOn fundedNode calmEvents).any
      (fun block => block.transactions == [payOne 0, payOne 1]) = true := by
    decide +kernel
  rw [Option.any_eq_true] at handed
  obtain ⟨block, isHanded, body⟩ := handed
  have shared : ∀ entry ∈ calmEvents, SharedVerdicts (env 4 1) fundedNode entry.2.2 := by
    intro entry member proposal isProposal
    simp only [calmEvents, List.mem_cons, List.not_mem_nil, or_false] at member
    rcases member with rfl | rfl | rfl | rfl | rfl
    case inr.inl =>
      cases isProposal
      exact paidBlock_sharesVerdict
    all_goals cases isProposal
  obtain ⟨engine, run, committed⟩ := committed_of_handedOn shared isHanded
  exact ⟨engine, block, run, committed, eq_of_beq body, committed_passed run committed⟩

end Committee

end Clarity.Consensus
