import Clarity.Core.Mempool
import Clarity.Consensus.Bodies

/-!
Contract: a fresh proposal when some of the selected transactions fail.

Owns: `sift`, which tells the failing transactions of a list from the others; the transactions a
node's callback `simulate_block` names to the engine and to its pool; and when a fresh proposal
consists of the transactions that do not fail.

The callback reports `failed_txid` of the result of `applyBlock`, and `applyBlock` leaves it null.
-/

namespace Clarity

open Common Crypto Clarity.Core Consensus Library State
open Clarity.Core.BlockProcessor

/-! ## Failing transactions -/

namespace Core.BlockProcessor

variable {crypto : Primitives} {ctx : BlockContext}

/-- The transactions that apply and those that fail, each one judged after the failing ones before
it were dropped. -/
def sift (crypto : Primitives) (ctx : BlockContext) :
    StateAccess → List Transaction → List Transaction × List Transaction
  | _, [] => ([], [])
  | state, tx :: rest =>
    match applyTransaction crypto ctx state 0 tx with
    | .ok (after, _) => ((tx :: (sift crypto ctx after rest).1), (sift crypto ctx after rest).2)
    | .error _ => ((sift crypto ctx state rest).1, tx :: (sift crypto ctx state rest).2)

/-- The position of a transaction is in its error text only. -/
theorem applyTransaction_index {state : StateAccess} {tx : Transaction} (index other : Nat)
    {done : StateAccess × Receipt} (applied : applyTransaction crypto ctx state index tx = .ok done) :
    applyTransaction crypto ctx state other tx = .ok done := by
  unfold applyTransaction at applied ⊢
  split at applied
  next system =>
    rw [if_pos system]
    split at applied
    next slash =>
      rw [if_pos slash]
      split at applied
      · cases applied
      next slashed ran => exact applied
    next other =>
      rw [if_neg other]
      exact applied
  next user =>
    rw [if_neg user]
    split at applied
    · cases applied
    next formed =>
      rw [if_neg formed]
      split at applied
      · cases applied
      next done ran => exact applied

/-- The transactions of a block apply exactly when none of them fails. -/
theorem applyFrom_iff_sift {txs : List Transaction} {index : Nat} {run : TxRun} :
    (∃ done, applyFrom crypto ctx index txs run = .ok done) ↔
      (sift crypto ctx run.state txs).2 = [] := by
  induction txs generalizing index run with
  | nil => exact ⟨fun _ => rfl, fun _ => ⟨run, rfl⟩⟩
  | cons tx rest ih =>
    unfold applyFrom sift
    cases applied : applyTransaction crypto ctx run.state index tx with
    | error text =>
      have fails : ∀ done, applyTransaction crypto ctx run.state 0 tx ≠ .ok done := by
        intro done isDone
        rw [applyTransaction_index 0 index isDone] at applied
        cases applied
      constructor
      · rintro ⟨done, ran⟩
        cases ran
      · intro none
        split at none
        next after receipt isDone => exact absurd isDone (fails _)
        · cases none
    | ok done =>
      rw [applyTransaction_index index 0 applied]
      exact ih

theorem sift_whole {txs : List Transaction} {state : StateAccess}
    (none : (sift crypto ctx state txs).2 = []) : (sift crypto ctx state txs).1 = txs := by
  induction txs generalizing state with
  | nil => rfl
  | cons tx rest ih =>
    unfold sift at none ⊢
    cases applied : applyTransaction crypto ctx state 0 tx with
    | error text =>
      rw [applied] at none
      cases none
    | ok done =>
      rw [applied] at none
      exact congrArg (tx :: ·) (ih none)

end Core.BlockProcessor

namespace Node

variable {node : Node} {nowMs : Nat} {block : Block}

/-- The state a block is simulated on. -/
def baseOf (node : Node) (block : Block) : StateAccess :=
  opened (node.preState block.header.height) block.header.height

/-- The transactions of a block that stay and those that fail. -/
def siftBlock (node : Node) (nowMs : Nat) (block : Block) : List Transaction × List Transaction :=
  sift node.chain.crypto (node.dryRun nowMs block.header.height) (node.baseOf block)
    block.transactions

/-- The checks of a dry run that look at no transaction. -/
structure ChecksPass (node : Node) (nowMs : Nat) (block : Block) : Prop where
  header : checkHeader node.chain.crypto block (node.dryRun nowMs block.header.height) = .ok ()
  set : checkSet node.chain (node.baseOf block) block (node.dryRun nowMs block.header.height) = .ok ()

/-- A block with its own transaction root and no receipts root simulates exactly when its checks
pass and no transaction fails. -/
theorem simulateBlock_ok_iff
    (root : computeTxRoot node.chain.crypto block.transactions = block.header.txRoot)
    (unset : block.header.receiptsRoot = 0) :
    (node.simulateBlock nowMs block).ok = true ↔
      node.ChecksPass nowMs block ∧ (node.siftBlock nowMs block).2 = [] := by
  have rootOk : checkTxRoot node.chain.crypto block = .ok () := if_neg (not_not.mpr root)
  have passed : (node.simulateBlock nowMs block).ok = true ↔
      ∃ done, applyBlock node.chain (node.baseOf block) block
        (node.dryRun nowMs block.header.height) = .ok done := by
    unfold simulateBlock baseOf
    cases applyBlock node.chain (opened (node.preState block.header.height) block.header.height)
      block (node.dryRun nowMs block.header.height) with
    | error text => exact ⟨fun wrong => absurd wrong Bool.false_ne_true, fun ⟨_, wrong⟩ => by
      cases wrong⟩
    | ok done => exact ⟨fun _ => ⟨done, rfl⟩, fun _ => rfl⟩
  rw [passed]
  unfold siftBlock
  rw [← @applyFrom_iff_sift _ _ block.transactions 0 { state := node.baseOf block }]
  constructor
  · rintro ⟨⟨final, result⟩, applied⟩
    obtain ⟨run, accepted, _⟩ := applyBlock_ok_iff.mp applied
    exact ⟨⟨accepted.header, accepted.set⟩, run, accepted.transactions⟩
  · rintro ⟨checks, run, ran⟩
    exact ⟨_, applyBlock_ok_iff.mpr ⟨run,
      ⟨checks.header, rootOk, checks.set, ran, by unfold checkCommitments; rw [unset]; rfl⟩, rfl⟩⟩

/-- No simulation of a node names a transaction. -/
theorem simulateBlock_failedTxid : (node.simulateBlock nowMs block).failedTxid = 0 := by
  unfold simulateBlock
  split
  · rfl
  · rfl

end Node

/-! ## The fresh block -/

namespace Consensus.Engine

variable {env : Env} {inputs : Inputs} {engine : Engine} {block : Block}

/-- The header fields that follow from the transactions. -/
structure CountsTransactions (crypto : Primitives) (block : Block) : Prop where
  txRoot : block.header.txRoot = computeTxRoot crypto block.transactions
  txCount : block.header.txCount = u32 block.transactions.length
  totalFees : block.header.totalFees = sumFees block.transactions

/-- A Slash pays no fee. -/
theorem sumFees_attachEvidence (chainId : Nat) (evidence : List EquivocationEvidence)
    (slashed : List Nat) (transactions : List Transaction) :
    sumFees (attachEvidence env inputs chainId evidence slashed transactions) =
      sumFees transactions := by
  induction evidence generalizing slashed transactions with
  | nil => rfl
  | cons item rest ih =>
    unfold attachEvidence
    dsimp only
    split
    · exact ih slashed transactions
    · split
      · rfl
      · split
        · exact ih slashed transactions
        · rw [ih]
          unfold sumFees
          simp

/-- The fresh block with its evidence, before its certificate. -/
theorem freshBlock_base (fresh : engine.freshBlock env inputs = some block) : ∃ base : Block,
      (base = engine.buildFreshBlock env inputs ∨
        base = withTransactions env.crypto
          (attachEvidence env inputs (engine.buildFreshBlock env inputs).header.chainId
            engine.equivocations [] (engine.buildFreshBlock env inputs).transactions)
          (engine.buildFreshBlock env inputs)) ∧
      block.transactions = base.transactions ∧ block.header.txRoot = base.header.txRoot ∧
      block.header.txCount = base.header.txCount ∧ block.header.totalFees = base.header.totalFees ∧
      block.header.receiptsRoot = base.header.receiptsRoot := by
  unfold freshBlock at fresh
  extract_lets build attached base at fresh
  refine ⟨base, ?_, ?_⟩
  · show (if _ then _ else _ : Block) = _ ∨ (if _ then _ else _ : Block) = _
    split
    · exact Or.inl rfl
    · split
      · exact Or.inl rfl
      · exact Or.inr rfl
  · split at fresh
    · split at fresh
      · cases fresh
      · rw [← Option.some.inj fresh]
        exact ⟨rfl, rfl, rfl, rfl, rfl⟩
    · rw [← Option.some.inj fresh]
      exact ⟨rfl, rfl, rfl, rfl, rfl⟩

theorem freshBlock_counts (fresh : engine.freshBlock env inputs = some block) :
    CountsTransactions env.crypto block ∧ block.header.receiptsRoot = 0 := by
  obtain ⟨base, isBase, transactions, txRoot, txCount, totalFees, receipts⟩ := freshBlock_base fresh
  have counts : CountsTransactions env.crypto base ∧ base.header.receiptsRoot = 0 := by
    rcases isBase with rfl | rfl
    · exact ⟨⟨rfl, rfl, rfl⟩, rfl⟩
    · exact ⟨⟨rfl, rfl, (sumFees_attachEvidence _ _ _ _).symm⟩, rfl⟩
  refine ⟨⟨?_, ?_, ?_⟩, receipts.trans counts.2⟩
  · rw [txRoot, transactions, counts.1.txRoot]
  · rw [txCount, transactions, counts.1.txCount]
  · rw [totalFees, transactions, counts.1.totalFees]

/-- The transactions that the simulations of the retry loop name. -/
def namedFailures (env : Env) (inputs : Inputs) : Nat → Block → List Hash
  | 0, _ => []
  | attempts + 1, block =>
    let simulation := inputs.simulateBlock block
    if simulation.ok then []
    else if isNull simulation.failedTxid then []
    else
      let kept := block.transactions.filter fun tx => tx.txid env.crypto ≠ simulation.failedTxid
      if kept.length = block.transactions.length then [simulation.failedTxid]
      else
        let block := withTransactions env.crypto kept block
        simulation.failedTxid :: namedFailures env inputs attempts
          { block with header := { block.header with totalFees := sumFees kept } }

/-- Where no simulation names a transaction, the loop ends after the first one. -/
theorem simulateFresh_unnamed {attempts : Nat}
    (unnamed : (inputs.simulateBlock block).failedTxid = 0) :
    simulateFresh env inputs (attempts + 1) block =
        (if (inputs.simulateBlock block).ok then some (block, inputs.simulateBlock block)
        else none) ∧
      namedFailures env inputs (attempts + 1) block = [] := by
  unfold simulateFresh namedFailures
  dsimp only
  rw [unnamed]
  constructor
  · split
    · rfl
    · rfl
  · split
    · rfl
    · rfl

/-- What `propose` sends for a fresh block is the block that simulated, with its two roots. -/
theorem makeProposal_fresh {signerSet : Bool}
    (fresh : engine.candidateBlock env inputs = some (block, false))
    (entitled : engine.proposerSetFor env (env.now engine).myValidatorId engine.round
      block.header.emergency = some signerSet) :
    (engine.makeProposal env inputs).map Prod.snd =
      (simulateFresh env inputs MAX_SIMULATION_RETRIES block).map fun result =>
        { result.1 with
          header := { result.1.header with
            stateRoot := result.2.stateRoot
            epochFillsRoot := Core.computeEpochFillsRoot env.crypto result.2.epochFills } } := by
  unfold makeProposal simulatedBlock
  rw [fresh]
  dsimp only [Option.bind_eq_bind, Option.bind_some]
  rw [entitled]
  cases simulateFresh env inputs MAX_SIMULATION_RETRIES block with
  | none => rfl
  | some result => rfl

end Consensus.Engine

/-! ## The proposal -/

open Consensus.Engine

/-- The pool after `propose`: the callback removes each transaction it names. -/
def Node.poolAfter (env : Env) (inputs : Inputs) (block : Block) (pool : Mempool) : Mempool :=
  (namedFailures env inputs MAX_SIMULATION_RETRIES block).foldl Mempool.reject pool

/-- From the fresh block, `propose` sends the transactions that do not fail, in their order and
counted in the header, and the failing ones are removed from the pool. -/
structure ProposesRest (node : Node) (env : Env) (inputs : Inputs) (engine : Engine) (block : Block)
    (pool : Mempool) : Prop where
  sends : ∃ proposal sent, engine.makeProposal env inputs = some (proposal, sent) ∧
    sent.transactions = (node.siftBlock inputs.nowMs block).1 ∧ CountsTransactions env.crypto sent
  removes : Node.poolAfter env inputs block pool =
    ((node.siftBlock inputs.nowMs block).2.map (Transaction.txid env.crypto)).foldl Mempool.reject
      pool

/-- **A fresh proposal drops its failing transactions exactly when there are none**, and the checks
on its header and set pass. -/
theorem proposesRest_iff {node : Node} {env : Env} {inputs : Inputs} {engine : Engine}
    {block : Block} {signerSet : Bool} (pool : Mempool)
    (sameCrypto : node.chain.crypto = env.crypto)
    (wired : inputs.simulateBlock = node.simulateBlock inputs.nowMs)
    (fresh : engine.candidateBlock env inputs = some (block, false))
    (entitled : engine.proposerSetFor env (env.now engine).myValidatorId engine.round
      block.header.emergency = some signerSet) :
    ProposesRest node env inputs engine block pool ↔
      node.ChecksPass inputs.nowMs block ∧ (node.siftBlock inputs.nowMs block).2 = [] := by
  have made : engine.freshBlock env inputs = some block := by
    unfold candidateBlock at fresh
    split at fresh
    · cases fresh
    · obtain ⟨made, isMade, same⟩ := Option.map_eq_some_iff.mp fresh
      cases same
      exact isMade
  obtain ⟨counts, unset⟩ := freshBlock_counts made
  have ok : (inputs.simulateBlock block).ok = true ↔
      node.ChecksPass inputs.nowMs block ∧ (node.siftBlock inputs.nowMs block).2 = [] := by
    rw [wired]
    exact Node.simulateBlock_ok_iff (by rw [sameCrypto]; exact counts.txRoot.symm) unset
  have unnamed : (inputs.simulateBlock block).failedTxid = 0 := by
    rw [wired]
    exact Node.simulateBlock_failedTxid
  obtain ⟨once, named⟩ := @simulateFresh_unnamed env inputs block 14 unnamed
  have made := makeProposal_fresh fresh entitled
  rw [show MAX_SIMULATION_RETRIES = 14 + 1 from rfl, once] at made
  constructor
  · intro proposes
    obtain ⟨proposal, sent, isMade, _⟩ := proposes.sends
    rw [isMade] at made
    split at made
    next simulated => exact ok.mp simulated
    · cases made
  · intro good
    rw [if_pos (ok.mpr good)] at made
    obtain ⟨⟨proposal, sent⟩, isMade, isSent⟩ := Option.map_eq_some_iff.mp made
    refine ⟨⟨proposal, sent, isMade, ?_, ?_⟩, ?_⟩
    · have whole : sent.transactions = block.transactions := by
        rw [show sent = _ from isSent]
      exact whole.trans (sift_whole good.2).symm
    · rw [show sent = _ from isSent]
      exact ⟨counts.txRoot, counts.txCount, counts.totalFees⟩
    · unfold Node.poolAfter
      rw [show MAX_SIMULATION_RETRIES = 14 + 1 from rfl, named, good.2]
      rfl

namespace Consensus.Committee

/-- A payment out of an account that holds nothing. -/
def brokeTransfer : Transaction :=
  { chainId := 7, txType := .transfer, sender := 50, recipient := 51, amount := 1, fee := 1 }

def pooledInputs (node : Node) (transactions : List Transaction) : Inputs :=
  { inputs 20000 false with
    simulateBlock := node.simulateBlock 20000
    selectTransactions := fun _ _ => transactions }

def firstProposer : Engine := { height := 1, step := .propose, running := true }

def firstBlock (transactions : List Transaction) : Block :=
  firstProposer.buildFreshBlock (env 4 2) (pooledInputs freshNode transactions)

/-- One failing transaction among those selected: nothing is sent, when the proposer starts and
when it proposes, and the pool keeps the transaction. -/
theorem broke_transfer_stops_proposer :
    (freshNode.siftBlock 20000 (firstBlock [brokeTransfer])).2 = [brokeTransfer] ∧
      freshNode.ChecksPass 20000 (firstBlock [brokeTransfer]) ∧
      firstProposer.makeProposal (env 4 2) (pooledInputs freshNode [brokeTransfer]) = none ∧
      ((handle (env 4 2) (pooledInputs freshNode [brokeTransfer]) 9 (.start 1)
        (Engine.initial .empty .empty)).any fun started =>
          started.outputs.all fun output =>
            match output with
            | .broadcastProposal _ => false
            | _ => true) = true ∧
      ∀ pool, ¬ProposesRest freshNode (env 4 2) (pooledInputs freshNode [brokeTransfer]) firstProposer
        (firstBlock [brokeTransfer]) pool := by
  have fails : (freshNode.siftBlock 20000 (firstBlock [brokeTransfer])).2 = [brokeTransfer] := by
    decide +kernel
  have silent : firstProposer.makeProposal (env 4 2) (pooledInputs freshNode [brokeTransfer]) = none := by
    decide +kernel
  refine ⟨fails, ⟨by decide +kernel, by decide +kernel⟩, silent, by decide +kernel, ?_⟩
  intro pool proposes
  obtain ⟨proposal, sent, made, _⟩ := proposes.sends
  rw [silent] at made
  cases made

/-- Two payments of one account, the second of which depends on the first, are both sent. -/
theorem payments_proposed :
    (fundedNode.siftBlock 20000 (firstBlock [payOne 0, payOne 1])).1 = [payOne 0, payOne 1] ∧
      ProposesRest fundedNode (env 4 2) (pooledInputs fundedNode [payOne 0, payOne 1]) firstProposer
        (firstBlock [payOne 0, payOne 1]) {} := by
  have entitled : firstProposer.proposerSetFor (env 4 2) 2 0 false = some false := by decide +kernel
  have sifted : fundedNode.siftBlock 20000 (firstBlock [payOne 0, payOne 1]) =
      ([payOne 0, payOne 1], []) := by
    decide +kernel
  refine ⟨congrArg Prod.fst sifted, (proposesRest_iff {} rfl rfl rfl entitled).mpr
    ⟨⟨?_, ?_⟩, congrArg Prod.snd sifted⟩⟩
  · decide +kernel
  · decide +kernel

end Consensus.Committee

end Clarity
