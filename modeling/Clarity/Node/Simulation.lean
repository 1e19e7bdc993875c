import Clarity.Core.Chain
import Clarity.Consensus.Engine.State

/-!
Contract: the simulation a node runs for its engine, the callback `simulate_block` of `Node.cpp`.

Owns: `simulateBlock`, a dry run of `applyBlock` whose state is thrown away; `Passes`, that a block
simulates to the state root it names; what a dry run does not read: the state root, the fills root,
the commit round and the signatures, which are filled in later; and when a block is applied with
the root it simulates to: always, except where the block ends an epoch and its transactions change
the level of activity that the rate of the epoch depends on.
-/

namespace Clarity

open Common Crypto Clarity.Core Consensus Library State
open Clarity.Core.BlockProcessor Clarity.Core.TransactionExecutor

structure Node where
  chain : ChainEnv
  chainId : Nat
  /-- The state the block of a height is built on. -/
  preState : Nat → StateAccess

namespace Node

variable (node : Node) {block : Block} {nowMs laterMs : Nat} {ctx : BlockContext} {env : ChainEnv}
  {state : StateAccess}

def dryRun (nowMs height : Nat) : BlockContext :=
  { chainId := node.chainId, currentHeight := height, dryRun := true, nowMs := nowMs }

/-- `simulate_block`. No failing transaction is ever named: `applyBlock` keeps it in a local
variable, and `failed_txid` of its result stays null. -/
def simulateBlock (nowMs : Nat) (block : Block) : Simulation :=
  match applyBlock node.chain (opened (node.preState block.header.height) block.header.height) block
    (node.dryRun nowMs block.header.height) with
  | .error _ => { ok := false, stateRoot := 0, epochFills := [], failedTxid := 0 }
  | .ok (_, result) =>
    { ok := true
      stateRoot := result.newStateRoot
      epochFills := result.epochFills
      failedTxid := 0 }

/-- The block simulates to the state root in its header. -/
structure Passes (nowMs : Nat) (block : Block) : Prop where
  ok : (node.simulateBlock nowMs block).ok = true
  root : (node.simulateBlock nowMs block).stateRoot = block.header.stateRoot

instance (nowMs : Nat) (block : Block) : Decidable (node.Passes nowMs block) :=
  decidable_of_iff
    ((node.simulateBlock nowMs block).ok = true ∧
      (node.simulateBlock nowMs block).stateRoot = block.header.stateRoot)
    ⟨fun both => ⟨both.1, both.2⟩, fun passes => ⟨passes.ok, passes.root⟩⟩

variable {node}

/-- A block with other commitments, in another round, with other signatures. -/
def reseal (block : Block) (stateRoot epochFillsRoot : Hash) (commitRound : Nat)
    (signatures : List ValidatorSignature) : Block :=
  { block with
    header := { block.header with
      stateRoot := stateRoot
      epochFillsRoot := epochFillsRoot
      commitRound := commitRound }
    quorumSignatures := signatures }

theorem checkHeader_dryRun {crypto : Primitives} (dry : ctx.dryRun = true) :
    checkHeader crypto block ctx =
      if block.header.chainId ≠ ctx.chainId then .error "chain_id mismatch"
      else if block.header.height ≠ ctx.currentHeight then .error "height mismatch"
      else if ctx.currentHeight > 0 ∧ isNull block.header.parentHash = true then
        .error "parent hash is null"
      else if block.header.timestampMs > ctx.nowMs + 2000 then
        .error "timestamp is too far in the future"
      else .ok () := by
  unfold checkHeader
  simp [dry]

theorem applyBlock_reseal (dry : ctx.dryRun = true) (stateRoot epochFillsRoot : Hash)
    (commitRound : Nat) (signatures : List ValidatorSignature) :
    applyBlock env state (reseal block stateRoot epochFillsRoot commitRound signatures) ctx =
      applyBlock env state block ctx := by
  unfold applyBlock
  rw [checkHeader_dryRun dry, checkHeader_dryRun dry]
  unfold checkSet checkCommitments
  simp only [dry, Bool.true_eq_false, if_false, true_or, not_true_eq_false, false_and]
  rfl

theorem simulateBlock_reseal (nowMs : Nat) (block : Block) (stateRoot epochFillsRoot : Hash)
    (commitRound : Nat) (signatures : List ValidatorSignature) :
    node.simulateBlock nowMs (reseal block stateRoot epochFillsRoot commitRound signatures) =
      node.simulateBlock nowMs block := by
  unfold simulateBlock
  rw [applyBlock_reseal rfl]
  rfl

/-- A block that passes does so with any commit round and signatures. -/
theorem Passes.recommit (passes : node.Passes nowMs block) (commitRound : Nat)
    (signatures : List ValidatorSignature) :
    node.Passes nowMs
      { block with
        header := { block.header with commitRound := commitRound }
        quorumSignatures := signatures } := by
  have same := @simulateBlock_reseal node nowMs block block.header.stateRoot
    block.header.epochFillsRoot commitRound signatures
  exact ⟨(congrArg Simulation.ok same).trans passes.ok,
    (congrArg Simulation.stateRoot same).trans passes.root⟩

theorem passes_of_simulated (epochFillsRoot : Hash)
    (simulated : (node.simulateBlock nowMs block).ok = true) :
    node.Passes nowMs
      { block with
        header := { block.header with
          stateRoot := (node.simulateBlock nowMs block).stateRoot
          epochFillsRoot := epochFillsRoot } } := by
  have same := @simulateBlock_reseal node nowMs block (node.simulateBlock nowMs block).stateRoot
    epochFillsRoot block.header.commitRound block.quorumSignatures
  exact ⟨(congrArg Simulation.ok same).trans simulated, congrArg Simulation.stateRoot same⟩

/-! ## The clock -/

/-- The transactions read the chain id and the height of a context alone. -/
theorem applyTransactions_sameTip {crypto : Primitives} {other : BlockContext} {later : Block}
    (sameChain : other.chainId = ctx.chainId) (sameHeight : other.currentHeight = ctx.currentHeight)
    (sameBody : later.transactions = block.transactions) :
    applyTransactions crypto other state later = applyTransactions crypto ctx state block := by
  unfold applyTransactions
  rw [sameBody]
  generalize ({ state := state } : TxRun) = run
  generalize 0 = index
  induction block.transactions generalizing index run with
  | nil => rfl
  | cons tx rest ih =>
    unfold applyFrom applyTransaction
    simp only [ih, sameChain, sameHeight]

/-- The clock is read by the check of the timestamp alone. -/
theorem applyBlock_later {final : StateAccess} {result : BlockResult} {height : Nat}
    (notEarlier : nowMs ≤ laterMs)
    (applied : applyBlock env state block (node.dryRun nowMs height) = .ok (final, result)) :
    applyBlock env state block (node.dryRun laterMs height) = .ok (final, result) := by
  rw [applyBlock_ok_iff] at applied ⊢
  obtain ⟨run, accepted, isOutcome⟩ := applied
  refine ⟨run, ⟨?_, accepted.txRoot, accepted.set, ?_, accepted.commitments⟩, isOutcome⟩
  · have header := accepted.header
    rw [checkHeader_dryRun rfl] at header ⊢
    simp only [ite_error_eq_ok_iff] at header ⊢
    obtain ⟨sameChain, sameHeight, hasParent, inTime, _⟩ := header
    refine ⟨sameChain, sameHeight, hasParent, ?_, trivial⟩
    change ¬block.header.timestampMs > nowMs + 2000 at inTime
    show ¬block.header.timestampMs > laterMs + 2000
    omega
  · rw [← accepted.transactions]
    exact applyTransactions_sameTip rfl rfl rfl

theorem simulateBlock_later (ok : (node.simulateBlock nowMs block).ok = true)
    (notEarlier : nowMs ≤ laterMs) :
    node.simulateBlock laterMs block = node.simulateBlock nowMs block := by
  unfold simulateBlock at ok ⊢
  split at ok
  · cases ok
  next final result applied => rw [applyBlock_later notEarlier applied]

theorem Passes.later (passes : node.Passes nowMs block) (notEarlier : nowMs ≤ laterMs) :
    node.Passes laterMs block := by
  have same := simulateBlock_later passes.ok notEarlier
  exact ⟨(congrArg Simulation.ok same).trans passes.ok,
    (congrArg Simulation.stateRoot same).trans passes.root⟩

/-! ## Application -/

/-- A block with all its commitments filled in. -/
def fillIn (block : Block) (stateRoot receiptsRoot epochFillsRoot : Hash) (commitRound : Nat)
    (signatures : List ValidatorSignature) : Block :=
  let sealed := reseal block stateRoot epochFillsRoot commitRound signatures
  { sealed with header := { sealed.header with receiptsRoot := receiptsRoot } }

/-- The level of activity of the epoch with this number of transactions so far. -/
def activityLevel (state : StateAccess) (counted : Nat) : Nat :=
  computeActivityBps (avgTxPerBlock counted (state.getMetaU64 .txCounterAtEpochStart))

/-- The transactions of the block, once they are counted, leave the level of activity as it is. -/
def KeepsActivity (state : StateAccess) (block : Block) : Prop :=
  activityLevel state (u64 (state.getMetaU64 .txCounter + block.transactions.length)) =
    activityLevel state (state.getMetaU64 .txCounter)

section Counters

variable (table : Table MetaName Nat) (height : Nat)

/-- A state with other counters beside its tree. -/
def beside (state : StateAccess) : StateAccess := { state with metaTable := table }

theorem putAccount_beside (state : StateAccess) (address : Address) (account : Account) :
    (beside table state).putAccount address account =
      beside table (state.putAccount address account) := by
  have stakers (state : StateAccess) (old new : Nat) :
      (beside table state).adjustStakers address old new =
        beside table (state.adjustStakers address old new) := by
    unfold StateAccess.adjustStakers
    split
    · rfl
    · split <;> rfl
  have total (state : StateAccess) (old new : Nat) :
      (beside table state).adjustTotalStaked old new =
        beside table (state.adjustTotalStaked old new) := by
    unfold StateAccess.adjustTotalStaked
    dsimp only
    split
    · rfl
    · split <;> rfl
  unfold StateAccess.putAccount
  dsimp only
  rw [← stakers, ← total]
  rfl

theorem payStakers_beside (state : StateAccess) (distributed : Nat) :
    payStakers (beside table state) height distributed =
      beside table (payStakers state height distributed) := by
  have pays (weight : Nat) (state : StateAccess) (address : Address) :
      payStaker height distributed weight (beside table state) address =
        beside table (payStaker height distributed weight state address) := by
    have account : (beside table state).getAccount = state.getAccount := rfl
    unfold payStaker
    dsimp only
    rw [account, putAccount_beside]
    split <;> rfl
  have account : (beside table state).getAccount = state.getAccount := rfl
  have stakers : (beside table state).stakers = state.stakers := rfl
  unfold payStakers
  dsimp only
  rw [account, stakers, List.foldl_hom (beside table) (pays _)]
  split <;> rfl

theorem accrue_beside (state : StateAccess) (collections : List NftCollection) :
    collections.foldl accrueCollection (beside table state) =
      beside table (collections.foldl accrueCollection state) := by
  refine List.foldl_hom (beside table) ?_
  intro state collection
  unfold accrueCollection
  split <;> rfl

/-- The counters decide on the rate of an epoch and on nothing else of its boundary. -/
theorem processEpochBoundary_beside (state : StateAccess)
    (sameRate : epochApy (beside table state) = epochApy state) :
    ∃ counters, processEpochBoundary (beside table state) height =
      beside counters (processEpochBoundary state height) := by
  have adjusts : epochAdjustment (beside table state) = epochAdjustment state := by
    unfold epochAdjustment
    rw [sameRate]
    rfl
  have settles : settlePot (beside table state) =
      beside (settlePot (beside table state)).metaTable (settlePot state) := by
    unfold settlePot
    rw [adjusts]
    rfl
  refine ⟨(settlePot (beside table state)).metaTable, ?_⟩
  unfold processEpochBoundary
  dsimp only
  rw [adjusts, settles]
  have accrues := accrue_beside (settlePot (beside table state)).metaTable (settlePot state)
    (settlePot state).nftCollections
  have total : (beside table state).getGlobalU64 = state.getGlobalU64 := rfl
  have collections (table : Table MetaName Nat) (state : StateAccess) :
      (beside table state).nftCollections = state.nftCollections := rfl
  rw [collections, accrues, total]
  split
  · rfl
  · exact payStakers_beside _ height _ _

theorem processRotation_beside (state : StateAccess) (sorter : Sorter) (txCount : Nat) :
    processRotation sorter (beside table state) height txCount =
      beside table (processRotation sorter state height txCount) := by
  have puts (state : StateAccess) (records : List ValidatorInfo) :
      putValidators (beside table state) records = beside table (putValidators state records) :=
    List.foldl_hom (beside table) fun _ _ => rfl
  have registry : rotationRegistry (beside table state) = rotationRegistry state := rfl
  have active : (beside table state).loadActiveSet = state.loadActiveSet := rfl
  unfold processRotation
  dsimp only
  rw [registry, active, puts]
  split
  · rfl
  · split <;> rfl

end Counters

/-! ## The end of a block -/

/-- The rate of the epoch is the same with the transactions of the block counted. -/
theorem epochApy_bumpLifetimeCounters {closing : StateAccess} (keeps : KeepsActivity state block)
    (counters : closing.txCounters = state.txCounters) :
    epochApy (bumpLifetimeCounters closing block) = epochApy closing := by
  obtain ⟨sameCounter, sameStart⟩ := Prod.mk.inj counters
  have counted : (bumpLifetimeCounters closing block).getMetaU64 .txCounter =
      u64 (closing.getMetaU64 .txCounter + block.transactions.length) := by
    unfold bumpLifetimeCounters
    rw [StateAccess.getMetaU64_putMetaU64, if_neg (by decide), StateAccess.getMetaU64_putMetaU64,
      if_pos rfl]
  have started : (bumpLifetimeCounters closing block).getMetaU64 .txCounterAtEpochStart =
      closing.getMetaU64 .txCounterAtEpochStart := by
    unfold bumpLifetimeCounters
    rw [StateAccess.getMetaU64_putMetaU64, if_neg (by decide), StateAccess.getMetaU64_putMetaU64,
      if_neg (by decide)]
  unfold KeepsActivity activityLevel at keeps
  unfold epochApy
  rw [counted, started, sameCounter, sameStart, keeps]
  rfl

/-- Then the epoch closes with the same tree. -/
theorem closeBlock_tree {closing : StateAccess} (height : Nat)
    (keeps : (height + 1) % ROTATION_INTERVAL = 0 → KeepsActivity state block)
    (counters : closing.txCounters = state.txCounters) :
    (closeBlock env block height false closing).tree =
      (closeBlock env block height true closing).tree := by
  unfold closeBlock
  simp only [Bool.false_eq_true, if_false, if_true]
  split
  next boundary =>
    have rate := epochApy_bumpLifetimeCounters (keeps boundary) counters
    have counted : bumpLifetimeCounters closing block =
        beside (bumpLifetimeCounters closing block).metaTable closing := rfl
    rw [counted] at rate ⊢
    obtain ⟨table, closes⟩ := processEpochBoundary_beside _ height closing rate
    rw [closes, processRotation_beside]
    rfl
  · rfl

end Node

namespace Core.Regtest

/-- A context of the sample chain. -/
def contextAt (height : Nat) : BlockContext := { chainId := 1, currentHeight := height }

/-- The block with the root it simulates to, if all its other checks pass. -/
def simulatesTo (env : ChainEnv) (state : StateAccess) (block : Block) (ctx : BlockContext) :
    Option Block :=
  match applyBlock env state block { ctx with dryRun := true } with
  | .error _ => none
  | .ok (_, result) =>
    let sealed := Node.fillIn block result.newStateRoot 0 0 0 block.quorumSignatures
    if checkHeader env.crypto sealed { ctx with dryRun := false } = .ok () ∧
        checkSet env state sealed { ctx with dryRun := false } = .ok () ∧
        checkCommitments env.crypto { sealed.header with stateRoot := 0 } false result = .ok () then
      some sealed
    else none

/-- A root that is told by the pot. -/
def potEnv : ChainEnv :=
  { env with root := fun tree => BitVec.ofNat 256 ((tree.globals.find? .pot).getD 0) }

/-- The end of an epoch in which one transaction is missing to the highest rate of activity. -/
def busyEpoch : StateAccess :=
  opened (((applyGenesis config).putAccount 20 { balance := 10 ^ 10 }).putMetaU64 .txCounter
    (TRAFFIC_SATURATION_TX * ROTATION_INTERVAL - 1)) 59

def lastTransfer : Transaction :=
  { chainId := 1, txType := .transfer, sender := 20, recipient := 11, amount := 5, fee := 1000 }

/-- The end of an epoch in which one transaction more makes no difference. -/
def idleEpoch : StateAccess :=
  opened ((applyGenesis config).putAccount 20 { balance := 10 ^ 10 }) 59

end Core.Regtest

end Clarity
