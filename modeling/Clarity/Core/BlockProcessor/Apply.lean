import Clarity.Core.BlockProcessor.Epoch
import Clarity.Core.BlockProcessor.Quorum

/-!
Contract: `BlockProcessor::applyBlock`, from the header checks to the commitments.

Owns: the checks with their errors, the transactions of a block, the order of the passes, and
the inversion of an accepted block (`applyBlock_ok`).

A block that is refused leaves nothing: the callers throw the state away. Heights and counts
of blocks stay below `2 ^ 64`. The transaction and producer indexes, which only the RPC server
reads, are not kept.
-/

namespace Clarity.Core.BlockProcessor

open Common Crypto Consensus Library State

variable (env : ChainEnv) (crypto : Primitives) (state : StateAccess)
open State.StateAccess Clarity.Core.TransactionExecutor

variable {index : Nat} {tx : Transaction} {after : StateAccess} {receipt : Receipt}

structure BlockContext where
  chainId : Nat
  currentHeight : Nat
  dryRun : Bool := false
  nowMs : Nat := 0
deriving DecidableEq, Repr

structure BlockResult where
  newStateRoot : Hash
  receipts : List Receipt
  txHashes : List Hash
  epochFills : List Fill
deriving DecidableEq

def hexText (hash : Hash) : String :=
  String.ofList ((bytes32 hash).flatMap fun byte =>
    [Nat.digitChar (byte.toNat / 16), Nat.digitChar (byte.toNat % 16)])

/-! ## Checks in front of the transactions -/

def checkTimeoutCertificateHash (block : Block) : Except String Unit :=
  let computed := computeTimeoutCertificateHash crypto block.header.timeoutCertificate
  if computed ≠ block.header.timeoutCertificateHash then
    .error ("timeout certificate hash mismatch: header commits to " ++
      hexText block.header.timeoutCertificateHash ++ ", certificate hashes to " ++ hexText computed)
  else .ok ()

/-- The record of a validator with the key it had at a height. -/
def lookupAtHeight (height id : Nat) : Option ValidatorInfo := do
  let validator ← state.getValidator id
  let historic ← state.validatorKeyAtHeight id height
  pure { validator with consensusKey := historic }

/-- `checkTimeoutCertificate`: the round is cut to 32 bits on the way. -/
def checkTimeoutCertificate (block : Block)
    (committedSet : List Nat) (currentHeight : Nat) : Except String Unit :=
  verifyTimeoutCertificate crypto block.header.timeoutCertificate committedSet currentHeight
    (u32 block.header.emergencyRotation) (lookupAtHeight state currentHeight)

def checkHeader (block : Block) (ctx : BlockContext) : Except String Unit :=
  if ctx.dryRun = false ∧ block.header.isWellFormed = false then
    .error "block header not well-formed"
  else if block.header.chainId ≠ ctx.chainId then .error "chain_id mismatch"
  else if block.header.height ≠ ctx.currentHeight then .error "height mismatch"
  else if ctx.currentHeight > 0 ∧ isNull block.header.parentHash = true then
    .error "parent hash is null"
  else
    let certificate :=
      if ctx.dryRun = false ∧ block.header.emergencyRotation > 0 then
        checkTimeoutCertificateHash crypto block
      else .ok ()
    match certificate with
    | .error error => .error error
    | .ok _ =>
      if block.header.timestampMs > ctx.nowMs + 2000 then
        .error "timestamp is too far in the future"
      else .ok ()

def checkTxRoot (block : Block) : Except String Unit :=
  if computeTxRoot crypto block.transactions ≠ block.header.txRoot then .error "tx_root mismatch"
  else .ok ()

def checkValidatorSetRoot (block : Block) (activeSet : List Nat) : Except String Unit :=
  if computeValidatorSetRoot crypto activeSet ≠ block.header.validatorSetRoot then
    .error "validator_set_root mismatch"
  else .ok ()

def blockSet (block : Block) (height : Nat) : List Nat :=
  resolveActiveSet env.sorter state state.loadActiveSet height block.header.emergency

/-- The checks on the set of a block: its certificate, its size, its quorum and its root. -/
def checkSet (block : Block) (ctx : BlockContext) : Except String Unit := do
  if block.header.emergency then
    checkTimeoutCertificate env.crypto state block state.loadActiveSet ctx.currentHeight
  let activeSet := blockSet env state block ctx.currentHeight
  if activeSet.length ≠ block.header.activeValidatorCount then
    .error "active validator count mismatch"
  if ctx.dryRun = false then checkQuorum env.crypto state.view block activeSet
  checkValidatorSetRoot env.crypto block activeSet

/-! ## Transactions -/

structure TxRun where
  state : StateAccess
  receipts : List Receipt := []
  txHashes : List Hash := []

/-- `applySlash`: the proof is checked against the state, not against an active set. -/
def applySlash (tx : Transaction) (height : Nat) : Option StateAccess := do
  let offender ← verifyEquivocationProof crypto tx.payload [] state.view
  pure (executeSystemSlash state offender height)

/-- The state after one transaction, with its receipt. System transactions other than a slash
change nothing. -/
def applyTransaction (ctx : BlockContext) (state : StateAccess) (index : Nat)
    (tx : Transaction) : Except String (StateAccess × Receipt) :=
  if tx.txType.isSystemTx then
    if tx.txType = .slash then
      match applySlash crypto state tx ctx.currentHeight with
      | none =>
        .error ("slash failed at index " ++ toString index ++ ": invalid equivocation proof")
      | some slashed => .ok (slashed, { status := .success, feePaid := 0 })
    else .ok (state, { status := .success, feePaid := 0 })
  else if tx.isWellFormed = false then
    .error ("malformed transaction at index " ++ toString index)
  else
    match execute crypto state tx
      { currentHeight := ctx.currentHeight, chainId := ctx.chainId } with
    | none =>
      .error ("transaction failed at index " ++ toString index ++ " (type=" ++ tx.txType.name ++
        ")")
    | some done => .ok done

/-- The loop of `applyTransactions`. -/
def applyFrom (crypto : Primitives) (ctx : BlockContext) :
    Nat → List Transaction → TxRun → Except String TxRun
  | _, [], run => .ok run
  | index, tx :: rest, run => do
    let (state, receipt) ← applyTransaction crypto ctx run.state index tx
    applyFrom crypto ctx (index + 1) rest
      { state := state
        receipts := run.receipts ++ [receipt]
        txHashes := run.txHashes ++ [tx.txid crypto] }

def applyTransactions (ctx : BlockContext) (state : StateAccess)
    (block : Block) : Except String TxRun :=
  applyFrom crypto ctx 0 block.transactions { state := state }

/-! ## Passes in their order -/

/-- The passes up to the rewards, with the fills of the epoch. -/
def runPasses (block : Block) (height : Nat) (committedSet activeSet : List Nat)
    (state : StateAccess) : StateAccess × List Fill :=
  let switched :=
    if block.header.emergency = true ∧ activeSet ≠ committedSet then
      switchActiveSet state committedSet activeSet height
    else state
  let seen := markParticipants switched block.participants height
  let checked :=
    if (height + 1) % OFFLINE_CHECK_INTERVAL = 0 then runOfflineCheck env.sorter seen height
    else seen
  let expired := processUnbondExpiries (processOrderExpiries checked height) height
  let evaluated :=
    if (height + 1) % ROTATION_INTERVAL = 0 then evaluateOrderConditions expired height
    else (expired, [])
  let rewarded := countProduced (distributeRewards evaluated.1 block.header) block.header
  (updateGlobalState rewarded height, evaluated.2)

/-- The passes after the rewards. The lifetime counters are kept on the apply path only. -/
def closeBlock (block : Block) (height : Nat) (dryRun : Bool)
    (state : StateAccess) : StateAccess :=
  let counted := if dryRun then state else bumpLifetimeCounters state block
  if (height + 1) % ROTATION_INTERVAL = 0 then
    processRotation env.sorter (processEpochBoundary counted height) height
      block.transactions.length
  else counted

/-! ## Commitments -/

def receiptLeaf (txHash : Hash) (receipt : Receipt) : Hash :=
  crypto.blake2b (putText "rcpt".toList ++ bytes32 txHash ++ receipt.serializeState)

def verifyReceiptsRoot (txHashes : List Hash) (receipts : List Receipt)
    (expected : Hash) : Except String Unit :=
  if txHashes.length ≠ receipts.length then .error "tx_hash / receipt count mismatch"
  else if computeMerkleRoot crypto (txHashes.zipWith (receiptLeaf crypto) receipts) ≠ expected then
    .error "receipts_root mismatch"
  else .ok ()

def computeEpochFillsRoot (fills : List Fill) : Hash :=
  if fills.isEmpty then 0
  else
    computeMerkleRoot crypto
      (fills.map fun fill => crypto.blake2b (putText "efil".toList ++ fill.serializeState))

def verifyEpochFillsRoot (fills : List Fill) (expected : Hash) : Except String Unit :=
  let computed := computeEpochFillsRoot crypto fills
  if computed ≠ expected then
    .error ("epoch_fills_root mismatch: expected " ++ hexText expected ++ ", got " ++
      hexText computed)
  else .ok ()

/-- The checks of the header against what was computed. -/
def checkCommitments (header : BlockHeader) (dryRun : Bool)
    (result : BlockResult) : Except String Unit := do
  if ¬(dryRun = true ∨ isNull header.stateRoot = true) ∧ header.stateRoot ≠ result.newStateRoot then
    .error ("state root mismatch: expected " ++ hexText header.stateRoot ++ ", got " ++
      hexText result.newStateRoot)
  if isNull header.receiptsRoot = false then
    verifyReceiptsRoot crypto result.txHashes result.receipts header.receiptsRoot
  if dryRun = false then
    if isNull header.epochFillsRoot = false then
      verifyEpochFillsRoot crypto result.epochFills header.epochFillsRoot
    else if result.epochFills ≠ [] then
      .error "epoch fills present but epoch_fills_root is null"

def applyBlock (block : Block) (ctx : BlockContext) : Except String (StateAccess × BlockResult) := do
  checkHeader env.crypto block ctx
  checkTxRoot env.crypto block
  checkSet env state block ctx
  let run ← applyTransactions env.crypto ctx state block
  let passed := runPasses env block ctx.currentHeight state.loadActiveSet
    (blockSet env state block ctx.currentHeight) run.state
  let final := closeBlock env block ctx.currentHeight ctx.dryRun passed.1
  let result : BlockResult :=
    { newStateRoot := env.root final.tree
      receipts := run.receipts
      txHashes := run.txHashes
      epochFills := passed.2 }
  checkCommitments env.crypto block.header ctx.dryRun result
  pure (final, result)

/-! ## What an accepted block is -/

variable {env crypto state} {final : StateAccess} {block : Block}
  {ctx : BlockContext} {result : BlockResult}

def outcome (env : ChainEnv) (state : StateAccess) (block : Block) (ctx : BlockContext)
    (run : TxRun) : StateAccess × BlockResult :=
  let passed := runPasses env block ctx.currentHeight state.loadActiveSet
    (blockSet env state block ctx.currentHeight) run.state
  let final := closeBlock env block ctx.currentHeight ctx.dryRun passed.1
  (final,
    { newStateRoot := env.root final.tree
      receipts := run.receipts
      txHashes := run.txHashes
      epochFills := passed.2 })

structure Accepted (env : ChainEnv) (state : StateAccess) (block : Block) (ctx : BlockContext)
    (run : TxRun) : Prop where
  header : checkHeader env.crypto block ctx = .ok ()
  txRoot : checkTxRoot env.crypto block = .ok ()
  set : checkSet env state block ctx = .ok ()
  transactions : applyTransactions env.crypto ctx state block = .ok run
  commitments : checkCommitments env.crypto block.header ctx.dryRun
    (outcome env state block ctx run).2 = .ok ()

theorem applyBlock_ok_iff : applyBlock env state block ctx = .ok (final, result) ↔
      ∃ run, Accepted env state block ctx run ∧ (final, result) = outcome env state block ctx run := by
  unfold applyBlock
  simp only [bind_eq_ok_iff]
  constructor
  · rintro ⟨_, header, _, txRoot, _, set, run, transactions, _, commitments, returned⟩
    refine ⟨run, ⟨header, txRoot, set, transactions, commitments⟩, ?_⟩
    cases returned
    rfl
  · rintro ⟨run, accepted, isOutcome⟩
    exact ⟨(), accepted.header, (), accepted.txRoot, (), accepted.set, run, accepted.transactions,
      (), accepted.commitments, by rw [isOutcome]; rfl⟩

inductive TxSteps (crypto : Primitives) (ctx : BlockContext) :
    StateAccess → List Transaction → StateAccess → Prop
  | nil (state : StateAccess) : TxSteps crypto ctx state [] state
  | cons {state middle final : StateAccess} {tx : Transaction} {rest : List Transaction}
      {index : Nat} {receipt : Receipt}
      (applied : applyTransaction crypto ctx state index tx = .ok (middle, receipt))
      (later : TxSteps crypto ctx middle rest final) : TxSteps crypto ctx state (tx :: rest) final

theorem applyFrom_steps {txs : List Transaction} {run done : TxRun}
    (ran : applyFrom crypto ctx index txs run = .ok done) :
    TxSteps crypto ctx run.state txs done.state := by
  induction txs generalizing index run with
  | nil =>
    cases ran
    exact .nil _
  | cons tx rest ih =>
    unfold applyFrom at ran
    obtain ⟨⟨middle, receipt⟩, applied, later⟩ := bind_eq_ok_iff.mp ran
    exact .cons applied (ih later)

/-- A user transaction of a block was executed. -/
theorem applyTransaction_user (user : tx.txType.isSystemTx = false)
    (applied : applyTransaction crypto ctx state index tx = .ok (after, receipt)) :
    execute crypto state tx { currentHeight := ctx.currentHeight, chainId := ctx.chainId } =
      some (after, receipt) := by
  unfold applyTransaction at applied
  rw [if_neg (by rw [user]; exact Bool.false_ne_true)] at applied
  split at applied
  · cases applied
  · split at applied
    · cases applied
    next done ran =>
      cases applied
      exact ran

/-- What one transaction of a block does to nonces and validators. -/
inductive TxEffect (height : Nat) (tx : Transaction) (before after : StateAccess) : Prop
  | user (kind : tx.txType.isSystemTx = false) (nonces : NonceStep tx before after)
      (registry : RegistryEffect height tx before.registry after.registry)
      (version : after.version = before.version)
  | system (kind : tx.txType.isSystemTx = true) (within : Within [.registry] before after)
      (orderly : Orderly ⟨true, true⟩ before after)

/-- A system transaction writes the registry at most, and leaves the presence of validators. -/
theorem applyTransaction_system (kind : tx.txType.isSystemTx = true)
    (applied : applyTransaction crypto ctx state index tx = .ok (after, receipt)) :
    Within [.registry] state after ∧ Orderly ⟨true, true⟩ state after := by
  unfold applyTransaction at applied
  rw [if_pos kind] at applied
  split at applied
  · split at applied
    · cases applied
    next slashed ran =>
      cases applied
      obtain ⟨offender, _, done⟩ := Option.bind_eq_some_iff.mp ran
      cases done
      exact executeSystemSlash_spec offender ctx.currentHeight
  · cases applied
    exact ⟨.refl _ _, .refl _⟩

theorem applyTransaction_effect
    (applied : applyTransaction crypto ctx state index tx = .ok (after, receipt)) :
    TxEffect ctx.currentHeight tx state after := by
  cases kind : tx.txType.isSystemTx with
  | true =>
    obtain ⟨within, orderly⟩ := applyTransaction_system kind applied
    exact .system kind within orderly
  | false =>
    obtain ⟨nonces, version, registry, _⟩ :=
      execute_effect _ (applyTransaction_user kind applied)
    exact .user kind nonces registry version

end Clarity.Core.BlockProcessor
