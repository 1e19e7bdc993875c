import Clarity.Core.Executor.Market
import Clarity.Core.Executor.Nfts
import Clarity.Core.Executor.Validators

/-!
Contract: `TransactionExecutor::execute`, the checks in front of every handler and the dispatch.

Owns: `checkExpiry`, `verifySignature`, `verifyNonce`, `dispatch`, `execute`; what an executed
transaction does to the nonces (`execute_nonces`) and to the validator registry
(`execute_registry`).
-/

namespace Clarity.Core.TransactionExecutor

open Common Crypto Library State State.StateAccess

variable (crypto : Primitives) (state : StateAccess) (tx : Transaction) (ctx : TxExecutionContext)
open Clarity.Core Relation

def verifySignature : Bool :=
  crypto.verify (tx.signingHash crypto) tx.sender tx.signature

def verifyNonce : Bool :=
  (state.getAccount tx.sender).nonce == tx.nonce

def checkExpiry : Bool :=
  if tx.validUntilHeight = 0 then true else ctx.currentHeight ≤ tx.validUntilHeight

/-- The handler of a transaction type; only orders fill. -/
def dispatch : Option (StateAccess × List Fill) :=
  let unfilled (outcome : Option StateAccess) := outcome.map fun after => (after, [])
  match tx.txType with
  | .transfer => unfilled (executeTransfer state tx ctx)
  | .optInStaking => unfilled (executeOptInStaking state tx)
  | .optOutStaking => unfilled (executeOptOutStaking state tx)
  | .claimRewards => unfilled (executeClaimRewards state tx)
  | .registerValidator => unfilled (executeRegisterValidator state tx ctx)
  | .unregisterValidator => unfilled (executeUnregisterValidator state tx ctx)
  | .updateRewardAddress => unfilled (executeUpdateRewardAddress state tx)
  | .rotateConsensusKey => unfilled (executeRotateConsensusKey state tx ctx)
  | .createToken => unfilled (executeCreateToken state tx)
  | .mintToken => unfilled (executeMintToken state tx)
  | .burnToken => unfilled (executeBurnToken state tx)
  | .updateTokenMeta => unfilled (executeUpdateTokenMeta state tx)
  | .createPool => unfilled (executeCreatePool state tx ctx)
  | .addLiquidity => unfilled (executeAddLiquidity state tx ctx)
  | .removeLiquidity => unfilled (executeRemoveLiquidity state tx)
  | .swap => unfilled (executeSwap state tx ctx)
  | .createOrder => executeCreateOrder state tx ctx
  | .cancelOrder => unfilled (executeCancelOrder state tx)
  | .createNftCollection => unfilled (executeCreateNftCollection crypto state tx ctx)
  | .mintNft => unfilled (executeMintNft state tx ctx)
  | .wrapNft => unfilled (executeWrapNft crypto state tx ctx)
  | .transferNft => unfilled (executeTransferNft state tx ctx)
  | .burnNft => unfilled (executeBurnNft crypto state tx ctx)
  | .updateNftMetadata => unfilled (executeUpdateNftMetadata state tx)
  | .topUpNft => unfilled (executeTopUpNft crypto state tx)
  | .claimNftReward => unfilled (executeClaimNftReward state tx ctx)
  | .refillCollectionReward => unfilled (executeRefillCollectionReward crypto state tx)
  | .blockReward | .orderExpired | .slash | .invalid | .unnamed _ => none

def execute : Option (StateAccess × Receipt) := do
  guard (tx.isWellFormed = true)
  guard (tx.chainId = ctx.chainId)
  guard (checkExpiry tx ctx = true)
  guard (verifySignature crypto tx = true)
  guard (verifyNonce state tx = true)
  let charged ← chargeFee state tx
  let (after, fills) ← dispatch crypto charged tx ctx
  pure (bumpNonce after tx, { status := .success, feePaid := tx.fee, fills := fills })

/-! ## What a transaction can change -/

variable {crypto state tx ctx}

/-- The parts of the state that the handler of a type writes. -/
def handlerParts : TxType → List Part
  | .transfer => [.accounts, .balances]
  | .optInStaking | .optOutStaking | .claimRewards => [.accounts]
  | .registerValidator | .unregisterValidator | .updateRewardAddress | .rotateConsensusKey =>
    [.registry]
  | .createToken | .updateTokenMeta => [.tokens]
  | .mintToken | .burnToken => [.balances, .tokens]
  | .createPool | .addLiquidity | .removeLiquidity => [.accounts, .balances, .pools, .positions]
  | .swap => [.accounts, .balances, .pools]
  | .createOrder => orderParts
  | .cancelOrder => [.accounts, .balances, .book]
  | .createNftCollection | .refillCollectionReward => [.accounts, .balances, .collections]
  | .mintNft | .wrapNft | .burnNft => mintParts
  | .transferNft | .topUpNft => [.accounts, .balances, .nfts]
  | .updateNftMetadata => [.nfts]
  | .claimNftReward => [.accounts, .nfts]
  | .blockReward | .orderExpired | .slash | .invalid | .unnamed _ => []

/-- A handler writes nothing else. -/
theorem dispatch_within : Ensures (fun done => Within (handlerParts tx.txType) state done.1)
      (dispatch crypto state tx ctx) := by
  unfold dispatch
  cases tx.txType <;> simp only [Ensures.map_iff, Ensures.none_iff, handlerParts]
  case transfer => exact executeTransfer_within
  case optInStaking => exact setStakingOptedOut_within
  case optOutStaking => exact setStakingOptedOut_within
  case claimRewards => exact executeClaimRewards_within
  case registerValidator => exact executeRegisterValidator_spec.mono fun _ spec => spec.1
  case unregisterValidator => exact executeUnregisterValidator_spec.mono fun _ spec => spec.1
  case updateRewardAddress => exact executeUpdateRewardAddress_spec.mono fun _ spec => spec.1
  case rotateConsensusKey => exact executeRotateConsensusKey_spec.mono fun _ spec => spec.1
  case createToken => exact executeCreateToken_within
  case mintToken => exact executeMintToken_within
  case burnToken => exact executeBurnToken_within
  case updateTokenMeta => exact executeUpdateTokenMeta_within
  case createPool => exact executeCreatePool_within
  case addLiquidity => exact executeAddLiquidity_within
  case removeLiquidity => exact executeRemoveLiquidity_within
  case swap => exact executeSwap_within
  case createOrder => exact executeCreateOrder_within
  case cancelOrder => exact executeCancelOrder_within
  case createNftCollection => exact executeCreateNftCollection_within
  case mintNft => exact executeMintNft_within
  case wrapNft => exact executeWrapNft_within
  case transferNft => exact executeTransferNft_within
  case burnNft => exact executeBurnNft_within
  case updateNftMetadata => exact executeUpdateNftMetadata_within
  case topUpNft => exact executeTopUpNft_within
  case claimNftReward => exact executeClaimNftReward_within
  case refillCollectionReward => exact executeRefillCollectionReward_within

/-- No handler writes the version or a nonce. -/
theorem notMem_handlerParts (kind : TxType) :
    .version ∉ handlerParts kind ∧ .nonces ∉ handlerParts kind := by
  cases kind <;> simp [handlerParts]

/-- What an executed transaction does to the registry: quiet moves of its handler, a deregistration,
a registration of the sender, or a rotation of the key of the sender's validator. -/
inductive RegistryEffect (height : Nat) (tx : Transaction) (before after : Registry) : Prop
  | moves (path : ReflTransGen (RegistryMove ⟨true, true⟩) before after)
  | leaves (id : Nat) (validator : ValidatorInfo) (kind : tx.txType = .unregisterValidator)
      (found : before.validators.find? id = some validator) (notSeed : validator.isSeed = false)
      (left : after = leftRegistry before validator (withoutMember before.activeSet id) height)
  | registers (kind : tx.txType = .registerValidator) (account : Account)
      (signed : isNull tx.sender = false)
      (free : before.validatorsByAddress.find? tx.sender = none)
      (registered : after = registeredRegistry before tx account height)
  | rotates (kind : tx.txType = .rotateConsensusKey) (id : Nat) (validator : ValidatorInfo)
      (owned : before.validatorsByAddress.find? tx.sender = some id)
      (found : before.validators.find? id = some validator)
      (valid : isNull (read32At tx.payload 0) = false)
      (rotated : after = rotatedRegistry before id validator (read32At tx.payload 0) height)

theorem dispatch_effect (signed : isNull tx.sender = false) :
    Ensures (fun done => RegistryEffect ctx.currentHeight tx state.registry done.1.registry)
      (dispatch crypto state tx ctx) := by
  by_cases rotate : tx.txType = .rotateConsensusKey
  · unfold dispatch
    rw [rotate]
    simp only [Ensures.map_iff]
    refine executeRotateConsensusKey_spec.mono ?_
    rintro after ⟨_, id, validator, owned, found, valid, rotated⟩
    exact .rotates rotate id validator owned found valid rotated
  by_cases register : tx.txType = .registerValidator
  · unfold dispatch
    rw [register]
    simp only [Ensures.map_iff]
    refine executeRegisterValidator_spec.mono ?_
    rintro after ⟨_, account, free, registered⟩
    exact .registers register account signed free registered
  by_cases unregister : tx.txType = .unregisterValidator
  · unfold dispatch
    rw [unregister]
    simp only [Ensures.map_iff]
    refine executeUnregisterValidator_spec.mono ?_
    rintro after ⟨_, id, validator, found, notSeed, left⟩
    exact .leaves id validator unregister found notSeed left
  by_cases readdress : tx.txType = .updateRewardAddress
  · unfold dispatch
    rw [readdress]
    simp only [Ensures.map_iff]
    exact executeUpdateRewardAddress_spec.mono fun _ spec => .moves spec.2
  · -- Only the handlers of validators write the registry.
    have out : .registry ∉ handlerParts tx.txType := by
      cases kind : tx.txType <;> first | contradiction | simp [handlerParts]
    exact dispatch_within.mono fun _ within => .moves (Orderly.of_registry (within.same .registry out))

/-- An executed transaction found its own nonce in the state, and adds one to it; no other nonce
changes. -/
structure NonceStep (tx : Transaction) (before after : StateAccess) : Prop where
  matched : before.nonce tx.sender = tx.nonce
  bumped : after.nonce tx.sender = u64 (tx.nonce + 1)
  others : ∀ address, address ≠ tx.sender → after.nonce address = before.nonce address

theorem execute_effect :
    Ensures (fun done => NonceStep tx state done.1 ∧ done.1.version = state.version ∧
        RegistryEffect ctx.currentHeight tx state.registry done.1.registry ∧
        verifySignature crypto tx = true ∧ done.2.status = .success)
      (execute crypto state tx ctx) := by
  simp only [execute, Ensures.do_iff, Ensures.guard_eq_some_iff, Ensures.pure_iff]
  intro _ wellFormed _ _ _ _ _ signed _ matched charged ranFee done ran
  have fee := chargeFee_within charged ranFee
  -- A transaction with a handler is not a system transaction, so its sender is checked.
  have user : tx.txType.isSystemTx = false := by
    have handled := ran
    unfold dispatch at handled
    cases kind : tx.txType <;> rw [kind] at handled <;> first | rfl | simp at handled
  simp [Transaction.isWellFormed, user] at wellFormed
  have effect := dispatch_effect wellFormed.2.2.2.2.1 done ran
  have within := dispatch_within done ran
  have bumped := @bumpNonce_within done.1 tx
  have matched : state.nonce tx.sender = tx.nonce := by simpa [verifyNonce, nonce] using matched
  have same : done.1.nonce = state.nonce :=
    Eq.trans (within.same .nonces (notMem_handlerParts _).2) (fee.same .nonces (by decide))
  have read (address : Address) : (bumpNonce done.1 tx).nonce address =
      if address = tx.sender then u64 (done.1.nonce tx.sender + 1) else done.1.nonce address :=
    nonce_putAccount done.1 tx.sender address _
  refine ⟨⟨matched, ?_, ?_⟩, ?_, ?_, signed, trivial⟩
  · rw [read, if_pos rfl, same, matched]
  · intro address other
    rw [read, if_neg other, same]
  · exact (Eq.trans (bumped.same .version (by decide))
      (within.same .version (notMem_handlerParts _).1)).trans (fee.same .version (by decide))
  · have charged : charged.registry = state.registry := fee.same .registry (by decide)
    have final : (bumpNonce done.1 tx).registry = done.1.registry := bumped.same .registry (by decide)
    rw [final, ← charged]
    exact effect

end Clarity.Core.TransactionExecutor
