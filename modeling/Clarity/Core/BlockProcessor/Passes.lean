import Clarity.Core.Executor.Dispatch
import Clarity.Core.RewardCalculator
import Clarity.Core.ValidatorRotation

/-!
Contract: the passes of `Core/BlockProcessor.cpp` that run on every block, after its
transactions.

Owns: the switch to an emergency set, the participants, the offline check, the expiry of
orders and of unbonding validators, the evaluation of order conditions and the block rewards;
each of them is orderly: no nonce changes, and the registry changes by moves only.
-/

namespace Clarity.Core

open Common Crypto Library State State.StateAccess

/-- What the block processor is given besides the state: the primitives, the root of the tree,
and the sorting of the standard library. -/
structure ChainEnv where
  crypto : Primitives
  root : Tree → Hash
  sorter : Sorter

namespace BlockProcessor

variable (sorter : Sorter) (state : StateAccess)

/-! ## Validators -/

/-- A record is read, changed and written back; an unknown id is skipped. -/
def editValidator (change : ValidatorInfo → ValidatorInfo) (state : StateAccess) (id : Nat) :
    StateAccess :=
  match state.getValidator id with
  | none => state
  | some validator => state.putValidator (change validator)

def putValidators (records : List ValidatorInfo) : StateAccess :=
  (records.filter fun v => v.id ≠ INVALID_ID).foldl StateAccess.putValidator state

/-- What an emergency block does to the two sets. -/
def switchActiveSet (committedSet activeSet : List Nat) (height : Nat) : StateAccess :=
  let left := (committedSet.filter fun id => !activeSet.contains id).foldl
    (editValidator fun v => { v with isActive := false, lastActiveAt := height }) state
  let entered := (activeSet.filter fun id => !committedSet.contains id).foldl
    (editValidator fun v => { v with isActive := true, becameActiveAt := height }) left
  entered.saveActiveSet activeSet

def markParticipants (participants : List Nat) (height : Nat) : StateAccess :=
  participants.foldl (editValidator fun v => { v with lastSeenHeight := height }) state

def resolveActiveSet (committed : List Nat) (currentHeight : Nat) (emergency : Bool) : List Nat :=
  if emergency = false then committed
  else
    computeEmergencyActiveSet sorter { validators := state.validators, activeSet := committed }
      committed currentHeight true

/-- `runOfflineCheck`; the registry has the active validators only. -/
def runOfflineCheck (height : Nat) : StateAccess :=
  let activeSet := state.loadActiveSet
  if activeSet.isEmpty then state
  else
    let registry : ValidatorRegistry :=
      { validators := activeSet.filterMap state.getValidator, activeSet := activeSet }
    let plan := planOfflineRemoval sorter registry height
    if plan.removed.isEmpty && plan.promoted.isEmpty then state
    else
      let applied := applyOfflineRemoval registry plan height
      (putValidators state applied.validators).saveActiveSet applied.activeSet

def payStake (v : ValidatorInfo) : StateAccess :=
  let account := state.getAccount v.owner
  let paid := { account with balance := u64 (account.balance + v.stake) }
  state.putAccount v.owner (paid.recalculateStaked GlobalConfig.AUTO_STAKE_THRESHOLD)

/-- One validator of `processUnbondExpiries`: the stake is paid out, the record goes. -/
def unbond (id : Nat) : StateAccess :=
  match state.getValidator id with
  | none => state
  | some v =>
    (((payStake state v).deleteValidatorByAddress v.rewardAddress).deleteValidator
      v.id).putValidatorKeyHistory v.id []

def processUnbondExpiries (height : Nat) : StateAccess :=
  let expired := (state.validators.filter fun v => v.isUnbondExpired height).map ValidatorInfo.id
  expired.foldl unbond state

/-- The counter of the block's producer; the genesis block has none. -/
def countProduced (header : BlockHeader) : StateAccess :=
  if header.height > 0 then
    match state.getValidatorByAddress header.proposer with
    | none => state
    | some id =>
      editValidator (fun v => { v with totalBlocksProduced := u64 (v.totalBlocksProduced + 1) })
        state id
  else state

/-! ## Orders -/

/-- One order of `processOrderExpiries`: the remainder is refunded without a fee. -/
def expireOrder (orderId : Nat) : StateAccess :=
  match state.getOrder orderId with
  | none => state
  | some order =>
    let refund := order.remainingAmount
    let refunded :=
      if refund > 0 then state.addBalance order.owner order.sellToken refund else state
    refunded.deleteRestingOrder order

def processOrderExpiries (height : Nat) : StateAccess :=
  let expiring := state.getOrdersExpiringAt height
  if expiring.isEmpty then state
  else (expiring.foldl expireOrder state).clearOrderExpiry height

/-- `poolSpotPrice`: bought per sold, scaled. -/
def poolSpotPrice (poolId sellToken buyToken : Nat) : Option Nat := do
  let pool ← state.getAmmPool poolId
  let (sold, bought) ←
    if pool.tokenA = sellToken ∧ pool.tokenB = buyToken then some (pool.reserveA, pool.reserveB)
    else if pool.tokenB = sellToken ∧ pool.tokenA = buyToken then
      some (pool.reserveB, pool.reserveA)
    else none
  guard (¬(pool.reserveA = 0 ∨ pool.reserveB = 0))
  pure (u64 (bought * PRICE_SCALE / sold))

/-- One condition of `conditionsAllHold`; a condition on a missing pool holds. -/
def conditionHolds (order : Order) (height : Nat) (condition : OrderCondition) : Bool :=
  match condition.type with
  | .invalid => false
  | .expiresAtHeight => height < condition.param1
  | .priceAbove =>
    match poolSpotPrice state condition.param2 order.sellToken order.buyToken with
    | none => true
    | some price => price ≤ condition.param1
  | .priceBelow =>
    match poolSpotPrice state condition.param2 order.sellToken order.buyToken with
    | none => true
    | some price => price ≥ condition.param1
  | .volumeBelow =>
    match state.getAmmPool condition.param2 with
    | none => true
    | some pool => pool.reportedVolume height ≥ condition.param1
  | .balanceBelow => (state.getAccount order.owner).balance ≥ condition.param1
  | .unnamed _ => true

def conditionsAllHold (order : Order) (height : Nat) : Bool :=
  order.conditions.all (conditionHolds state order height)

/-- `cancelOrderByCondition`: the refund is less the fee. -/
def cancelOrderByCondition (orderId : Nat) : StateAccess :=
  match state.getOrder orderId with
  | none => state
  | some order =>
    let remaining := order.remainingAmount
    let refund := remaining - min remaining ORDER_CANCEL_FEE_ATOMIC
    let refunded :=
      if refund > 0 then state.addBalance order.owner order.sellToken refund else state
    refunded.deleteRestingOrder order

/-- One order of the routing loop: the state and the fills so far. -/
def routeOrder (height : Nat) (routed : StateAccess × List Fill) (orderId : Nat) :
    StateAccess × List Fill :=
  match routed.1.getOrder orderId with
  | none => routed
  | some order =>
    match executeActiveOrder routed.1 order height with
    | .filled state fill => (state, routed.2 ++ [fill])
    | .rested => routed
    | .unroutable => (cancelOrderByCondition routed.1 orderId, routed.2)

/-- `evaluateOrderConditions`: all orders are judged in the state before any is touched. -/
def evaluateOrderConditions (height : Nat) : StateAccess × List Fill :=
  let judged := state.orders.filter fun order =>
    !(order.conditions.isEmpty && order.mode != .active)
  let toCancel := judged.filter fun order => !conditionsAllHold state order height
  let toRoute := judged.filter fun order =>
    order.mode == .active && conditionsAllHold state order height
  let cancelled := (toCancel.map Order.id).foldl cancelOrderByCondition state
  (toRoute.map Order.id).foldl (routeOrder height) (cancelled, [])

/-! ## Rewards -/

/-- One reward: the validator gets its share by its multiplier, the rest is redistributed. -/
def payReward (paid : StateAccess × Nat) (reward : SetReward) : StateAccess × Nat :=
  match paid.1.getValidator reward.validatorId with
  | none => (paid.1, u64 (paid.2 + reward.amount))
  | some v =>
    let adjusted := u64 (reward.amount * v.rewardMultiplier) / 10000
    let account := paid.1.getAccount v.rewardAddress
    let credited :=
      if adjusted > 0 then
        paid.1.putAccount v.rewardAddress
          { account with balance := u64 (account.balance + adjusted) }
      else paid.1
    (credited.putValidator { v with totalRewardsEarned := u64 (v.totalRewardsEarned + adjusted) },
      u64 (paid.2 + sub64 reward.amount adjusted))

def seedOnly (activeSet : List Nat) : Bool :=
  !activeSet.isEmpty && activeSet.all fun id =>
    match state.getValidator id with
    | none => false
    | some v => v.isSeed

/-- The rewards of a block in the order they are paid, and what goes to the pot unpaid. -/
def rewardsDue (header : BlockHeader) (activeSet : List Nat) : List SetReward × Nat :=
  let rewards := computeBlockReward GlobalConfig.BLOCK_REWARD activeSet
  if seedOnly state activeSet then
    (splitEvenly rewards.producerAmount activeSet.length activeSet, rewards.setAmount)
  else
    let producerId :=
      (state.getValidatorByAddress header.proposer).getD (activeSet.headD INVALID_ID)
    let producer : List SetReward :=
      if rewards.producerAmount > 0 ∧ ¬activeSet.isEmpty then
        [{ validatorId := producerId, amount := rewards.producerAmount }]
      else []
    (producer ++ rewards.validatorRewards, 0)

/-- The end of `distributeRewards`: the share of the stakers and what was not paid go to the pot. -/
def fillPot (redistributed : Nat) : StateAccess :=
  let stakerPool := applyBps GlobalConfig.BLOCK_REWARD GlobalConfig.STAKER_SHARE_BPS
  let pot := u64 (state.getGlobalU64 .pot + redistributed + stakerPool)
  (state.putMetaU64 .totalToPot
    (state.getMetaU64 .totalToPot + redistributed + stakerPool)).putGlobal .pot pot

def distributeRewards (header : BlockHeader) : StateAccess :=
  let due := rewardsDue state header state.loadActiveSet
  let paid := due.1.foldl payReward (state, 0)
  fillPot paid.1 (u64 (paid.2 + due.2))

/-! ## Globals -/

def updateGlobalState (height : Nat) : StateAccess :=
  (state.putGlobal .totalSupply
    (state.getGlobalU64 .totalSupply + GlobalConfig.BLOCK_REWARD)).putGlobal .epochNumber
      (height / ROTATION_INTERVAL)

/-- `bumpLifetimeCounters`; the fee window, which only the RPC server reads, is left out. -/
def bumpLifetimeCounters (block : Block) : StateAccess :=
  (state.putMetaU64 .txCounter
    (state.getMetaU64 .txCounter + block.transactions.length)).putMetaU64 .totalFeesLifetime
      (state.getMetaU64 .totalFeesLifetime + block.header.totalFees)

/-! ## What the passes can change -/

/-- The parts of the state that the passes over accounts and validators write. -/
abbrev passParts : List Part := [.accounts, .collections, .registry]

section Within

variable {state}

theorem editValidator_within (change : ValidatorInfo → ValidatorInfo) (state : StateAccess)
    (id : Nat) : Within passParts state (editValidator change state id) := by
  unfold editValidator
  split <;> simp

theorem switchActiveSet_within (committedSet activeSet : List Nat) (since : Nat) :
    Within passParts state (switchActiveSet state committedSet activeSet since) := by
  unfold switchActiveSet
  rw [within_saveActiveSet (by decide)]
  exact (Within.foldl (editValidator_within _) _ state).trans
    (Within.foldl (editValidator_within _) _ _)

theorem putValidators_within (records : List ValidatorInfo) :
    Within passParts state (putValidators state records) :=
  Within.foldl (fun _ _ => by simp) _ state

theorem runOfflineCheck_within (sorter : Sorter) (checked : Nat) :
    Within passParts state (runOfflineCheck sorter state checked) := by
  simp [runOfflineCheck, putValidators_within]

theorem processUnbondExpiries_within (expiry : Nat) :
    Within passParts state (processUnbondExpiries state expiry) := by
  refine Within.foldl (fun middle id => ?_) _ state
  unfold unbond payStake
  split <;> simp [Account.recalculateStaked]

theorem countProduced_within (header : BlockHeader) :
    Within passParts state (countProduced state header) := by
  unfold countProduced
  split
  · split
    · exact .refl _ _
    · exact editValidator_within _ state _
  · exact .refl _ _

theorem payReward_within (paid : StateAccess × Nat) (reward : SetReward) :
    Within passParts paid.1 (payReward paid reward).1 := by
  unfold payReward
  split <;> simp

theorem distributeRewards_within (header : BlockHeader) :
    Within passParts state (distributeRewards state header) := by
  have paid := Within.foldl_fst payReward_within
    (rewardsDue state header state.loadActiveSet).1 (state, 0)
  simpa [distributeRewards, fillPot] using paid

theorem expireOrder_within (state : StateAccess) (orderId : Nat) :
    Within orderParts state (expireOrder state orderId) := by
  unfold expireOrder
  split <;> simp

theorem processOrderExpiries_within (expiry : Nat) :
    Within orderParts state (processOrderExpiries state expiry) := by
  unfold processOrderExpiries
  dsimp only
  split
  · exact .refl _ _
  · rw [within_clearOrderExpiry]
    exact Within.foldl expireOrder_within _ state

theorem cancelOrderByCondition_within (state : StateAccess) (orderId : Nat) :
    Within orderParts state (cancelOrderByCondition state orderId) := by
  unfold cancelOrderByCondition
  split <;> simp

theorem evaluateOrderConditions_within (evaluated : Nat) :
    Within orderParts state (evaluateOrderConditions state evaluated).1 := by
  unfold evaluateOrderConditions
  refine Within.trans ?_ (Within.foldl_fst (fun routed orderId => ?_) _ _)
  · exact Within.foldl cancelOrderByCondition_within _ state
  · unfold routeOrder
    split
    · exact .refl _ _
    · split
      next filled => exact executeActiveOrder_within filled (.refl _ _)
      · exact .refl _ _
      · exact cancelOrderByCondition_within _ orderId

theorem updateGlobalState_within (epochHeight : Nat) :
    Within [.supply] state (updateGlobalState state epochHeight) := by
  simp [updateGlobalState]

theorem bumpLifetimeCounters_within (block : Block) :
    Within [.counters] state (bumpLifetimeCounters state block) := by
  simp [bumpLifetimeCounters]

end Within

section Orderly

variable {kept : Kept} {present : Bool} {state}

theorem editValidator_orderly {change : ValidatorInfo → ValidatorInfo}
    (keeps : ∀ v, Alike kept v (change v)) (state : StateAccess) (id : Nat) :
    Orderly kept state (editValidator change state id) := by
  unfold editValidator
  cases found : state.getValidator id with
  | none => exact .refl state
  | some validator => exact .putValidator found (keeps validator)

theorem switchActiveSet_orderly (committedSet activeSet : List Nat) (since : Nat) :
    Orderly ⟨present, false⟩ state (switchActiveSet state committedSet activeSet since) := by
  unfold switchActiveSet
  refine ((Orderly.foldl (editValidator_orderly ?_) _ state).trans
    (Orderly.foldl (editValidator_orderly ?_) _ _)).trans (.saveActiveSet activeSet)
  · exact fun _ => ⟨⟨rfl, rfl, rfl, rfl, rfl, rfl⟩, fun _ => rfl, (by cases ·)⟩
  · exact fun _ => ⟨⟨rfl, rfl, rfl, rfl, rfl, rfl⟩, fun _ => rfl, (by cases ·)⟩

theorem markParticipants_orderly {seated : Bool} (participants : List Nat) (seen : Nat) :
    Orderly ⟨false, seated⟩ state (markParticipants state participants seen) := by
  refine Orderly.foldl (editValidator_orderly ?_) participants state
  exact fun _ => ⟨⟨rfl, rfl, rfl, rfl, rfl, rfl⟩, (by cases ·), fun _ => rfl⟩

theorem countProduced_orderly (header : BlockHeader) :
    Orderly kept state (countProduced state header) := by
  unfold countProduced
  split
  · split
    · exact .refl state
    · refine editValidator_orderly ?_ state _
      exact fun _ => ⟨⟨rfl, rfl, rfl, rfl, rfl, rfl⟩, fun _ => rfl, fun _ => rfl⟩
  · exact .refl state

/-- Records that are known under their ids, written back one after the other. -/
theorem putValidators_orderly {records : List ValidatorInfo} (state : StateAccess)
    (known : ∀ v ∈ records, ∃ old, state.getValidator v.id = some old ∧ Alike kept old v) :
    Orderly kept state (putValidators state records) := by
  unfold putValidators
  induction records generalizing state with
  | nil => exact .refl state
  | cons head tail ih =>
    have knownTail : ∀ v ∈ tail, ∃ old, state.getValidator v.id = some old ∧ Alike kept old v :=
      fun v member => known v (List.mem_cons_of_mem head member)
    rw [List.filter_cons]
    split
    · obtain ⟨old, found, same⟩ := known head List.mem_cons_self
      refine (Orderly.putValidator found same).trans (ih _ ?_)
      -- a record of the same id that was just written is of the same validator
      intro v member
      obtain ⟨oldV, foundV, sameV⟩ := knownTail v member
      have read : (state.putValidator head).getValidator v.id =
          if v.id = head.id then some head else state.getValidator v.id :=
        Table.find?_put state.tree.validators head.id head v.id
      by_cases again : v.id = head.id
      · rw [again, found] at foundV
        cases foundV
        exact ⟨head, by rw [read, if_pos again], same.symm.trans sameV⟩
      · exact ⟨oldV, by rw [read, if_neg again, foundV], sameV⟩
    · exact ih state knownTail

/-- A registry that was read from the state and had its members replaced is written back. -/
theorem writeBack_orderly {records : List ValidatorInfo} {changed : ValidatorRegistry}
    (own : OwnIds state.registry)
    (stored : ∀ v ∈ records, ∃ id, state.getValidator id = some v)
    (derived : Derived records changed.validators) :
    Orderly ⟨present, false⟩ state
      ((putValidators state changed.validators).saveActiveSet changed.activeSet) := by
  refine (putValidators_orderly state ?_).trans (.saveActiveSet changed.activeSet)
  intro v member
  obtain ⟨source, sourceMember, same⟩ := derived v member
  obtain ⟨id, found⟩ := stored source sourceMember
  refine ⟨source, ?_, same.toSameIdentity, fun _ => same.attendance rfl, (by cases ·)⟩
  rw [same.id, own id source found]
  exact found

theorem runOfflineCheck_orderly (own : OwnIds state.registry) (sorter : Sorter) (checked : Nat) :
    Orderly ⟨present, false⟩ state (runOfflineCheck sorter state checked) := by
  unfold runOfflineCheck
  dsimp only
  split
  · exact .refl state
  · split
    · exact .refl state
    · refine writeBack_orderly own ?_ (replaceMembers_derived _ _ _ _)
      intro v member
      obtain ⟨id, _, found⟩ := List.mem_filterMap.mp member
      exact ⟨id, found⟩

theorem found_of_within {parts : List Part} {middle : StateAccess} {id : Nat} {v : ValidatorInfo}
    (within : Within parts state middle) (out : .registry ∉ parts)
    (found : state.getValidator id = some v) : middle.getValidator id = some v := by
  have same : middle.tree.validators = state.tree.validators :=
    congrArg Registry.validators (within.same .registry out)
  unfold getValidator
  rw [same]
  exact found

theorem unbond_orderly (state : StateAccess) (id : Nat) : Orderly ⟨false, false⟩ state (unbond state id) := by
  unfold unbond
  cases found : state.getValidator id with
  | none => exact .refl state
  | some v =>
    have paid : Within [.accounts] state (payStake state v) := by
      simp [payStake, Account.recalculateStaked]
    exact (Orderly.of_within paid (by decide)).trans
      (.single (.remove _ id v (found_of_within paid (by decide) found) rfl))

theorem processUnbondExpiries_orderly (expiry : Nat) :
    Orderly ⟨false, false⟩ state (processUnbondExpiries state expiry) :=
  Orderly.foldl unbond_orderly _ state

theorem payReward_orderly (paid : StateAccess × Nat) (reward : SetReward) :
    Orderly kept paid.1 (payReward paid reward).1 := by
  unfold payReward
  cases found : paid.1.getValidator reward.validatorId with
  | none => exact .refl _
  | some v =>
    have credited : ∀ middle, Within [.accounts] paid.1 middle →
        Orderly kept paid.1 (middle.putValidator { v with
          totalRewardsEarned := u64 (v.totalRewardsEarned +
            u64 (reward.amount * v.rewardMultiplier) / 10000) }) := by
      intro middle within
      exact (Orderly.of_within within (by decide)).trans
        (.putValidator (found_of_within within (by decide) found)
          ⟨⟨rfl, rfl, rfl, rfl, rfl, rfl⟩, fun _ => rfl, fun _ => rfl⟩)
    exact credited _ (by simp)

theorem distributeRewards_orderly (header : BlockHeader) :
    Orderly kept state (distributeRewards state header) := by
  have paid := @foldl_keeps (StateAccess × Nat) SetReward
    (fun other => Orderly kept state other.1) payReward
    (rewardsDue state header state.loadActiveSet).1
    (fun reward _ other orderly => orderly.trans (payReward_orderly other reward)) (state, 0)
    (.refl state)
  unfold distributeRewards fillPot
  exact paid.trans (@Orderly.of_within _ _ _ [] (by simp) (by decide))

end Orderly

end BlockProcessor

end Clarity.Core
