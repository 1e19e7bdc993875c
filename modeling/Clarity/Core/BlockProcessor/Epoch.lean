import Clarity.Core.BlockProcessor.Passes

/-!
Contract: the passes of `Core/BlockProcessor.cpp` that run at the end of an epoch.

Owns: `processEpochBoundary`, cut into the settlement of the pot, the escrows of the NFT
collections and the payment of the stakers, and `processRotation`; both are orderly.
-/

namespace Clarity.Core.BlockProcessor

open Common Crypto Library State State.StateAccess

variable (sorter : Sorter) (state : StateAccess)

/-! ## The pot -/

/-- The share of the stakers in the block rewards of an epoch. -/
def EPOCH_POOL : Nat :=
  applyBps GlobalConfig.BLOCK_REWARD GlobalConfig.STAKER_SHARE_BPS * ROTATION_INTERVAL

/-- Transactions per block since the counter was noted at the last boundary. -/
def avgTxPerBlock (txCounterNow txCounterAtStart : Nat) : Nat :=
  (if txCounterNow ≥ txCounterAtStart then txCounterNow - txCounterAtStart else 0) /
    ROTATION_INTERVAL

def epochApy : Nat :=
  computeEffectiveApy
    (computeActivityBps
      (avgTxPerBlock (state.getMetaU64 .txCounter) (state.getMetaU64 .txCounterAtEpochStart)))
    (computePotBonusBps (state.getGlobalU64 .pot) EPOCH_POOL)

/-- What an epoch pays to the stakers and moves in or out of the pot. -/
def epochAdjustment : PotAdjustment :=
  applyPotMechanics EPOCH_POOL
    (computeTargetStakerPayout (state.getGlobalU64 .totalStaked) (epochApy state) SECONDS_PER_EPOCH)
    (state.getGlobalU64 .pot)

/-- The writes of the boundary before any account is paid. -/
def settlePot : StateAccess :=
  let adjustment := epochAdjustment state
  let noted := (state.putMetaU64 .lastEffectiveApyBps (epochApy state)).putMetaU64
    .txCounterAtEpochStart (state.getMetaU64 .txCounter)
  let settled := noted.putGlobal .pot (adjustedPot (state.getGlobalU64 .pot) adjustment
    (u64 (EPOCH_POOL * POT_MAX_EPOCHS)))
  settled.putMetaU64 .totalPotDistributed
    (settled.getMetaU64 .totalPotDistributed + adjustment.distributed)

/-! ## NFT collections -/

/-- The escrow of one collection pays for an epoch; one that cannot is paused. -/
def accrueCollection (collection : NftCollection) : StateAccess :=
  if collection.hasReward = false ∨ collection.rewardPaused = true ∨ collection.mintedCount = 0 then
    state
  else
    let perEpoch := u64 (collection.mintedCount * collection.rewardRatePerEpoch)
    state.putNftCollection
      (if collection.rewardEscrowRemaining ≥ perEpoch then
        { collection with rewardEscrowRemaining := collection.rewardEscrowRemaining - perEpoch }
      else { collection with rewardEscrowRemaining := 0, rewardPaused := true })

/-! ## Stakers -/

def blocksStakedIn (account : Account) (epochStart epochEnd epochBlocks : Nat) : Nat :=
  if account.staked = 0 then 0
  else if account.stakerSinceHeight = 0 then 0
  else
    let effectiveStart := max account.stakerSinceHeight epochStart
    if effectiveStart > epochEnd then 0 else min (epochEnd + 1 - effectiveStart) epochBlocks

def epochStartHeight (height : Nat) : Nat :=
  if height + 1 ≥ ROTATION_INTERVAL then height + 1 - ROTATION_INTERVAL else 0

/-- The stake of an account, with the bonus of a large balance, times the blocks it was staked. -/
def timeWeight (account : Account) (height : Nat) : Nat :=
  let weight :=
    if account.staked ≥ GlobalConfig.BALANCE_BONUS_THRESHOLD then
      u64 (account.staked * (10000 + GlobalConfig.BALANCE_BONUS_BPS) / 10000)
    else account.staked
  weight * blocksStakedIn account (epochStartHeight height) height ROTATION_INTERVAL

/-- The payment of one staker; the product is cut to 128 bits. -/
def payStaker (height distributed totalTimeWeight : Nat) (state : StateAccess) (address : Address) :
    StateAccess :=
  let account := state.getAccount address
  if blocksStakedIn account (epochStartHeight height) height ROTATION_INTERVAL = 0 then state
  else
    let share := u64 (distributed * timeWeight account height % 2 ^ 128 / totalTimeWeight)
    state.putAccount address
      { account with
        pendingRewards := u64 (account.pendingRewards + share)
        lastRewardEpoch := height / ROTATION_INTERVAL }

def payStakers (height distributed : Nat) : StateAccess :=
  let totalTimeWeight :=
    (state.stakers.map fun address => timeWeight (state.getAccount address) height).sum
  if totalTimeWeight = 0 then state
  else state.stakers.foldl (payStaker height distributed totalTimeWeight) state

/-- `processEpochBoundary`; totals are read before anything is written. -/
def processEpochBoundary (height : Nat) : StateAccess :=
  let distributed := (epochAdjustment state).distributed
  let settled := settlePot state
  let accrued := settled.nftCollections.foldl accrueCollection settled
  if distributed = 0 ∨ state.getGlobalU64 .totalStaked = 0 ∨ state.getGlobalU64 .stakerCount = 0 then
    accrued
  else payStakers accrued height distributed

/-! ## Rotation -/

/-- The registry a rotation plans over: every validator below the next id. -/
def rotationRegistry : ValidatorRegistry :=
  { validators := ((List.range ((state.getGlobal .nextValidatorId).getD 1)).filter
      (· ≠ INVALID_ID)).filterMap state.getValidator
    activeSet := state.loadActiveSet
    targetSize := (state.getGlobal .activeSetSize).getD GlobalConfig.ACTIVE_SET_DEFAULT }

/-- `processRotation`; the number of transactions is that of the block. -/
def processRotation (height txCount : Nat) : StateAccess :=
  if state.loadActiveSet.isEmpty then state
  else
    let registry := rotationRegistry state
    let plan := planRotation sorter registry txCount
    if plan.toRemove.isEmpty && plan.toAdd.isEmpty && plan.newTargetSize == registry.targetSize then
      state
    else
      let applied := applyRotation registry plan height
      (((putValidators state applied.validators).saveActiveSet applied.activeSet).putGlobal
        .activeSetSize plan.newTargetSize).putGlobal .lastRotationHeight height

/-! ## What the passes can change -/

variable {state}

theorem processEpochBoundary_within (boundary : Nat) :
    Within [.accounts, .collections, .counters] state (processEpochBoundary state boundary) := by
  have settled : Within [.accounts, .collections, .counters] state (settlePot state) := by
    simp [settlePot]
  have accrued := settled.trans (@Within.foldl _ _ accrueCollection
    (fun _ _ => by simp [accrueCollection]) (settlePot state).nftCollections _)
  unfold processEpochBoundary payStakers
  dsimp only
  split
  · exact accrued
  · split
    · exact accrued
    · exact accrued.trans (Within.foldl (fun _ _ => by simp [payStaker]) _ _)

theorem processRotation_within (sorter : Sorter) (rotated txCount : Nat) :
    Within passParts state (processRotation sorter state rotated txCount) := by
  simp [processRotation, putValidators_within]

theorem processRotation_orderly {present : Bool} (own : OwnIds state.registry) (sorter : Sorter)
    (rotated txCount : Nat) :
    Orderly ⟨present, false⟩ state (processRotation sorter state rotated txCount) := by
  unfold processRotation
  dsimp only
  split
  · exact .refl state
  · split
    · exact .refl state
    · have stored : ∀ v ∈ (rotationRegistry state).validators,
          ∃ id, state.getValidator id = some v := by
        intro v member
        obtain ⟨id, _, found⟩ := List.mem_filterMap.mp member
        exact ⟨id, found⟩
      have derived : Derived (rotationRegistry state).validators (applyRotation
          (rotationRegistry state) (planRotation sorter (rotationRegistry state) txCount)
          rotated).validators := replaceMembers_derived _ _ _ _
      exact (writeBack_orderly own stored derived).trans
        (@Orderly.of_within _ _ _ [] (by simp) (by decide))

end Clarity.Core.BlockProcessor
