import Clarity.Core.ValidatorTypes

/-!
Contract: the reward arithmetic of `Core/RewardCalculator.cpp`.

Owns: the split of a block reward, the components of the yearly rate, the payout an epoch aims
at, and the adjustment of the pot.

Products the source takes in 128 bits are exact here: their factors fit.
-/

namespace Clarity.Core

open GlobalConfig

/-! ## Block rewards -/

structure SetReward where
  validatorId : Nat := INVALID_ID
  amount : Nat := 0
deriving DecidableEq, Repr

structure BlockRewardResult where
  totalIssued : Nat := 0
  producerAmount : Nat := 0
  setAmount : Nat := 0
  validatorRewards : List SetReward := []
deriving DecidableEq, Repr

/-- An amount split into `count` parts: the first ones get one unit of the remainder each. -/
def splitEvenly (amount count : Nat) (ids : List Nat) : List SetReward :=
  ids.zipIdx.map fun (id, position) =>
    { validatorId := id
      amount := amount / count + if position < amount % count then 1 else 0 }

def computeBlockReward (blockReward : Nat) (activeSet : List Nat) : BlockRewardResult :=
  if activeSet.isEmpty then {}
  else
    let validatorPool := applyBps blockReward VALIDATOR_SHARE_BPS
    let producerAmount := applyBps validatorPool PRODUCER_BONUS_BPS
    let setAmount := validatorPool - producerAmount
    { totalIssued := validatorPool
      producerAmount := producerAmount
      setAmount := setAmount
      validatorRewards := splitEvenly setAmount activeSet.length activeSet }

/-! ## The yearly rate -/

def computeActivityBps (avgTxPerBlock : Nat) : Nat :=
  if avgTxPerBlock = 0 then 0
  else if avgTxPerBlock ≥ TRAFFIC_SATURATION_TX then APY_ACTIVITY_MAX_BPS
  else
    let result := avgTxPerBlock * APY_ACTIVITY_MAX_BPS / TRAFFIC_SATURATION_TX
    min result APY_ACTIVITY_MAX_BPS

def computePotBonusBps (pot poolBaseline : Nat) : Nat :=
  if poolBaseline = 0 then 0
  else
    let potHigh := u64 (poolBaseline * POT_HIGH_EPOCHS)
    let potMax := u64 (poolBaseline * POT_MAX_EPOCHS)
    if pot ≤ potHigh then 0
    else if pot ≥ potMax then APY_POT_BONUS_MAX_BPS
    else
      let result := u32 ((pot - potHigh) * APY_POT_BONUS_MAX_BPS / (potMax - potHigh))
      min result APY_POT_BONUS_MAX_BPS

/-- `computeEffectiveApy`: base, activity and pot bonus, each within its maximum. -/
def computeEffectiveApy (activityBps potBonusBps : Nat) : Nat :=
  min 65535 (APY_BASE_BPS + min activityBps APY_ACTIVITY_MAX_BPS +
    min potBonusBps APY_POT_BONUS_MAX_BPS)

def computeTargetStakerPayout (totalStaked effectiveApyBps epochSeconds : Nat) : Nat :=
  if totalStaked = 0 then 0
  else if effectiveApyBps = 0 then 0
  else u64 (totalStaked * epochSeconds * effectiveApyBps / 10000 / SECONDS_PER_YEAR)

/-! ## The pot -/

structure PotAdjustment where
  distributed : Nat := 0
  addedToPot : Nat := 0
  drainedFromPot : Nat := 0
deriving DecidableEq, Repr

/-- `applyPotMechanics`; its figure of what is burned is overwritten by the caller. -/
def applyPotMechanics (stakerPool targetPayout currentPot : Nat) : PotAdjustment :=
  if stakerPool ≥ targetPayout then
    { distributed := targetPayout, addedToPot := stakerPool - targetPayout }
  else
    let shortfall := targetPayout - stakerPool
    if currentPot ≥ shortfall then { distributed := targetPayout, drainedFromPot := shortfall }
    else { distributed := u64 (stakerPool + currentPot), drainedFromPot := currentPot }

/-- A 64-bit word read as a signed number. -/
def toInt64 (value : Nat) : Int := if value < 2 ^ 63 then value else (value : Int) - 2 ^ 64

/-- The pot after an adjustment, in signed arithmetic, between zero and its maximum. -/
def adjustedPot (pot : Nat) (adjustment : PotAdjustment) (potMax : Nat) : Nat :=
  let newPot := toInt64 pot + (toInt64 adjustment.addedToPot - toInt64 adjustment.drainedFromPot)
  min newPot.toNat potMax

end Clarity.Core
