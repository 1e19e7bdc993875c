import Clarity.Config
import Clarity.Crypto.Types

/-!
Contract: the validator record of `Core/ValidatorTypes.h`.

Owns: `ValidatorInfo`, its health checks, its signing key, the infraction penalty, and
`SameIdentity`, two records of one validator with one key.
-/

namespace Clarity.Core

open Crypto

structure ValidatorInfo where
  id : Nat := INVALID_ID
  rewardAddress : Address := 0
  consensusKey : PublicKey := 0
  nodeKey : PublicKey := 0
  owner : Address := 0
  registeredAtHeight : Nat := 0
  stake : Nat := 0
  uptimeScore : Nat := 10000
  lastPingHeight : Nat := 0
  pingsRespondedThisEpoch : Nat := 0
  pingsSentThisEpoch : Nat := 0
  lastSeenHeight : Nat := 0
  rewardMultiplier : Nat := REWARD_MULTIPLIER_START
  infractionCount : Nat := 0
  lastInfractionHeight : Nat := 0
  totalBlocksProduced : Nat := 0
  totalRewardsEarned : Nat := 0
  epochsActive : Nat := 0
  isSeed : Bool := false
  isActive : Bool := false
  becameActiveAt : Nat := 0
  lastActiveAt : Nat := 0
  pendingUnbondHeight : Nat := 0
deriving DecidableEq, Repr, Inhabited

namespace ValidatorInfo

def isOffline (validator : ValidatorInfo) (currentHeight : Nat) : Bool :=
  if currentHeight < validator.lastSeenHeight then false
  else currentHeight - validator.lastSeenHeight ≥ OFFLINE_KICK_BLOCKS

def isHealthy (validator : ValidatorInfo) : Bool :=
  validator.uptimeScore ≥ UPTIME_REMOVAL_THRESHOLD_BPS

def meetsStakeRequirement (validator : ValidatorInfo) : Bool :=
  validator.stake ≥ GlobalConfig.VALIDATOR_MIN_STAKE

def canBeActive (validator : ValidatorInfo) : Bool :=
  validator.pendingUnbondHeight == 0 && validator.isHealthy &&
    validator.uptimeScore ≥ UPTIME_ACTIVE_MIN_BPS && validator.meetsStakeRequirement

/-- `applyInfractionPenalty`: the subtraction is in 32 bits, so a multiplier below the
penalty wraps and is then cut to 16 bits. -/
def applyInfractionPenalty (validator : ValidatorInfo) (height : Nat) : ValidatorInfo :=
  let penalized := u32 (validator.rewardMultiplier + 2 ^ 32 - REWARD_MULTIPLIER_PENALTY)
  { validator with
    infractionCount := u16 (validator.infractionCount + 1)
    rewardMultiplier :=
      u16 (if penalized < REWARD_MULTIPLIER_FLOOR then REWARD_MULTIPLIER_FLOOR else penalized)
    lastInfractionHeight := height }

/-- `effectiveConsensusKey`: the consensus key, or the reward address where none is set. -/
def effectiveConsensusKey (validator : ValidatorInfo) : PublicKey :=
  if isNull validator.consensusKey then validator.rewardAddress else validator.consensusKey

def isUnbondExpired (validator : ValidatorInfo) (currentHeight : Nat) : Bool :=
  validator.pendingUnbondHeight != 0 && currentHeight ≥ validator.pendingUnbondHeight

end ValidatorInfo

/-- The fields of a record that say which validator it is and who signs for it. -/
structure SameIdentity (old new : ValidatorInfo) : Prop where
  id : new.id = old.id
  rewardAddress : new.rewardAddress = old.rewardAddress
  consensusKey : new.consensusKey = old.consensusKey
  owner : new.owner = old.owner
  registeredAtHeight : new.registeredAtHeight = old.registeredAtHeight
  isSeed : new.isSeed = old.isSeed

theorem SameIdentity.effectiveConsensusKey {old new : ValidatorInfo} (same : SameIdentity old new) :
    new.effectiveConsensusKey = old.effectiveConsensusKey := by
  unfold ValidatorInfo.effectiveConsensusKey
  rw [same.consensusKey, same.rewardAddress]

namespace SameIdentity

theorem refl (validator : ValidatorInfo) : SameIdentity validator validator :=
  ⟨rfl, rfl, rfl, rfl, rfl, rfl⟩

theorem symm {old new : ValidatorInfo} (same : SameIdentity old new) : SameIdentity new old :=
  ⟨same.id.symm, same.rewardAddress.symm, same.consensusKey.symm, same.owner.symm,
    same.registeredAtHeight.symm, same.isSeed.symm⟩

theorem trans {first second third : ValidatorInfo} (left : SameIdentity first second)
    (right : SameIdentity second third) : SameIdentity first third :=
  ⟨right.id.trans left.id, right.rewardAddress.trans left.rewardAddress,
    right.consensusKey.trans left.consensusKey, right.owner.trans left.owner,
    right.registeredAtHeight.trans left.registeredAtHeight, right.isSeed.trans left.isSeed⟩

end SameIdentity

/-- What a record says about the presence of its validator. -/
def ValidatorInfo.attendance (v : ValidatorInfo) : Nat × Nat × Nat :=
  (v.id, v.lastSeenHeight, v.pendingUnbondHeight)

def ValidatorInfo.seat (v : ValidatorInfo) : Bool × Nat := (v.isActive, v.pendingUnbondHeight)

/-- What a change leaves as it was, besides who the validator is. -/
structure Kept where
  attendance : Bool
  seat : Bool

/-- Two records of one validator, which say the same about what is kept. -/
structure Alike (kept : Kept) (old new : ValidatorInfo) : Prop extends SameIdentity old new where
  attendance : kept.attendance = true → new.attendance = old.attendance
  seat : kept.seat = true → new.seat = old.seat

namespace Alike

variable {kept : Kept} {first second third : ValidatorInfo}

theorem refl (validator : ValidatorInfo) : Alike kept validator validator :=
  ⟨.refl validator, fun _ => rfl, fun _ => rfl⟩

theorem symm (same : Alike kept first second) : Alike kept second first :=
  ⟨same.toSameIdentity.symm, fun isKept => (same.attendance isKept).symm,
    fun isKept => (same.seat isKept).symm⟩

theorem trans (left : Alike kept first second) (right : Alike kept second third) :
    Alike kept first third :=
  ⟨left.toSameIdentity.trans right.toSameIdentity,
    fun isKept => (right.attendance isKept).trans (left.attendance isKept),
    fun isKept => (right.seat isKept).trans (left.seat isKept)⟩

end Alike

structure ValidatorRegistry where
  validators : List ValidatorInfo := []
  activeSet : List Nat := []
  nextId : Nat := 1
  lastRotationHeight : Nat := 0
  targetSize : Nat := GlobalConfig.ACTIVE_SET_DEFAULT
deriving DecidableEq, Repr, Inhabited

def ValidatorRegistry.find (registry : ValidatorRegistry) (id : Nat) : Option ValidatorInfo :=
  if id = INVALID_ID then none else registry.validators.find? fun validator => validator.id == id

end Clarity.Core
