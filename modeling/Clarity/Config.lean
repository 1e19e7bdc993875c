import Mathlib.Algebra.Group.Nat.Defs

/-!
Contract: the integer types and protocol constants of `GlobalConfig.h` and
`Core/RewardTypes.h` that the modelled code reads.

Machine integers are natural numbers: `Height`, `Amount` and `Id` are `uint64_t` in the
source, `Round` is `uint32_t`, `Index` and `Bps` are `uint16_t`. The widths below are applied
where the source narrows or wraps: round arithmetic, casts to an index, the wire encoders.
-/

namespace Clarity

def u16 (value : Nat) : Nat := value % 2 ^ 16
def u32 (value : Nat) : Nat := value % 2 ^ 32
def u64 (value : Nat) : Nat := value % 2 ^ 64

theorem u32_u32 (value : Nat) : u32 (u32 value) = u32 value := Nat.mod_mod _ _

@[simp] theorem u64_u64 (value : Nat) : u64 (u64 value) = u64 value := Nat.mod_mod _ _

/-- Subtraction of two 64-bit numbers: it wraps below zero. -/
def sub64 (left right : Nat) : Nat := (left + 2 ^ 64 - right) % 2 ^ 64

def INVALID_ID : Nat := 0
def INVALID_INDEX : Nat := 0xFFFF
def NATIVE_TOKEN_ID : Nat := 0

namespace GlobalConfig

def CURRENT_BLOCK_VERSION : Nat := 1
def CURRENT_TRANSACTION_VERSION : Nat := 1
def ATOMIC_UNITS_PER_COIN : Nat := 100000
def BLOCK_REWARD : Nat := ATOMIC_UNITS_PER_COIN * 1
def STAKER_SHARE_BPS : Nat := 4000
def VALIDATOR_SHARE_BPS : Nat := 6000
def PRODUCER_BONUS_BPS : Nat := 2000
def VALIDATOR_MIN_STAKE : Nat := 10 * ATOMIC_UNITS_PER_COIN
def ACTIVE_SET_MIN : Nat := 2
def ACTIVE_SET_MAX : Nat := 100
def ACTIVE_SET_DEFAULT : Nat := 11
def INITIAL_SET_SIZE : Nat := 2
def SEED_NODES_COUNT : Nat := INITIAL_SET_SIZE
def AUTO_STAKE_THRESHOLD : Nat := 1 * ATOMIC_UNITS_PER_COIN
def APY_BASE_BPS : Nat := 300
def APY_ACTIVITY_MAX_BPS : Nat := 300
def APY_POT_BONUS_MAX_BPS : Nat := 300
def BALANCE_BONUS_BPS : Nat := 300
def BALANCE_BONUS_THRESHOLD : Nat := 1000 * ATOMIC_UNITS_PER_COIN

end GlobalConfig

namespace Core

def ROTATION_INTERVAL : Nat := 60
def TARGET_ROTATION_EPOCHS : Nat := 21
def TRAFFIC_SATURATION_TX : Nat := 1000
def NOMINAL_BLOCK_SECONDS : Nat := 10
def SECONDS_PER_EPOCH : Nat := ROTATION_INTERVAL * NOMINAL_BLOCK_SECONDS
def SECONDS_PER_YEAR : Nat := 31556952
def POT_HIGH_EPOCHS : Nat := 30 * 24 * 3600 / SECONDS_PER_EPOCH
def POT_MAX_EPOCHS : Nat := 90 * 24 * 3600 / SECONDS_PER_EPOCH
def EMERGENCY_ROTATION_ROUNDS : Nat := 30
def UPTIME_REMOVAL_THRESHOLD_BPS : Nat := 2500
def UPTIME_ACTIVE_MIN_BPS : Nat := 9000
def OFFLINE_CHECK_INTERVAL : Nat := 10
def OFFLINE_KICK_BLOCKS : Nat := 20
def REWARD_MULTIPLIER_START : Nat := 10000
def REWARD_MULTIPLIER_FLOOR : Nat := 2000
def REWARD_MULTIPLIER_PENALTY : Nat := 2000
def SLASH_AMOUNT_BPS : Nat := 500
def SEED_SLASH_EXEMPT : Bool := true
def UNBONDING_PERIOD : Nat := 2 * ROTATION_INTERVAL

/-- `bftQuorum`: two thirds of the set, rounded down, plus one. -/
def bftQuorum (size : Nat) : Nat := size * 2 / 3 + 1

/-- `applyBps`: the product is taken in 128 bits. -/
def applyBps (value : Nat) (bps : Nat) : Nat := u64 (value * bps / 10000)

end Core

end Clarity
