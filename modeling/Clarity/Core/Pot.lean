import Clarity.Core.Chain
import Clarity.Library.Totals

/-!
Contract: the money of an epoch boundary.

Owns: what the boundary adds to the pending rewards of the stakers, as a function of the state
before it; what it leaves in the pot and what it burns; and the exact condition under which
these together are at most what the pot held.

The pool of an epoch is distributed beside what the pot gives up, although the pot holds it already.
So the stakers are paid this much beyond the pot, less what the roundings of their shares take.
-/

namespace Clarity.Core

open Common Crypto Library State State.StateAccess
open Clarity.Core.BlockProcessor

variable {distributed weight : Nat} {state : StateAccess}

/-! ## The payment of the stakers -/

def stakerShare (height distributed totalTimeWeight : Nat) (account : Account) : Nat :=
  u64 (distributed * timeWeight account height % 2 ^ 128 / totalTimeWeight)

/-- What a distribution adds to the pending rewards of an account, a word of 64 bits. -/
def stakerGain (height distributed totalTimeWeight : Nat) (account : Account) : Int :=
  if blocksStakedIn account (epochStartHeight height) height ROTATION_INTERVAL = 0 then 0
  else
    (u64 (account.pendingRewards + stakerShare height distributed totalTimeWeight account) : Int) -
      account.pendingRewards

def totalTimeWeight (state : StateAccess) (height : Nat) : Nat :=
  (state.stakers.map fun address => timeWeight (state.getAccount address) height).sum

def epochPaid (state : StateAccess) (height : Nat) : Int :=
  let distributed := (epochAdjustment state).distributed
  if distributed = 0 ∨ state.getGlobalU64 .totalStaked = 0 ∨ state.getGlobalU64 .stakerCount = 0 ∨
      totalTimeWeight state height = 0 then 0
  else (state.stakers.map fun address =>
    stakerGain height distributed (totalTimeWeight state height) (state.getAccount address)).sum

def pendingIncrease (before after : StateAccess) : Int :=
  (before.stakers.map fun address => ((after.getAccount address).pendingRewards : Int) -
    (before.getAccount address).pendingRewards).sum

theorem payStaker_other {height : Nat} {address other : Address} (different : other ≠ address) :
    (payStaker height distributed weight state address).getAccount other =
      state.getAccount other := by
  unfold payStaker
  dsimp only
  split
  · rfl
  · rw [getAccount_putAccount, if_neg different]

theorem foldl_payStaker_other {height : Nat}
    {addresses : List Address} {other : Address} (absent : other ∉ addresses) :
    (addresses.foldl (payStaker height distributed weight) state).getAccount other =
      state.getAccount other := by
  induction addresses generalizing state with
  | nil => rfl
  | cons address rest ih =>
    rw [List.mem_cons, not_or] at absent
    rw [List.foldl_cons, ih absent.2, payStaker_other absent.1]

/-- Every staker is paid once, by what its account was before. -/
theorem foldl_payStaker_pending {height : Nat}
    {addresses : List Address} (distinct : addresses.Nodup) (address : Address) :
    (((addresses.foldl (payStaker height distributed weight) state).getAccount
        address).pendingRewards : Int) =
      (state.getAccount address).pendingRewards + if address ∈ addresses then
        stakerGain height distributed weight (state.getAccount address) else 0 := by
  induction addresses generalizing state with
  | nil => simp
  | cons first rest ih =>
    rw [List.nodup_cons] at distinct
    rw [List.foldl_cons]
    by_cases isFirst : address = first
    · subst isFirst
      rw [foldl_payStaker_other distinct.1, if_pos List.mem_cons_self]
      unfold payStaker stakerGain
      dsimp only
      split
      · simp
      · rw [getAccount_putAccount, if_pos rfl]
        unfold stakerShare stakedCopy Account.recalculateStaked
        dsimp only
        omega
    · rw [ih distinct.2, payStaker_other isFirst]
      simp only [List.mem_cons, isFirst, false_or]

theorem stakers_nodup (state : StateAccess) : state.stakers.Nodup :=
  (List.perm_insertionSort _ _).nodup_iff.mpr state.index.stakers.distinct

/-! ## The boundary -/

/-- Neither the accounts nor the index of the stakers changed. -/
def SameStakers (before after : StateAccess) : Prop :=
  after.tree.accounts = before.tree.accounts ∧ after.index.stakers = before.index.stakers

theorem accrued_sameStakers (state : StateAccess) :
    SameStakers state ((settlePot state).nftCollections.foldl accrueCollection (settlePot state)) := by
  refine foldl_keeps _ ?_ ⟨rfl, rfl⟩
  intro collection _ middle same
  unfold accrueCollection
  split
  · exact same
  · exact same

theorem SameStakers.stakers {before after : StateAccess} (same : SameStakers before after) :
    after.stakers = before.stakers := by
  unfold StateAccess.stakers
  rw [same.2]

theorem SameStakers.getAccount {before after : StateAccess} (same : SameStakers before after)
    (address : Address) : after.getAccount address = before.getAccount address := by
  unfold StateAccess.getAccount
  rw [same.1]

theorem SameStakers.totalTimeWeight {before after : StateAccess} (same : SameStakers before after)
    (height : Nat) : totalTimeWeight after height = totalTimeWeight before height := by
  unfold Core.totalTimeWeight
  rw [same.stakers]
  simp only [same.getAccount]

/-- The boundary pays nobody. -/
def PaysNobody (state : StateAccess) (height : Nat) : Prop :=
  (epochAdjustment state).distributed = 0 ∨ state.getGlobalU64 .totalStaked = 0 ∨
    state.getGlobalU64 .stakerCount = 0 ∨ totalTimeWeight state height = 0

instance (state : StateAccess) (height : Nat) : Decidable (PaysNobody state height) :=
  inferInstanceAs (Decidable (_ ∨ _))

theorem pending_processEpochBoundary (state : StateAccess) (height : Nat) (address : Address) :
    (((processEpochBoundary state height).getAccount address).pendingRewards : Int) =
      (state.getAccount address).pendingRewards +
        if ¬PaysNobody state height ∧ address ∈ state.stakers then
          stakerGain height (epochAdjustment state).distributed (totalTimeWeight state height)
            (state.getAccount address)
        else 0 := by
  have same := accrued_sameStakers state
  have weights : (((settlePot state).nftCollections.foldl accrueCollection
      (settlePot state)).stakers.map fun address => timeWeight (((settlePot
        state).nftCollections.foldl accrueCollection (settlePot state)).getAccount address)
          height).sum = totalTimeWeight state height := same.totalTimeWeight height
  unfold processEpochBoundary PaysNobody
  dsimp only
  by_cases skipped : (epochAdjustment state).distributed = 0 ∨
      state.getGlobalU64 .totalStaked = 0 ∨ state.getGlobalU64 .stakerCount = 0
  · rw [if_pos skipped, same.getAccount, if_neg fun pays =>
      pays.1 (skipped.imp_right fun rest => rest.imp_right Or.inl), add_zero]
  · rw [if_neg skipped]
    unfold payStakers
    dsimp only
    rw [weights]
    by_cases weightless : totalTimeWeight state height = 0
    · rw [if_pos weightless, same.getAccount, if_neg fun pays =>
        pays.1 (.inr (.inr (.inr weightless))), add_zero]
    · have paying : ¬((epochAdjustment state).distributed = 0 ∨ state.getGlobalU64 .totalStaked = 0 ∨
          state.getGlobalU64 .stakerCount = 0 ∨ totalTimeWeight state height = 0) := by
        tauto
      rw [if_neg weightless, same.stakers, foldl_payStaker_pending (stakers_nodup state),
        same.getAccount]
      simp only [paying, not_false_eq_true, true_and]

theorem pendingIncrease_processEpochBoundary (state : StateAccess) (height : Nat) :
    pendingIncrease state (processEpochBoundary state height) = epochPaid state height := by
  have each : ∀ address ∈ state.stakers,
      (((processEpochBoundary state height).getAccount address).pendingRewards : Int) -
          (state.getAccount address).pendingRewards =
        if PaysNobody state height then 0
        else stakerGain height (epochAdjustment state).distributed (totalTimeWeight state height)
          (state.getAccount address) := by
    intro address member
    rw [pending_processEpochBoundary]
    by_cases nobody : PaysNobody state height
    · rw [if_neg fun pays => pays.1 nobody, if_pos nobody]
      omega
    · rw [if_pos ⟨nobody, member⟩, if_neg nobody]
      omega
  unfold pendingIncrease epochPaid
  rw [List.map_congr_left each]
  by_cases nobody : PaysNobody state height
  · refine Eq.trans ?_ (if_pos nobody).symm
    simp [nobody]
  · refine Eq.trans ?_ (if_neg nobody).symm
    simp only [nobody, if_false]

/-! ## The pot -/

theorem getGlobal_putAccount {name : GlobalName} (notTotal : name ≠ .totalStaked)
    (notCount : name ≠ .stakerCount) (state : StateAccess) (address : Address) (account : Account) :
    (state.putAccount address account).getGlobal name = state.getGlobal name := by
  have total : ∀ (middle : StateAccess) old new,
      (middle.adjustTotalStaked old new).getGlobal name = middle.getGlobal name := by
    intro middle old new
    unfold adjustTotalStaked
    dsimp only
    split
    · rfl
    · split <;> rw [getGlobal_putGlobal, if_neg notTotal]
  have count : ∀ (middle : StateAccess) old new,
      (middle.adjustStakers address old new).getGlobal name = middle.getGlobal name := by
    intro middle old new
    unfold adjustStakers
    split
    · rw [getGlobal_putGlobal, if_neg notCount]
      rfl
    · split
      · rw [getGlobal_putGlobal, if_neg notCount]
        rfl
      · rfl
  unfold putAccount
  dsimp only
  rw [count, total]
  rfl

theorem foldl_payStaker_pot (height distributed weight : Nat) (state : StateAccess)
    (addresses : List Address) :
    (addresses.foldl (payStaker height distributed weight) state).getGlobal .pot =
      state.getGlobal .pot := by
  refine @foldl_keeps StateAccess Address (fun middle => middle.getGlobal .pot = state.getGlobal .pot)
    _ addresses ?_ state rfl
  intro address _ middle kept
  unfold payStaker
  dsimp only
  split
  · exact kept
  · rw [getGlobal_putAccount (by decide) (by decide)]
    exact kept

/-- The pot before it is cut to its maximum. -/
def uncappedPot (state : StateAccess) : Nat :=
  (toInt64 (state.getGlobalU64 .pot) + (toInt64 (epochAdjustment state).addedToPot -
    toInt64 (epochAdjustment state).drainedFromPot)).toNat

/-- What the boundary burns: the part of the pot above its maximum. -/
def epochBurned (state : StateAccess) : Nat := uncappedPot state - u64 (EPOCH_POOL * POT_MAX_EPOCHS)

theorem pot_processEpochBoundary (state : StateAccess) (height : Nat) :
    (processEpochBoundary state height).getGlobalU64 .pot =
      min (uncappedPot state) (u64 (EPOCH_POOL * POT_MAX_EPOCHS)) := by
  have settled : (settlePot state).getGlobal .pot =
      some (min (uncappedPot state) (u64 (EPOCH_POOL * POT_MAX_EPOCHS))) := by
    have small : adjustedPot (state.getGlobalU64 .pot) (epochAdjustment state)
        (u64 (EPOCH_POOL * POT_MAX_EPOCHS)) < 2 ^ 64 :=
      Nat.lt_of_le_of_lt (Nat.min_le_right _ _) (Nat.mod_lt _ (by decide))
    have written : (settlePot state).getGlobal .pot = some (u64 (adjustedPot
        (state.getGlobalU64 .pot) (epochAdjustment state) (u64 (EPOCH_POOL * POT_MAX_EPOCHS)))) :=
      (getGlobal_putGlobal _ .pot .pot _).trans (if_pos rfl)
    rw [written, u64, Nat.mod_eq_of_lt small]
    rfl
  have accrued : ((settlePot state).nftCollections.foldl accrueCollection (settlePot state)).getGlobal
      .pot = (settlePot state).getGlobal .pot := by
    refine @foldl_keeps StateAccess NftCollection
      (fun middle => middle.getGlobal .pot = (settlePot state).getGlobal .pot) _ _ ?_ _ rfl
    intro collection _ middle kept
    unfold accrueCollection
    split
    · exact kept
    · exact kept
  unfold processEpochBoundary payStakers getGlobalU64
  dsimp only
  split
  · rw [accrued, settled]
    rfl
  · split
    · rw [accrued, settled]
      rfl
    · rw [foldl_payStaker_pot, accrued, settled]
      rfl

/-- The boundary creates no coins: what the stakers are paid, what stays in the pot and what is
burned were in the pot. -/
def CreatesNoCoins (state : StateAccess) (height : Nat) : Prop :=
  pendingIncrease state (processEpochBoundary state height) +
    (processEpochBoundary state height).getGlobalU64 .pot + epochBurned state ≤
      (state.getGlobalU64 .pot : Int)

instance (state : StateAccess) (height : Nat) : Decidable (CreatesNoCoins state height) :=
  inferInstanceAs (Decidable (_ ≤ _))

theorem stakerGain_le (height distributed weight : Nat) (account : Account) :
    stakerGain height distributed weight account ≤
      (distributed * timeWeight account height / weight : Nat) := by
  have share : stakerShare height distributed weight account ≤
      distributed * timeWeight account height / weight :=
    (Nat.mod_le _ _).trans (Nat.div_le_div_right (Nat.mod_le _ _))
  have word : u64 (account.pendingRewards + stakerShare height distributed weight account) ≤
      account.pendingRewards + stakerShare height distributed weight account := Nat.mod_le _ _
  unfold stakerGain
  split
  · exact Int.natCast_nonneg _
  · omega

/-- The stakers are paid no more than what is distributed. -/
theorem epochPaid_le (state : StateAccess) (height : Nat) :
    epochPaid state height ≤ (epochAdjustment state).distributed := by
  unfold epochPaid
  dsimp only
  split
  · exact Int.natCast_nonneg _
  · have gains := sum_le_sum_cast state.stakers fun address _ =>
      stakerGain_le height (epochAdjustment state).distributed (totalTimeWeight state height)
        (state.getAccount address)
    have shares := sum_shares_le (epochAdjustment state).distributed (totalTimeWeight state height)
      (state.stakers.map fun address => timeWeight (state.getAccount address) height) (Nat.le_refl _)
    rw [List.map_map] at shares
    exact gains.trans (Int.ofNat_le.mpr shares)

/-! ### What is distributed -/

theorem target_lt {staked apy : Nat} (word : staked < 2 ^ 64) (rate : apy ≤ 65535) :
    computeTargetStakerPayout staked apy SECONDS_PER_EPOCH < 2 ^ 57 := by
  have largest : 2 ^ 64 * SECONDS_PER_EPOCH * 65535 / 10000 / SECONDS_PER_YEAR < 2 ^ 57 := by decide
  unfold computeTargetStakerPayout
  split
  · exact Nat.two_pow_pos 57
  · split
    · exact Nat.two_pow_pos 57
    · have product := Nat.mul_le_mul (Nat.mul_le_mul_right SECONDS_PER_EPOCH word.le) rate
      exact ((Nat.mod_le _ _).trans (Nat.div_le_div_right (Nat.div_le_div_right product))).trans_lt
        largest

theorem distributed_le (pool target pot : Nat) :
    (applyPotMechanics pool target pot).distributed ≤ target := by
  have cut : u64 (pool + pot) ≤ pool + pot := Nat.mod_le _ _
  unfold applyPotMechanics
  split
  · exact le_rfl
  · dsimp only
    split
    · exact le_rfl
    · dsimp only
      omega

theorem epochApy_le (state : StateAccess) : epochApy state ≤ 65535 := by
  unfold epochApy computeEffectiveApy
  exact Nat.min_le_left _ _

theorem distributed_lt {state : StateAccess} (word : state.getGlobalU64 .totalStaked < 2 ^ 64) :
    (epochAdjustment state).distributed < 2 ^ 57 := by
  exact (distributed_le _ _ _).trans_lt (target_lt word (epochApy_le state))

theorem blocksStakedIn_le (account : Account) (first last blocks : Nat) :
    blocksStakedIn account first last blocks ≤ blocks := by
  unfold blocksStakedIn
  split
  · exact Nat.zero_le _
  · split
    · exact Nat.zero_le _
    · dsimp only
      split
      · exact Nat.zero_le _
      · exact Nat.min_le_right _ _

theorem timeWeight_lt (account : Account) (height : Nat) : timeWeight account height < 2 ^ 70 := by
  have blocks := blocksStakedIn_le account (epochStartHeight height) height ROTATION_INTERVAL
  have weight : (if account.staked ≥ GlobalConfig.BALANCE_BONUS_THRESHOLD then
      u64 (account.staked * (10000 + GlobalConfig.BALANCE_BONUS_BPS) / 10000)
    else account.staked) ≤ 2 ^ 64 := by
    split
    · exact (Nat.mod_lt _ (by decide)).le
    next small => exact (Nat.lt_of_not_le small).le.trans (by decide)
  unfold timeWeight
  dsimp only
  exact lt_of_le_of_lt (Nat.mul_le_mul weight blocks) (by decide)

/-- What an epoch aims to pay to the stakers. -/
def epochTarget (state : StateAccess) : Nat :=
  computeTargetStakerPayout (state.getGlobalU64 .totalStaked) (epochApy state) SECONDS_PER_EPOCH

/-- What it can pay: the pool of an epoch and the pot. -/
def epochDistributed (state : StateAccess) : Nat :=
  min (epochTarget state) (EPOCH_POOL + state.getGlobalU64 .pot)

theorem epochAdjustment_eq (word : state.getGlobalU64 .totalStaked < 2 ^ 64) :
    epochAdjustment state =
      { distributed := epochDistributed state
        addedToPot := EPOCH_POOL - epochTarget state
        drainedFromPot := min (epochTarget state - EPOCH_POOL) (state.getGlobalU64 .pot) } := by
  have low : epochTarget state < 2 ^ 57 := target_lt word (epochApy_le state)
  unfold epochAdjustment applyPotMechanics epochDistributed u64
  rw [← epochTarget]
  generalize EPOCH_POOL = pool
  generalize epochTarget state = target at *
  dsimp only
  split
  next enough =>
    have noShortfall : target - pool = 0 := by omega
    rw [Nat.min_eq_left (by omega), noShortfall, Nat.zero_min]
  next short =>
    have noRest : pool - target = 0 := by omega
    rw [noRest]
    split
    next covered => rw [Nat.min_eq_left (by omega), Nat.min_eq_left covered]
    next => rw [Nat.mod_eq_of_lt (by omega), Nat.min_eq_right (by omega), Nat.min_eq_right (by omega)]

/-- The 128 bits of the product and the 64 bits of a share suffice. -/
theorem stakerShare_eq {address : Address} {height : Nat} (word : state.getGlobalU64 .totalStaked < 2 ^ 64)
    (member : address ∈ state.stakers) :
    stakerShare height (epochAdjustment state).distributed (totalTimeWeight state height)
        (state.getAccount address) =
      (epochAdjustment state).distributed * timeWeight (state.getAccount address) height /
        totalTimeWeight state height := by
  have distributed := distributed_lt word
  have product : (epochAdjustment state).distributed *
      timeWeight (state.getAccount address) height < 2 ^ 128 :=
    lt_of_lt_of_le (Nat.mul_lt_mul'' distributed (timeWeight_lt _ height)) (by decide)
  have part : timeWeight (state.getAccount address) height ≤ totalTimeWeight state height :=
    List.single_le_sum (fun _ _ => Nat.zero_le _) _ (List.mem_map_of_mem member)
  have share : (epochAdjustment state).distributed *
      timeWeight (state.getAccount address) height / totalTimeWeight state height ≤
        (epochAdjustment state).distributed :=
    Nat.div_le_of_le_mul (by
      rw [Nat.mul_comm (totalTimeWeight state height)]
      exact Nat.mul_le_mul_left _ part)
  unfold stakerShare u64
  rw [Nat.mod_eq_of_lt product]
  exact Nat.mod_eq_of_lt (by omega)

/-! ### What is lost -/

/-- No account has a weight in the epoch. -/
def NobodyStakes (state : StateAccess) (height : Nat) : Prop :=
  state.getGlobalU64 .totalStaked = 0 ∨ state.getGlobalU64 .stakerCount = 0 ∨
    totalTimeWeight state height = 0

/-- What the shares of the stakers lose when they are rounded down, times the total weight. -/
def sharesLost (state : StateAccess) (height : Nat) : Nat :=
  (state.stakers.map fun address => epochDistributed state *
    timeWeight (state.getAccount address) height % totalTimeWeight state height).sum

/-- The pending rewards of the stakers fit their words with their shares. -/
def SharesFit (state : StateAccess) (height : Nat) : Prop :=
  ∀ address ∈ state.stakers, (state.getAccount address).pendingRewards + epochDistributed state *
    timeWeight (state.getAccount address) height / totalTimeWeight state height < 2 ^ 64

instance (state : StateAccess) (height : Nat) : Decidable (SharesFit state height) :=
  decidable_of_iff (state.stakers.all fun address => decide ((state.getAccount
    address).pendingRewards + epochDistributed state * timeWeight (state.getAccount address) height /
      totalTimeWeight state height < 2 ^ 64)) (by simp only [List.all_eq_true, decide_eq_true_eq,
        SharesFit])

/-- The pot is so large that the signed arithmetic of the boundary drops it; or nothing of the pool
of the epoch is left over for the pot, and what is distributed beyond the pot, which is the pool,
goes to nobody: there are no stakers, or the roundings of their shares take it. -/
def PotCovers (state : StateAccess) (height : Nat) : Prop :=
  2 ^ 63 ≤ state.getGlobalU64 .pot ∨ EPOCH_POOL ≤ epochTarget state ∧ (NobodyStakes state height ∨
    EPOCH_POOL * totalTimeWeight state height ≤ sharesLost state height)

/-- The stakers are paid all that is distributed but the roundings. -/
theorem epochPaid_add_lost {height : Nat} (word : state.getGlobalU64 .totalStaked < 2 ^ 64)
    (fits : SharesFit state height) (stakes : ¬NobodyStakes state height) :
    ∃ paid : Nat, epochPaid state height = paid ∧
      paid * totalTimeWeight state height + sharesLost state height =
        epochDistributed state * totalTimeWeight state height := by
  have isDistributed : (epochAdjustment state).distributed = epochDistributed state := by
    rw [epochAdjustment_eq word]
  have gains : ∀ address ∈ state.stakers,
      stakerGain height (epochDistributed state) (totalTimeWeight state height)
          (state.getAccount address) =
        (epochDistributed state * timeWeight (state.getAccount address) height /
          totalTimeWeight state height : Nat) := by
    intro address member
    have share := @stakerShare_eq state address height word member
    have small := fits address member
    rw [isDistributed] at share
    unfold stakerGain
    split
    next idle =>
      have weightless : timeWeight (state.getAccount address) height = 0 := by
        unfold timeWeight
        rw [idle, Nat.mul_zero]
      rw [weightless, Nat.mul_zero, Nat.zero_div]
      rfl
    · rw [share, u64, Nat.mod_eq_of_lt small]
      omega
  have parts := sum_shares_add_rests (epochDistributed state) (totalTimeWeight state height)
    (state.stakers.map fun address => timeWeight (state.getAccount address) height)
  rw [List.map_map, List.map_map] at parts
  refine ⟨_, ?_, parts⟩
  unfold epochPaid
  dsimp only
  rw [isDistributed, List.map_congr_left gains, sum_map_cast]
  split
  next nobody =>
    rw [nobody.resolve_right stakes]
    simp [Function.comp_def]
  · rfl

/-! ### The condition -/

theorem toInt64_of_lt {value : Nat} (small : value < 2 ^ 63) : toInt64 value = value := if_pos small

/-- The arithmetic of a pot that is read as a negative number: less than a pool is left of it. -/
theorem droppedPot_le {pot target pool : Nat} {paid : Int} (large : 2 ^ 63 ≤ pot) (word : pot < 2 ^ 64)
    (low : target < 2 ^ 57) (small : pool < 2 ^ 57) (bound : paid ≤ target) :
    paid + ((pot : Int) - 2 ^ 64 + ((pool - target : Nat) - (min (target - pool) pot : Nat))).toNat ≤
      (pot : Int) := by
  omega

/-- The arithmetic of another pot. -/
theorem settledPot_le_iff {pot target pool paid : Nat} :
    (paid : Int) + ((pot : Int) + ((pool - target : Nat) - (min (target - pool) pot : Nat))).toNat ≤
        (pot : Int) ↔ pool ≤ target ∧ paid + pool ≤ min target (pool + pot) := by
  omega

namespace Regtest

/-- Fifty-nine empty blocks: the last one ends the first epoch. -/
def firstEpoch : List (List Transaction) := List.replicate 59 []

def createsCoinsAt (last : Nat) : Event → Bool
  | .pass height .epochBoundary before after =>
    height == last && after == processEpochBoundary before last &&
      !decide (CreatesNoCoins before last)
  | _ => false

/-- A staker since the first block, and a pot that the signed arithmetic drops. -/
def rich : StateAccess :=
  (({ version := 1 } : StateAccess).putAccount 20 { balance := 10 ^ 15 }).putGlobal .pot (2 ^ 63)

end Regtest

end Clarity.Core
