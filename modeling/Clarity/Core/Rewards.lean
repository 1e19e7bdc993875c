import Clarity.Core.Attendance
import Clarity.Core.Pot

/-!
Contract: how exactly a block and an epoch pay their rewards.

Owns: the native balances with the pot, and when a block adds `BLOCK_REWARD` to them, no more and
no less, also by the records before it; the credits of an epoch in exact integers, and when the
words of the code agree with them.
-/

namespace Clarity.Core

open Common Crypto Library State State.StateAccess
open Clarity.Core.BlockProcessor GlobalConfig

/-! ## Block rewards -/

/-- What a 64-bit sum loses. -/
def carry (balance amount : Nat) : Int := (balance : Int) + amount - u64 (balance + amount)

/-- The native balances of all accounts. -/
def nativeBalances (state : StateAccess) : Nat :=
  state.tree.accounts.total fun _ account => account.balance

/-- A block adds its reward to the balances and the pot together. -/
def DistributesExactly (state : StateAccess) (header : BlockHeader) : Prop :=
  nativeBalances (distributeRewards state header) +
      (distributeRewards state header).getGlobalU64 .pot =
    nativeBalances state + state.getGlobalU64 .pot + BLOCK_REWARD

instance (state : StateAccess) (header : BlockHeader) : Decidable (DistributesExactly state header) :=
  inferInstanceAs (Decidable (_ = _))

/-- Every stored multiplier lies between the floor and the whole. -/
def MultipliersInRange (state : StateAccess) : Prop :=
  ∀ entry ∈ state.tree.validators.entries,
    REWARD_MULTIPLIER_FLOOR ≤ entry.2.rewardMultiplier ∧ entry.2.rewardMultiplier ≤ 10000

instance (state : StateAccess) : Decidable (MultipliersInRange state) :=
  inferInstanceAs (Decidable (∀ entry ∈ state.tree.validators.entries, _))

/-- What the balance of a reward address loses when a reward is added to it in 64 bits. -/
def rewardLoss (paid : StateAccess × Nat) (reward : SetReward) : Int :=
  match paid.1.getValidator reward.validatorId with
  | none => 0
  | some v =>
    let adjusted := reward.amount * v.rewardMultiplier / 10000
    if adjusted > 0 then carry (paid.1.getAccount v.rewardAddress).balance adjusted else 0

/-- No balance a reward is credited to wraps, and neither does the pot. -/
def RewardsFit (state : StateAccess) (header : BlockHeader) : Prop :=
  let due := rewardsDue state header state.loadActiveSet
  lossAlong payReward rewardLoss (state, 0) due.1 = 0 ∧
    state.getGlobalU64 .pot + (due.1.foldl payReward (state, 0)).2 + due.2 +
      applyBps BLOCK_REWARD STAKER_SHARE_BPS < 2 ^ 64

instance (state : StateAccess) (header : BlockHeader) : Decidable (RewardsFit state header) :=
  inferInstanceAs (Decidable (_ ∧ _))

theorem nativeBalances_putAccount (state : StateAccess) (address : Address) (account : Account) :
    nativeBalances (state.putAccount address account) + (state.getAccount address).balance =
      nativeBalances state + account.balance := by
  have written := state.tree.accounts.total_put (fun _ account => account.balance) address
    (state.stakedCopy (state.getAccount address) account)
  have stored : state.tree.accounts.weightAt (fun _ account => account.balance) address =
      (state.getAccount address).balance := by
    unfold Table.weightAt getAccount
    cases state.tree.accounts.find? address <;> rfl
  rw [stored] at written
  unfold nativeBalances
  rw [putAccount_accounts]
  exact written

theorem carry_nonneg (balance amount : Nat) : 0 ≤ carry balance amount := by
  have word : u64 (balance + amount) ≤ balance + amount := Nat.mod_le _ _
  unfold carry
  omega

theorem rewardLoss_nonneg (paid : StateAccess × Nat) (reward : SetReward) :
    0 ≤ rewardLoss paid reward := by
  unfold rewardLoss
  split
  · exact le_rfl
  · dsimp only
    split
    · exact carry_nonneg _ _
    · exact le_rfl

/-- A credit changes one balance alone, by what 64 bits hold of it. -/
theorem credit_total (state : StateAccess) (address : Address) (credit : Nat) :
    let account := state.getAccount address
    let credited := if credit > 0 then
      state.putAccount address { account with balance := u64 (account.balance + credit) } else state
    credited.tree.validators = state.tree.validators ∧
      credited.getGlobal .pot = state.getGlobal .pot ∧
      (nativeBalances credited : Int) = nativeBalances state + credit -
        if credit > 0 then carry account.balance credit else 0 := by
  dsimp only
  split
  · refine ⟨congrArg Registry.validators (registry_putAccount state address _),
      getGlobal_putAccount (by decide) (by decide) state address _, ?_⟩
    have written := nativeBalances_putAccount state address
      { state.getAccount address with balance := u64 ((state.getAccount address).balance + credit) }
    unfold carry
    dsimp only at written
    omega
  next nothing =>
    refine ⟨rfl, rfl, ?_⟩
    omega

theorem whole_reward {amount left : Nat} (small : left + amount ≤ BLOCK_REWARD) :
    u64 (left + amount) = left + amount :=
  Nat.mod_eq_of_lt (small.trans_lt (by decide))

/-- The words of a reward hold its parts. -/
theorem reward_words {amount multiplier left : Nat} (whole : multiplier ≤ 10000)
    (small : left + amount ≤ BLOCK_REWARD) :
    u64 (amount * multiplier) = amount * multiplier ∧ amount * multiplier / 10000 ≤ amount ∧
      ∀ credit ≤ amount, u64 (left + sub64 amount credit) = left + (amount - credit) := by
  have reward_lt : BLOCK_REWARD < 2 ^ 40 := by decide
  have share : amount * multiplier ≤ amount * 10000 := Nat.mul_le_mul_left _ whole
  refine ⟨Nat.mod_eq_of_lt (by omega), by omega, fun credit part => ?_⟩
  unfold u64 sub64
  omega

/-- What is not credited is redistributed. -/
theorem payReward_total {paid : StateAccess × Nat} {reward : SetReward}
    (range : MultipliersInRange paid.1)
    (small : paid.2 + reward.amount ≤ BLOCK_REWARD) :
    MultipliersInRange (payReward paid reward).1 ∧
      (payReward paid reward).1.getGlobal .pot = paid.1.getGlobal .pot ∧
      (payReward paid reward).2 ≤ paid.2 + reward.amount ∧
      ((nativeBalances (payReward paid reward).1 + (payReward paid reward).2 : Nat) : Int) =
        nativeBalances paid.1 + paid.2 + reward.amount - rewardLoss paid reward := by
  unfold payReward rewardLoss
  cases found : paid.1.getValidator reward.validatorId with
  | none =>
    have kept := whole_reward small
    refine ⟨range, rfl, kept.le, ?_⟩
    dsimp only
    omega
  | some v =>
    have bounds := range _ (Table.find?_eq_some_iff.mp found)
    obtain ⟨adjusted, part, rest⟩ := reward_words bounds.2 small
    dsimp only
    rw [adjusted, rest _ part]
    obtain ⟨validators, pot, total⟩ := credit_total paid.1 v.rewardAddress
      (reward.amount * v.rewardMultiplier / 10000)
    generalize reward.amount * v.rewardMultiplier / 10000 = credit at *
    refine ⟨?_, pot, by omega, ?_⟩
    · intro entry member
      rcases Table.mem_put member with ⟨old, _⟩ | isNew
      · exact range entry (validators ▸ old)
      · rw [isNew]
        exact bounds
    · have kept : ∀ (state : StateAccess) (record : ValidatorInfo),
          nativeBalances (state.putValidator record) = nativeBalances state := fun _ _ => rfl
      rw [kept]
      omega

theorem foldl_payReward_total {rewards : List SetReward} {paid : StateAccess × Nat}
    (range : MultipliersInRange paid.1)
    (small : paid.2 + (rewards.map SetReward.amount).sum ≤ BLOCK_REWARD) :
    (rewards.foldl payReward paid).1.getGlobal .pot = paid.1.getGlobal .pot ∧
      (rewards.foldl payReward paid).2 ≤ paid.2 + (rewards.map SetReward.amount).sum ∧
      ((nativeBalances (rewards.foldl payReward paid).1 +
          (rewards.foldl payReward paid).2 : Nat) : Int) =
        nativeBalances paid.1 + paid.2 + (rewards.map SetReward.amount).sum -
          lossAlong payReward rewardLoss paid rewards := by
  induction rewards generalizing paid with
  | nil => simp [lossAlong]
  | cons reward rest ih =>
    rw [List.map_cons, List.sum_cons] at small ⊢
    obtain ⟨nextRange, pot, bound, total⟩ := payReward_total range
      (show paid.2 + reward.amount ≤ BLOCK_REWARD by omega)
    obtain ⟨laterPot, laterBound, laterTotal⟩ := ih nextRange (by omega)
    rw [List.foldl_cons]
    refine ⟨laterPot.trans pot, by omega, ?_⟩
    unfold lossAlong
    omega

theorem sum_splitEvenly_from (ids : List Nat) (share extra first : Nat) :
    ((ids.zipIdx first).map fun entry => share + if entry.2 < extra then 1 else 0).sum =
      ids.length * share + (min extra (first + ids.length) - min extra first) := by
  induction ids generalizing first with
  | nil => simp
  | cons id rest ih =>
    rw [List.zipIdx_cons, List.map_cons, List.sum_cons, ih, List.length_cons, Nat.succ_mul]
    dsimp only
    split <;> omega

/-- The parts of an amount that is split add up to it. -/
theorem sum_splitEvenly {ids : List Nat} (amount : Nat) (some : ids ≠ []) :
    ((splitEvenly amount ids.length ids).map SetReward.amount).sum = amount := by
  have positive : 0 < ids.length := List.length_pos_iff.mpr some
  have parts := sum_splitEvenly_from ids (amount / ids.length) (amount % ids.length) 0
  have whole := Nat.div_add_mod amount ids.length
  have extra := Nat.mod_lt amount positive
  unfold splitEvenly
  rw [List.map_map]
  refine Eq.trans ?_ (parts.trans ?_)
  · rfl
  · omega

/-- The rewards of a block and what goes to the pot unpaid are the share of the validators. -/
theorem rewardsDue_sum (state : StateAccess) (header : BlockHeader) {activeSet : List Nat}
    (some : activeSet ≠ []) :
    ((rewardsDue state header activeSet).1.map SetReward.amount).sum +
        (rewardsDue state header activeSet).2 +
        applyBps BLOCK_REWARD STAKER_SHARE_BPS =
      BLOCK_REWARD := by
  have notEmpty : activeSet.isEmpty = false := by simpa using some
  have parts : applyBps (applyBps BLOCK_REWARD VALIDATOR_SHARE_BPS)
        PRODUCER_BONUS_BPS +
      (applyBps BLOCK_REWARD VALIDATOR_SHARE_BPS -
        applyBps (applyBps BLOCK_REWARD VALIDATOR_SHARE_BPS)
          PRODUCER_BONUS_BPS) +
      applyBps BLOCK_REWARD STAKER_SHARE_BPS =
        BLOCK_REWARD := by decide
  unfold rewardsDue computeBlockReward
  rw [notEmpty]
  simp only [Bool.false_eq_true, if_false]
  split
  · rw [sum_splitEvenly _ some]
    dsimp only
    exact parts
  · rw [if_pos ⟨by decide, by simp⟩, List.map_append, List.sum_append, sum_splitEvenly _ some]
    simp only [List.map_cons, List.map_nil, List.sum_cons, List.sum_nil, Nat.add_zero]
    exact parts

/-- A block distributes its reward exactly if no balance and not the pot wraps. -/
theorem distributesExactly_iff (state : StateAccess) (header : BlockHeader)
    (some : state.loadActiveSet ≠ []) (range : MultipliersInRange state) :
    DistributesExactly state header ↔ RewardsFit state header := by
  have whole := rewardsDue_sum state header some
  obtain ⟨pot, bound, total⟩ := @foldl_payReward_total
    (rewardsDue state header state.loadActiveSet).1 (state, 0) range (by dsimp only; omega)
  have nonneg := @lossAlong_nonneg _ _ payReward _ rewardLoss_nonneg
    (rewardsDue state header state.loadActiveSet).1 (state, 0)
  unfold DistributesExactly RewardsFit distributeRewards
  dsimp only at bound total ⊢
  generalize rewardsDue state header state.loadActiveSet = due at *
  generalize due.1.foldl payReward (state, 0) = paid at *
  have reward_lt : BLOCK_REWARD < 2 ^ 40 := by decide
  have small : u64 (paid.2 + due.2) = paid.2 + due.2 := Nat.mod_eq_of_lt (by omega)
  have balances : nativeBalances (fillPot paid.1 (u64 (paid.2 + due.2))) = nativeBalances paid.1 := rfl
  have filled : (fillPot paid.1 (u64 (paid.2 + due.2))).getGlobalU64 .pot =
      u64 (state.getGlobalU64 .pot + (paid.2 + due.2) +
        applyBps BLOCK_REWARD STAKER_SHARE_BPS) := by
    unfold fillPot getGlobalU64
    dsimp only
    rw [getGlobal_putGlobal, if_pos rfl, small]
    show u64 (u64 ((paid.1.getGlobal .pot).getD 0 + _ + _)) = _
    rw [pot, u64_u64]
  rw [balances, filled]
  generalize applyBps BLOCK_REWARD STAKER_SHARE_BPS = pool at *
  unfold u64
  omega

namespace Regtest

/-- A chain with one seed, whose reward address holds this balance. -/
def oneSeed (balance : Nat) : StateAccess :=
  ((({} : StateAccess).putValidator { id := 1, rewardAddress := 7, isSeed := true }).saveActiveSet
    [1]).putAccount 7 { balance := balance }

theorem full_balance_loses_reward :
    (oneSeed (2 ^ 64 - 1)).loadActiveSet ≠ [] ∧ MultipliersInRange (oneSeed (2 ^ 64 - 1)) ∧
      ¬DistributesExactly (oneSeed (2 ^ 64 - 1)) {} := by
  decide +kernel

/-- The first member produces the block and has lost half of its rewards, the second one has the same
reward address, and the third one has no record. -/
def threeMembers : StateAccess :=
  ((((({} : StateAccess).putValidator
    { id := 1, rewardAddress := 7, rewardMultiplier := 5000 }).putValidator
    { id := 2, rewardAddress := 7, rewardMultiplier := 9999 }).putValidatorByAddress 7 1).saveActiveSet
    [1, 2, 3]).putAccount 7 { balance := 5 }

theorem threeMembers_distributes : threeMembers.getValidatorByAddress 7 = some 1 ∧
      threeMembers.getValidator 3 = none ∧ DistributesExactly threeMembers { proposer := 7 } :=
  ⟨by decide +kernel, by decide +kernel,
    (distributesExactly_iff threeMembers { proposer := 7 } (by decide +kernel)
      (by decide +kernel)).mpr (by decide +kernel)⟩

end Regtest

/-! ### The credits by the records before the block -/

section Records

/-- The address a validator is paid at, and its multiplier. -/
def payTerms (v : ValidatorInfo) : Address × Nat := (v.rewardAddress, v.rewardMultiplier)

/-- What a reward adds to the balance of an address. -/
def creditTo (terms : Nat → Option (Address × Nat)) (address : Address) (reward : SetReward) : Nat :=
  match terms reward.validatorId with
  | none => 0
  | some (payee, multiplier) =>
    if payee = address then reward.amount * multiplier / 10000 else 0

/-- What a reward leaves for the pot. -/
def unpaid (terms : Nat → Option (Address × Nat)) (reward : SetReward) : Nat :=
  match terms reward.validatorId with
  | none => reward.amount
  | some (_, multiplier) => reward.amount - reward.amount * multiplier / 10000

/-- With all that is credited to it no balance needs more than 64 bits, and neither does the pot. -/
structure CreditsFit (state : StateAccess) (header : BlockHeader) : Prop where
  balances : ∀ address,
    let credits := ((rewardsDue state header state.loadActiveSet).1.map
      (creditTo (viewOf payTerms state.registry) address)).sum
    0 < credits → (state.getAccount address).balance + credits < 2 ^ 64
  pot : state.getGlobalU64 .pot + ((rewardsDue state header state.loadActiveSet).1.map
      (unpaid (viewOf payTerms state.registry))).sum +
    (rewardsDue state header state.loadActiveSet).2 + applyBps BLOCK_REWARD STAKER_SHARE_BPS < 2 ^ 64

variable {paid : StateAccess × Nat} {terms : Nat → Option (Address × Nat)}

theorem carry_eq_zero_iff (balance amount : Nat) :
    carry balance amount = 0 ↔ balance + amount < 2 ^ 64 := by
  unfold carry u64
  omega

/-- A reward loses nothing if the balance of the address it is paid at has room for it. -/
theorem rewardLoss_eq_zero_iff {reward : SetReward}
    (isTerms : viewOf payTerms paid.1.registry = terms) :
    rewardLoss paid reward = 0 ↔ ∀ address, 0 < creditTo terms address reward →
      (paid.1.getAccount address).balance + creditTo terms address reward < 2 ^ 64 := by
  have viewed : terms reward.validatorId =
      (paid.1.getValidator reward.validatorId).map payTerms := congrFun isTerms.symm _
  unfold rewardLoss creditTo
  rw [viewed]
  cases paid.1.getValidator reward.validatorId with
  | none => simp
  | some v =>
    dsimp only [Option.map_some, payTerms]
    constructor
    · intro kept address pays
      by_cases isPayee : v.rewardAddress = address
      · rw [if_pos isPayee] at pays ⊢
        rw [if_pos pays, carry_eq_zero_iff, isPayee] at kept
        exact kept
      · rw [if_neg isPayee] at pays
        omega
    · intro room
      have payee := room v.rewardAddress
      rw [if_pos rfl] at payee
      split
      next pays => exact (carry_eq_zero_iff _ _).mpr (payee pays)
      · rfl

theorem keepsView_earned {before after : StateAccess} {id : Nat} {v : ValidatorInfo}
    (own : OwnIds before.registry) (found : before.getValidator id = some v)
    (registry : after.registry = before.registry) (earned : Nat) :
    KeepsView payTerms before.registry
      (after.putValidator { v with totalRewardsEarned := earned }).registry := by
  refine @KeepsView.put _ _ _ _ _ v { v with totalRewardsEarned := earned } own found rfl rfl ?_ ?_
  · show after.registry.validators.put _ _ = _
    rw [registry]
  · show after.registry.nextValidatorId = _
    rw [registry]

/-- A reward is paid by the terms of its validator, which stay as they are. -/
theorem payReward_credits {reward : SetReward} (own : OwnIds paid.1.registry)
    (isTerms : viewOf payTerms paid.1.registry = terms) (range : MultipliersInRange paid.1)
    (small : paid.2 + reward.amount ≤ BLOCK_REWARD) :
    KeepsView payTerms paid.1.registry (payReward paid reward).1.registry ∧
      (payReward paid reward).2 = paid.2 + unpaid terms reward ∧
      (rewardLoss paid reward = 0 → ∀ address,
        ((payReward paid reward).1.getAccount address).balance =
          (paid.1.getAccount address).balance + creditTo terms address reward) := by
  have viewed : terms reward.validatorId =
      (paid.1.getValidator reward.validatorId).map payTerms := congrFun isTerms.symm _
  unfold payReward rewardLoss creditTo unpaid
  rw [viewed]
  cases found : paid.1.getValidator reward.validatorId with
  | none => exact ⟨⟨own, fun _ => rfl, rfl⟩, whole_reward small, fun _ _ => rfl⟩
  | some v =>
    have bounds := range _ (Table.find?_eq_some_iff.mp found)
    obtain ⟨adjusted, part, rest⟩ := reward_words bounds.2 small
    dsimp only [Option.map_some, payTerms]
    rw [adjusted, rest _ part]
    generalize reward.amount * v.rewardMultiplier / 10000 = credit at *
    refine ⟨?_, rfl, ?_⟩
    · refine keepsView_earned own found ?_ _
      split
      · exact registry_putAccount paid.1 v.rewardAddress _
      · rfl
    · intro kept address
      show ((if credit > 0 then paid.1.putAccount v.rewardAddress _ else paid.1).getAccount
        address).balance = _
      by_cases pays : credit > 0
      · rw [if_pos pays, carry_eq_zero_iff] at kept
        rw [if_pos pays, balance_putAccount]
        by_cases isPayee : address = v.rewardAddress
        · rw [if_pos isPayee, if_pos isPayee.symm, isPayee]
          exact Nat.mod_eq_of_lt kept
        · rw [if_neg isPayee, if_neg (Ne.symm isPayee), Nat.add_zero]
      · have nothing : credit = 0 := by omega
        rw [if_neg pays, nothing, ite_self, Nat.add_zero]

theorem foldl_payReward_credits {rewards : List SetReward} (own : OwnIds paid.1.registry)
    (isTerms : viewOf payTerms paid.1.registry = terms) (range : MultipliersInRange paid.1)
    (small : paid.2 + (rewards.map SetReward.amount).sum ≤ BLOCK_REWARD) :
    (rewards.foldl payReward paid).2 = paid.2 + (rewards.map (unpaid terms)).sum ∧
      (lossAlong payReward rewardLoss paid rewards = 0 ↔
        ∀ address, 0 < (rewards.map (creditTo terms address)).sum →
          (paid.1.getAccount address).balance + (rewards.map (creditTo terms address)).sum <
            2 ^ 64) := by
  induction rewards generalizing paid with
  | nil => simp [lossAlong]
  | cons reward rest ih =>
    rw [List.map_cons, List.sum_cons] at small
    obtain ⟨nextRange, _, bound, _⟩ := payReward_total range
      (show paid.2 + reward.amount ≤ BLOCK_REWARD by omega)
    obtain ⟨view, left, balances⟩ := payReward_credits own isTerms range
      (show paid.2 + reward.amount ≤ BLOCK_REWARD by omega)
    obtain ⟨later, laterLoss⟩ := ih view.own ((funext view.records).trans isTerms) nextRange
      (by omega)
    have first := @rewardLoss_eq_zero_iff paid terms reward isTerms
    refine ⟨?_, ?_⟩
    · rw [List.foldl_cons, later, left, List.map_cons, List.sum_cons]
      omega
    · simp only [List.map_cons, List.sum_cons]
      rw [lossAlong_cons_eq_zero_iff rewardLoss_nonneg]
      constructor
      · rintro ⟨none, laterNone⟩ address pays
        have now := first.mp none address
        have rests := laterLoss.mp laterNone address
        rw [balances none address] at rests
        omega
      · intro room
        have none : rewardLoss paid reward = 0 := by
          refine first.mpr fun address pays => ?_
          have := room address (by omega)
          omega
        refine ⟨none, laterLoss.mpr fun address pays => ?_⟩
        rw [balances none address]
        have := room address (by omega)
        omega

/-- Whether the rewards fit is seen from the records and balances before the block. -/
theorem rewardsFit_iff_creditsFit (state : StateAccess) (header : BlockHeader)
    (some : state.loadActiveSet ≠ []) (range : MultipliersInRange state)
    (own : OwnIds state.registry) : RewardsFit state header ↔ CreditsFit state header := by
  have whole := rewardsDue_sum state header some
  obtain ⟨left, loss⟩ := @foldl_payReward_credits (state, 0) _
    (rewardsDue state header state.loadActiveSet).1 own rfl range (by dsimp only; omega)
  unfold RewardsFit
  dsimp only at left loss ⊢
  rw [left, loss, Nat.zero_add]
  exact ⟨fun fits => ⟨fits.1, fits.2⟩, fun fits => ⟨fits.balances, fits.pot⟩⟩

end Records

/-! ## Epoch payouts -/

/-- The weight of a staker in exact integers. -/
def exactWeight (account : Account) (height : Nat) : Nat :=
  (if account.staked ≥ BALANCE_BONUS_THRESHOLD then
      account.staked * (10000 + BALANCE_BONUS_BPS) / 10000
    else account.staked) *
    blocksStakedIn account (epochStartHeight height) height ROTATION_INTERVAL

/-- The part of a staker in what an epoch distributes, in exact integers. -/
def exactCredit (state : StateAccess) (height : Nat) (account : Account) : Nat :=
  let distributed := (epochAdjustment state).distributed
  if distributed = 0 ∨ state.getGlobalU64 .totalStaked = 0 ∨ state.getGlobalU64 .stakerCount = 0 then 0
  else distributed * exactWeight account height /
    (state.stakers.map fun address => exactWeight (state.getAccount address) height).sum

/-- What a boundary adds to the pending rewards of an address. -/
def credited (state : StateAccess) (height : Nat) (address : Address) : Int :=
  (((processEpochBoundary state height).getAccount address).pendingRewards : Int) -
    (state.getAccount address).pendingRewards

/-- A boundary credits every staker its part, and nobody else, in arithmetic that never wraps. -/
structure PaysExactly (state : StateAccess) (height : Nat) : Prop where
  weights : ∀ address ∈ state.stakers,
    timeWeight (state.getAccount address) height = exactWeight (state.getAccount address) height
  credits : ∀ address, credited state height address =
    if address ∈ state.stakers then (exactCredit state height (state.getAccount address) : Int) else 0
  bounded : (state.stakers.map (credited state height)).sum ≤ (epochAdjustment state).distributed
  monotone : ∀ first ∈ state.stakers, ∀ second ∈ state.stakers,
    (state.getAccount second).staked ≤ (state.getAccount first).staked →
    blocksStakedIn (state.getAccount second) (epochStartHeight height) height ROTATION_INTERVAL ≤
      blocksStakedIn (state.getAccount first) (epochStartHeight height) height ROTATION_INTERVAL →
    credited state height second ≤ credited state height first

/-- No stake with its bonus and no sum of pending rewards needs more than 64 bits. -/
structure StakesFit (state : StateAccess) (height : Nat) : Prop where
  weights : ∀ address ∈ state.stakers,
    blocksStakedIn (state.getAccount address) (epochStartHeight height) height ROTATION_INTERVAL ≠ 0 →
    (state.getAccount address).staked ≥ BALANCE_BONUS_THRESHOLD →
    (state.getAccount address).staked * (10000 + BALANCE_BONUS_BPS) / 10000 < 2 ^ 64
  credits : ∀ address ∈ state.stakers, (state.getAccount address).pendingRewards +
    exactCredit state height (state.getAccount address) < 2 ^ 64

/-! ### Credits -/

section Credits

variable {state : StateAccess} {height : Nat}

theorem sum_exactCredit_le :
    (state.stakers.map fun address => exactCredit state height (state.getAccount address)).sum ≤
      (epochAdjustment state).distributed := by
  unfold exactCredit
  dsimp only
  split
  · simp
  · have shares := sum_shares_le (epochAdjustment state).distributed
      (state.stakers.map fun address => exactWeight (state.getAccount address) height).sum
      (state.stakers.map fun address => exactWeight (state.getAccount address) height) le_rfl
    rw [List.map_map] at shares
    exact shares

/-- The words of the weights are exact if the stakes with their bonus fit. -/
theorem timeWeight_eq_iff (account : Account) :
    timeWeight account height = exactWeight account height ↔
      (blocksStakedIn account (epochStartHeight height) height ROTATION_INTERVAL ≠ 0 →
        account.staked ≥ BALANCE_BONUS_THRESHOLD →
        account.staked * (10000 + BALANCE_BONUS_BPS) / 10000 < 2 ^ 64) := by
  unfold timeWeight exactWeight
  dsimp only
  generalize blocksStakedIn account (epochStartHeight height) height ROTATION_INTERVAL = blocks
  by_cases none : blocks = 0
  · simp [none]
  · by_cases large : account.staked ≥ BALANCE_BONUS_THRESHOLD
    · rw [if_pos large, if_pos large, Nat.mul_left_inj none]
      constructor
      · intro same _ _
        rw [← same]
        exact Nat.mod_lt _ (by decide)
      · intro fits
        exact Nat.mod_eq_of_lt (fits none large)
    · simp [large]

/-- Where the weights are exact, a staker is credited its part, cut to 64 bits. -/
theorem credited_of_weights {address : Address} (word : state.getGlobalU64 .totalStaked < 2 ^ 64)
    (pending : (state.getAccount address).pendingRewards < 2 ^ 64)
    (weights : ∀ address ∈ state.stakers,
      timeWeight (state.getAccount address) height = exactWeight (state.getAccount address) height)
    (member : address ∈ state.stakers) :
    credited state height address = (u64 ((state.getAccount address).pendingRewards +
      exactCredit state height (state.getAccount address)) : Int) -
        (state.getAccount address).pendingRewards := by
  have total : totalTimeWeight state height = (state.stakers.map fun address =>
      exactWeight (state.getAccount address) height).sum :=
    congrArg List.sum (List.map_congr_left weights)
  have kept : u64 (state.getAccount address).pendingRewards =
      (state.getAccount address).pendingRewards := Nat.mod_eq_of_lt pending
  unfold credited
  rw [pending_processEpochBoundary]
  by_cases nobody : PaysNobody state height
  · have nothing : exactCredit state height (state.getAccount address) = 0 := by
      unfold exactCredit
      dsimp only
      rw [← total]
      rcases nobody with none | unstaked | uncounted | weightless
      · exact if_pos (.inl none)
      · exact if_pos (.inr (.inl unstaked))
      · exact if_pos (.inr (.inr uncounted))
      · simp [weightless]
    rw [if_neg fun pays => pays.1 nobody, nothing, Nat.add_zero, kept]
    omega
  · have paying : exactCredit state height (state.getAccount address) =
        (epochAdjustment state).distributed * exactWeight (state.getAccount address) height /
          totalTimeWeight state height := by
      unfold exactCredit
      dsimp only
      rw [← total]
      exact if_neg fun skipped =>
        nobody (skipped.imp_right fun rest => rest.imp_right Or.inl)
    rw [if_pos ⟨nobody, member⟩, paying]
    unfold stakerGain
    split
    next unstaked =>
      have weightless : exactWeight (state.getAccount address) height = 0 := by
        unfold exactWeight
        rw [unstaked, Nat.mul_zero]
      rw [weightless, Nat.mul_zero, Nat.zero_div, Nat.add_zero, kept]
      omega
    · rw [stakerShare_eq word member, weights address member]
      omega

/-- A boundary pays exactly as long as no stake with its bonus and no sum of pending rewards needs
more than 64 bits. -/
theorem paysExactly_iff (word : state.getGlobalU64 .totalStaked < 2 ^ 64)
    (pending : ∀ address ∈ state.stakers, (state.getAccount address).pendingRewards < 2 ^ 64) :
    PaysExactly state height ↔ StakesFit state height := by
  constructor
  · intro exact
    refine ⟨fun address member => (timeWeight_eq_iff _).mp (exact.weights address member), ?_⟩
    intro address member
    have credit := exact.credits address
    rw [credited_of_weights word (pending address member) exact.weights member, if_pos member] at credit
    have cut : u64 ((state.getAccount address).pendingRewards +
        exactCredit state height (state.getAccount address)) < 2 ^ 64 := Nat.mod_lt _ (by decide)
    omega
  · intro fit
    have weights := fun address member => (timeWeight_eq_iff (state.getAccount address)).mpr
      (fit.weights address member)
    have credits : ∀ address ∈ state.stakers, credited state height address =
        (exactCredit state height (state.getAccount address) : Int) := by
      intro address member
      rw [credited_of_weights word (pending address member) weights member, u64,
        Nat.mod_eq_of_lt (fit.credits address member)]
      omega
    refine ⟨weights, ?_, ?_, ?_⟩
    · intro address
      split
      next member => exact credits address member
      next absent =>
        unfold credited
        rw [pending_processEpochBoundary, if_neg fun pays => absent pays.2]
        omega
    · refine (sum_le_sum_cast state.stakers fun address member =>
        (credits address member).le).trans ?_
      exact Int.ofNat_le.mpr sum_exactCredit_le
    · intro first inFirst second inSecond stake blocks
      rw [credits first inFirst, credits second inSecond]
      unfold exactCredit
      dsimp only
      split
      · exact le_rfl
      · refine Int.ofNat_le.mpr (Nat.div_le_div_right
          (Nat.mul_le_mul_left _ (Nat.mul_le_mul ?_ blocks)))
        unfold BALANCE_BONUS_BPS
        split <;> split <;> omega

end Credits

namespace Regtest

/-- Two accounts that have been staking since the first block. -/
def twoStakers (first second : Nat) : StateAccess :=
  (({ version := 1 } : StateAccess).putAccount 20 { balance := first }).putAccount 21
    { balance := second }

theorem forall_stakers {state : StateAccess} {Property : Address → Prop}
    (index : state.stakers = [20, 21]) (first : Property 20) (second : Property 21) :
    ∀ address ∈ state.stakers, Property address := by
  rw [index]
  exact List.forall_mem_cons.mpr ⟨first, List.forall_mem_singleton.mpr second⟩

def hugeStake : StateAccess := twoStakers (2 ^ 64 - 2 ^ 55) (10 ^ 18)

/-- The bonus of the larger stake wraps, and it earns less than the smaller one. -/
theorem hugeStake_earns_less : hugeStake.getGlobalU64 .totalStaked < 2 ^ 64 ∧
      (∀ address ∈ hugeStake.stakers, (hugeStake.getAccount address).pendingRewards < 2 ^ 64) ∧
      ¬PaysExactly hugeStake 59 := by
  have index : hugeStake.stakers = [20, 21] := by decide +kernel
  refine ⟨by decide +kernel, forall_stakers index (by decide +kernel) (by decide +kernel), ?_⟩
  intro pays
  have less : credited hugeStake 59 20 < credited hugeStake 59 21 := by decide +kernel
  exact not_le.mpr less (pays.monotone 20 (by simp [index]) 21 (by simp [index])
    (by decide +kernel) (by decide +kernel))

def smallStakes : StateAccess := twoStakers (10 ^ 15) (10 ^ 10)

theorem smallStakes_paid_exactly : PaysExactly smallStakes 59 := by
  have index : smallStakes.stakers = [20, 21] := by decide +kernel
  have pending := @forall_stakers smallStakes
    (fun address => (smallStakes.getAccount address).pendingRewards < 2 ^ 64) index
    (by decide +kernel) (by decide +kernel)
  have fit : StakesFit smallStakes 59 :=
    ⟨forall_stakers index (by decide +kernel) (by decide +kernel),
      forall_stakers index (by decide +kernel) (by decide +kernel)⟩
  exact (paysExactly_iff (by decide +kernel) pending).mpr fit

end Regtest

end Clarity.Core
