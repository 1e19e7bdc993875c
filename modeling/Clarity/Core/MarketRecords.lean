import Clarity.Core.Executor.Market

/-!
Contract: the records of pools and orders, as the handlers and the passes of a block find them.

Owns: what the checks of a stored pool and of a stored order promise; which side of a pool a token
faces, and what a trade leaves of its record; the amounts an order can sell; and `QuotedTrade`, what
a trade through a pool quotes.
-/

namespace Clarity.Core

open Common Crypto Library State State.StateAccess OrderBook

/-! ## Pools -/

theorem AmmPool.ne_of_isValid {pool : AmmPool} (valid : pool.isValid = true) :
    pool.tokenA ≠ pool.tokenB := by
  unfold isValid at valid
  simp only [Bool.and_eq_true, bne_iff_ne] at valid
  exact valid.1.1.1.2

theorem getAmmPool_isValid {state : StateAccess} {poolId : Nat} {pool : AmmPool}
    (found : state.getAmmPool poolId = some pool) : pool.isValid = true :=
  (Option.filter_eq_some_iff.mp found).2

namespace TransactionExecutor

variable {pool : AmmPool} {tokenIn reserveIn : Nat}

/-- The two sides of a pool as a token that is paid in faces them. -/
theorem swapSides_eq_some {tokenOut reserveOut : Nat}
    (sides : swapSides pool tokenIn = some (tokenOut, reserveIn, reserveOut)) :
    (tokenIn = pool.tokenA ∧ tokenOut = pool.tokenB ∧ reserveIn = pool.reserveA ∧
        reserveOut = pool.reserveB) ∨
      (tokenIn ≠ pool.tokenA ∧ tokenIn = pool.tokenB ∧ tokenOut = pool.tokenA ∧
        reserveIn = pool.reserveB ∧ reserveOut = pool.reserveA) := by
  unfold swapSides at sides
  split at sides
  next isA =>
    cases sides
    exact Or.inl ⟨isA, rfl, rfl, rfl⟩
  next notA =>
    split at sides
    next isB =>
      cases sides
      exact Or.inr ⟨notA, isB, rfl, rfl, rfl⟩
    next => cases sides

theorem addToPool_id (pool : AmmPool) (tokenIn amountIn amountOther : Nat) :
    (addToPool pool tokenIn amountIn amountOther).1.id = pool.id := by
  unfold addToPool
  dsimp only
  split <;> rfl

theorem recordVolume_id (pool : AmmPool) (height volume : Nat) :
    (pool.recordVolume height volume).id = pool.id := by
  unfold AmmPool.recordVolume
  split
  · rfl
  · split <;> rfl

theorem moveReserves_id (pool : AmmPool) (tokenIn amountIn amountOut : Nat) :
    (pool.moveReserves tokenIn amountIn amountOut).id = pool.id := by
  unfold AmmPool.moveReserves
  split <;> rfl

theorem tokens_moveReserves (pool : AmmPool) (tokenIn amountIn amountOut : Nat) :
    (pool.moveReserves tokenIn amountIn amountOut).tokenA = pool.tokenA ∧
      (pool.moveReserves tokenIn amountIn amountOut).tokenB = pool.tokenB := by
  unfold AmmPool.moveReserves
  split <;> exact ⟨rfl, rfl⟩

theorem tokens_recordVolume (pool : AmmPool) (height volume : Nat) :
    (pool.recordVolume height volume).tokenA = pool.tokenA ∧
      (pool.recordVolume height volume).tokenB = pool.tokenB := by
  unfold AmmPool.recordVolume
  split
  · exact ⟨rfl, rfl⟩
  · split <;> exact ⟨rfl, rfl⟩

/-- The token the handler takes besides the one that is sent. -/
theorem swapSides_other (isSide : ¬(tokenIn ≠ pool.tokenA ∧ tokenIn ≠ pool.tokenB)) :
    ∃ reserveIn reserveOther, swapSides pool tokenIn =
      some (if tokenIn = pool.tokenA then pool.tokenB else pool.tokenA, reserveIn, reserveOther) := by
  unfold swapSides
  by_cases isA : tokenIn = pool.tokenA
  · rw [if_pos isA, if_pos isA]
    exact ⟨_, _, rfl⟩
  · have isB : tokenIn = pool.tokenB := by
      by_contra notB
      exact isSide ⟨isA, notB⟩
    rw [if_neg isA, if_pos isB, if_neg isA]
    exact ⟨_, _, rfl⟩

end TransactionExecutor

open TransactionExecutor

/-! ## Orders -/

variable {state : StateAccess} {order : Order} {price amountIn amountOut reserveIn reserveOut : Nat}
  {pool : AmmPool}

theorem getOrder_isValid {orderId : Nat} (found : state.getOrder orderId = some order) :
    order.isValid = true :=
  (Option.filter_eq_some_iff.mp found).2

/-- What the checks of a stored order say of its id, its owner and its fills. -/
theorem Order.facts_of_isValid (valid : order.isValid = true) :
    order.id ≠ INVALID_ID ∧ isNull order.owner = false ∧ order.filledAmount ≤ order.sellAmount := by
  unfold isValid at valid
  simp only [Bool.and_eq_true, bne_iff_ne, Bool.not_eq_true', decide_eq_false_iff_not] at valid
  exact ⟨valid.1.1.1.1.1.1.1.1, valid.1.1.1.1.1.1.1.2, Nat.not_lt.mp valid.1.1.1.2⟩

/-- An order with a price sells and asks for something. -/
theorem amounts_pos (priced : (canonicalPrice order).isSome = true) :
    0 < order.sellAmount ∧ 0 < order.minBuyAmount := by
  unfold canonicalPrice at priced
  split at priced
  · cases priced
  next amounts =>
    rw [not_or] at amounts
    exact ⟨Nat.pos_of_ne_zero amounts.1, Nat.pos_of_ne_zero amounts.2⟩

/-- A fill that the remainder covers leaves the rest of it, in 64 bits as in any other. -/
theorem recordFill_facts {amount : Nat} (within : order.filledAmount ≤ order.sellAmount)
    (covered : amount ≤ order.remainingAmount) :
    (recordFill order amount).filledAmount ≤ (recordFill order amount).sellAmount ∧
      (recordFill order amount).remainingAmount + amount = order.remainingAmount ∧
      ((recordFill order amount).isFullyFilled = true →
        (recordFill order amount).remainingAmount = 0) := by
  unfold Order.remainingAmount sub64 at covered
  unfold recordFill Order.remainingAmount Order.isFullyFilled sub64 u64
  simp only [decide_eq_true_eq]
  omega

/-- The quantity of base tokens an order can trade is covered by its remainder. -/
theorem baseToSellAmount_le {remaining qtyBase : Nat} {orderSellsBase : Bool}
    (available : qtyBase ≤ sellAmountToBase remaining orderSellsBase price) :
    baseToSellAmount qtyBase orderSellsBase price ≤ remaining := by
  unfold sellAmountToBase at available
  unfold baseToSellAmount
  cases orderSellsBase with
  | true => exact available
  | false =>
    simp only [Bool.false_eq_true, if_false] at available ⊢
    have bound : qtyBase * price ≤ remaining * BOOK_PRICE_SCALE := by
      split at available
      · have none : qtyBase = 0 := Nat.le_zero.mp available
        rw [none, Nat.zero_mul]
        exact Nat.zero_le _
      next priced =>
        split at available
        · have none : qtyBase = 0 := Nat.le_zero.mp available
          rw [none, Nat.zero_mul]
          exact Nat.zero_le _
        · calc qtyBase * price
              ≤ remaining * BOOK_PRICE_SCALE / price * price :=
                Nat.mul_le_mul_right price available
            _ ≤ remaining * BOOK_PRICE_SCALE := Nat.div_mul_le_self _ _
    split
    · exact Nat.zero_le _
    · apply Nat.div_le_of_le_mul
      rw [Nat.mul_comm BOOK_PRICE_SCALE]
      exact bound

/-! ## Routing -/

/-- An order faces the reserves of a valid pool as the token it sells does. -/
theorem swapSides_of_routeReserves (valid : pool.isValid = true)
    (facing : routeReserves pool order = some (reserveIn, reserveOut)) :
    swapSides pool order.sellToken =
      some (order.buyToken, reserveIn, reserveOut) := by
  unfold routeReserves at facing
  unfold swapSides
  split at facing
  next same =>
    cases facing
    rw [if_pos same.1, same.2]
  next =>
    split at facing
    next crossed =>
      cases facing
      have other : order.sellToken ≠ pool.tokenA := by
        rw [crossed.1]
        exact (AmmPool.ne_of_isValid valid).symm
      rw [if_neg other, if_pos crossed.1, crossed.2]
    next => cases facing

/-- What a trade quotes: the pool that was found, reserves that the order faces, and an input
that it covers. -/
structure QuotedTrade (state : StateAccess) (order : Order) (pool : AmmPool)
    (amountIn amountOut reserveIn reserveOut : Nat) : Prop where
  found : state.getAmmPool order.poolId = some pool
  facing : routeReserves pool order = some (reserveIn, reserveOut)
  positive : 0 < reserveIn ∧ 0 < reserveOut
  input : ∃ limit maxIn, canonicalPrice order = some limit ∧
    ActiveRouter.maxInputWithinLimit reserveIn reserveOut pool.feeBps limit = some maxIn ∧
    amountIn = min maxIn order.remainingAmount
  paid : amountOut = ActiveRouter.computeOutput reserveIn reserveOut pool.feeBps amountIn

theorem quoteWithin_trade {quoted : AmmPool} {limit : Nat}
    (ran : quoteWithin pool order reserveIn reserveOut limit =
      .trade quoted amountIn amountOut price) :
    quoted = pool ∧
      (∃ maxIn, ActiveRouter.maxInputWithinLimit reserveIn reserveOut pool.feeBps limit =
        some maxIn ∧ amountIn = min maxIn order.remainingAmount) ∧
      amountOut = ActiveRouter.computeOutput reserveIn reserveOut pool.feeBps amountIn := by
  unfold quoteWithin at ran
  split at ran
  · cases ran
  next maxIn allowed =>
    dsimp only at ran
    split at ran
    · cases ran
    · cases ran
      exact ⟨rfl, ⟨maxIn, allowed, rfl⟩, rfl⟩

theorem quoteRoute_trade (quoted : quoteRoute state order = .trade pool amountIn amountOut price) :
    ∃ reserveIn reserveOut,
      QuotedTrade state order pool amountIn amountOut reserveIn reserveOut := by
  unfold quoteRoute at quoted
  split at quoted
  · cases quoted
  · split at quoted
    · cases quoted
    next found =>
      split at quoted
      · cases quoted
      · split at quoted
        · cases quoted
        next facing =>
          split at quoted
          · cases quoted
          next positive =>
            rw [not_or] at positive
            split at quoted
            · cases quoted
            next limit priced =>
              obtain ⟨rfl, ⟨maxIn, allowed, isMin⟩, paid⟩ := quoteWithin_trade quoted
              exact ⟨_, _, found, facing,
                ⟨Nat.pos_of_ne_zero positive.1, Nat.pos_of_ne_zero positive.2⟩,
                ⟨limit, maxIn, priced, allowed, isMin⟩, paid⟩

/-! ## A token to trade with -/

namespace Regtest

/-- A token without a cap. -/
def createCoin : Transaction :=
  { chainId := 1
    txType := .createToken
    sender := 20
    fee := 1
    payload := [0, 0] ++ putU8 3 ++ putText "Abc".toList ++ putU8 3 ++ putText "ABC".toList ++
      putU64 0 ++ putU16 0 ++ putU8 0 }

def mintCoin (nonce : Nat) (recipient : Address) (amount : Nat) : Transaction :=
  { chainId := 1
    txType := .mintToken
    nonce := nonce
    sender := 20
    recipient := recipient
    tokenId := 1
    amount := amount
    fee := 1 }

end Regtest

end Clarity.Core
