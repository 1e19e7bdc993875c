import Clarity.Core.MarketRecords
import Clarity.Library.ConstantProduct

/-!
Contract: what trades and deposits do to a pool.

Owns: `Trade`, a trade of a pool by a Swap or by the fill of an active order, and when it keeps
the product of the reserves; when the fill of an active order and what the router lets in are
within the limit; and when a deposit leaves the worth of a share.

The reserves and the amounts are 64-bit words, and the source adds to a reserve without a
check, so what holds in integers depends on these sums.
-/

namespace Clarity.Core

open Common Crypto Library Library.ConstantProduct
open State State.StateAccess Clarity.Core.TransactionExecutor

variable {feeBps : Nat} {tx : Transaction}

/-! ## Trades -/

/-- The reserve an input is paid into. -/
def AmmPool.reserveIn (pool : AmmPool) (tokenIn : Nat) : Nat :=
  if tokenIn = pool.tokenA then pool.reserveA else pool.reserveB

/-- The reserve the output is paid from. -/
def AmmPool.reserveOut (pool : AmmPool) (tokenIn : Nat) : Nat :=
  if tokenIn = pool.tokenA then pool.reserveB else pool.reserveA

/-- The amounts of a fill as its order sees them: what it sold and what it received. -/
def Fill.soldBy (fill : Fill) (order : Order) : Nat :=
  if sellsBase order then fill.qtyBase else fill.qtyQuote

def Fill.receivedBy (fill : Fill) (order : Order) : Nat :=
  if sellsBase order then fill.qtyQuote else fill.qtyBase

/-- A pool is traded: its record before and after, the token and the amount paid in, and the
amount paid out. -/
inductive Trade (state after : StateAccess) (pool traded : AmmPool) : Nat → Nat → Nat → Prop
  | swap (tx : Transaction) (ctx : TxExecutionContext) (tokenOut reserveIn reserveOut : Nat)
      (found : state.getAmmPool (readU64At tx.payload 0) = some pool)
      (sides : swapSides pool tx.tokenId = some (tokenOut, reserveIn, reserveOut))
      (ran : executeSwap state tx ctx = some after)
      (stored : after.tree.ammPools.find? pool.id = some traded) :
      Trade state after pool traded tx.tokenId tx.amount
        (swapOutput reserveIn reserveOut pool.feeBps tx.amount)
  | active (order : Order) (height : Nat) (fill : Fill)
      (found : state.getAmmPool order.poolId = some pool)
      (ran : executeActiveOrder state order height = .filled after fill)
      (stored : after.tree.ammPools.find? pool.id = some traded) :
      Trade state after pool traded order.sellToken (fill.soldBy order) (fill.receivedBy order)

/-- What a trade should do to a pool. -/
structure KeepsProduct (pool traded : AmmPool) (tokenIn amountOut : Nat) : Prop where
  covered : amountOut ≤ pool.reserveOut tokenIn
  positiveA : 0 < traded.reserveA
  positiveB : 0 < traded.reserveB
  smallA : traded.reserveA < 2 ^ 64
  smallB : traded.reserveB < 2 ^ 64
  product : pool.reserveA * pool.reserveB ≤ traded.reserveA * traded.reserveB

/-! ### Moved reserves -/

variable {pool : AmmPool} {tokenIn amountIn amountOut : Nat}

/-- The record of a traded pool; the volume may be recorded first. -/
def AmmPool.traded (pool : AmmPool) (height tokenIn amountIn amountOut : Nat) : AmmPool :=
  (pool.moveReserves tokenIn amountIn amountOut).recordVolume height
    (pool.clrtyVolume tokenIn amountIn)

theorem find?_traded (state : StateAccess) (pool : AmmPool)
    (height tokenIn amountIn amountOut : Nat) :
    (state.putAmmPool (pool.traded height tokenIn amountIn amountOut)).tree.ammPools.find? pool.id =
      some (pool.traded height tokenIn amountIn amountOut) := by
  have sameId : (pool.traded height tokenIn amountIn amountOut).id = pool.id :=
    (recordVolume_id _ _ _).trans (moveReserves_id pool _ _ _)
  unfold putAmmPool
  rw [sameId]
  simp [Table.find?_put]

theorem reserves_traded (pool : AmmPool) (height tokenIn amountIn amountOut : Nat) :
    (pool.traded height tokenIn amountIn amountOut).reserveIn tokenIn =
        u64 (pool.reserveIn tokenIn + amountIn) ∧
      (pool.traded height tokenIn amountIn amountOut).reserveOut tokenIn =
        sub64 (pool.reserveOut tokenIn) amountOut := by
  unfold AmmPool.traded AmmPool.recordVolume AmmPool.moveReserves AmmPool.reserveIn
    AmmPool.reserveOut
  grind

theorem reserve_sides (pool : AmmPool) (tokenIn : Nat) :
    (pool.reserveIn tokenIn = pool.reserveA ∧ pool.reserveOut tokenIn = pool.reserveB) ∨
      (pool.reserveIn tokenIn = pool.reserveB ∧ pool.reserveOut tokenIn = pool.reserveA) := by
  unfold AmmPool.reserveIn AmmPool.reserveOut
  split
  · exact Or.inl ⟨rfl, rfl⟩
  · exact Or.inr ⟨rfl, rfl⟩

theorem reserves_product (pool : AmmPool) (tokenIn : Nat) :
    pool.reserveA * pool.reserveB = pool.reserveIn tokenIn * pool.reserveOut tokenIn := by
  rcases reserve_sides pool tokenIn with ⟨isIn, isOut⟩ | ⟨isIn, isOut⟩
  · rw [isIn, isOut]
  · rw [isIn, isOut, Nat.mul_comm]

/-- The reserves of a pool that was traded, with the output of the constant product as long as
the reserve that is paid into fits its word. -/
structure TradedAt (pool traded : AmmPool) (tokenIn amountIn amountOut : Nat) : Prop where
  reserveIn : traded.reserveIn tokenIn = u64 (pool.reserveIn tokenIn + amountIn)
  reserveOut : traded.reserveOut tokenIn = sub64 (pool.reserveOut tokenIn) amountOut
  atOutput : pool.reserveIn tokenIn + amountIn < 2 ^ 64 → ∃ net ≤ amountIn,
    amountOut = output (pool.reserveIn tokenIn) (pool.reserveOut tokenIn) net

/-- The reserves and the amount of a trade are positive words. -/
structure TradeRange (pool : AmmPool) (amountIn : Nat) : Prop where
  positiveA : 0 < pool.reserveA
  positiveB : 0 < pool.reserveB
  smallA : pool.reserveA < 2 ^ 64
  smallB : pool.reserveB < 2 ^ 64
  amount : amountIn < 2 ^ 64

theorem TradeRange.sides (range : TradeRange pool amountIn) (tokenIn : Nat) :
    (0 < pool.reserveIn tokenIn ∧ pool.reserveIn tokenIn < 2 ^ 64) ∧
      0 < pool.reserveOut tokenIn ∧ pool.reserveOut tokenIn < 2 ^ 64 := by
  obtain ⟨positiveA, positiveB, smallA, smallB, _⟩ := range
  rcases reserve_sides pool tokenIn with ⟨isIn, isOut⟩ | ⟨isIn, isOut⟩ <;> omega

theorem TradedAt.keepsProduct_iff {traded : AmmPool}
    (tradedAt : TradedAt pool traded tokenIn amountIn amountOut)
    (range : TradeRange pool amountIn) :
    KeepsProduct pool traded tokenIn amountOut ↔ pool.reserveIn tokenIn + amountIn < 2 ^ 64 := by
  obtain ⟨⟨hasIn, smallIn⟩, hasOut, smallOut⟩ := range.sides tokenIn
  have smallAmount := range.amount
  have bySides : KeepsProduct pool traded tokenIn amountOut ↔
      amountOut ≤ pool.reserveOut tokenIn ∧
        (0 < traded.reserveIn tokenIn ∧ traded.reserveIn tokenIn < 2 ^ 64) ∧
        (0 < traded.reserveOut tokenIn ∧ traded.reserveOut tokenIn < 2 ^ 64) ∧
        pool.reserveIn tokenIn * pool.reserveOut tokenIn ≤
          traded.reserveIn tokenIn * traded.reserveOut tokenIn := by
    rw [← reserves_product, ← reserves_product]
    have sides := reserve_sides traded tokenIn
    constructor
    · rintro ⟨covered, positiveA, positiveB, smallA, smallB, product⟩
      refine ⟨covered, ?_, ?_, product⟩ <;> omega
    · rintro ⟨covered, sideIn, sideOut, product⟩
      refine ⟨covered, ?_, ?_, ?_, ?_, product⟩ <;> omega
  rw [bySides, tradedAt.reserveIn, tradedAt.reserveOut]
  constructor
  · rintro ⟨covered, _, _, product⟩
    by_contra wraps
    -- a reserve that wraps is smaller than before, and the other one does not grow
    have fallen : u64 (pool.reserveIn tokenIn + amountIn) < pool.reserveIn tokenIn := by
      unfold u64
      omega
    have notGrown : sub64 (pool.reserveOut tokenIn) amountOut ≤ pool.reserveOut tokenIn := by
      unfold sub64
      omega
    have less : u64 (pool.reserveIn tokenIn + amountIn) * sub64 (pool.reserveOut tokenIn) amountOut <
        pool.reserveIn tokenIn * pool.reserveOut tokenIn :=
      calc u64 (pool.reserveIn tokenIn + amountIn) * sub64 (pool.reserveOut tokenIn) amountOut
          ≤ u64 (pool.reserveIn tokenIn + amountIn) * pool.reserveOut tokenIn :=
            Nat.mul_le_mul_left _ notGrown
        _ < pool.reserveIn tokenIn * pool.reserveOut tokenIn :=
            Nat.mul_lt_mul_of_pos_right fallen hasOut
    exact absurd product (Nat.not_le_of_lt less)
  · intro fits
    obtain ⟨net, fee, isOutput⟩ := tradedAt.atOutput fits
    have paid : amountOut < pool.reserveOut tokenIn := by
      rw [isOutput]
      exact output_lt hasIn hasOut
    have isIn : u64 (pool.reserveIn tokenIn + amountIn) = pool.reserveIn tokenIn + amountIn :=
      Nat.mod_eq_of_lt fits
    have isOut : sub64 (pool.reserveOut tokenIn) amountOut = pool.reserveOut tokenIn - amountOut := by
      unfold sub64
      omega
    rw [isIn, isOut]
    refine ⟨Nat.le_of_lt paid, ⟨Nat.add_pos_left hasIn _, fits⟩, ⟨?_, ?_⟩, ?_⟩
    · omega
    · omega
    · rw [isOutput]
      exact product_le hasIn fee

/-! ### Outputs -/

theorem u64_of_lt {sum : Nat} (fits : sum < 2 ^ 64) : u64 sum = sum := Nat.mod_eq_of_lt fits

/-- The part of an input the fee leaves. -/
def netInput (feeBps amountIn : Nat) : Nat := amountIn * (10000 - feeBps) / 10000

theorem netInput_le (feeBps amountIn : Nat) : netInput feeBps amountIn ≤ amountIn := by
  unfold netInput
  apply Nat.div_le_of_le_mul
  rw [Nat.mul_comm]
  exact Nat.mul_le_mul_right amountIn (Nat.sub_le 10000 feeBps)

theorem u64_output {reserveIn reserveOut net : Nat} (hasIn : 0 < reserveIn) (hasOut : 0 < reserveOut)
    (small : reserveOut < 2 ^ 64) :
    u64 (output reserveIn reserveOut net) = output reserveIn reserveOut net :=
  u64_of_lt (Nat.lt_trans (output_lt hasIn hasOut) small)

/-- A swap divides by a sum that is cut to a word. -/
theorem swapOutput_word {reserveIn reserveOut : Nat} (small : amountIn < 2 ^ 64) :
    swapOutput reserveIn reserveOut feeBps amountIn =
      u64 (reserveOut * netInput feeBps amountIn / u64 (reserveIn + netInput feeBps amountIn)) := by
  have isNet : u64 (amountIn * (10000 - feeBps) / 10000) = netInput feeBps amountIn :=
    u64_of_lt ((netInput_le feeBps amountIn).trans_lt small)
  unfold swapOutput
  dsimp only
  rw [isNet]

theorem swapOutput_eq {reserveIn reserveOut : Nat} (hasIn : 0 < reserveIn)
    (hasOut : 0 < reserveOut) (small : reserveOut < 2 ^ 64) (word : amountIn < 2 ^ 64)
    (fits : reserveIn + netInput feeBps amountIn < 2 ^ 64) :
    swapOutput reserveIn reserveOut feeBps amountIn =
      output reserveIn reserveOut (netInput feeBps amountIn) := by
  rw [swapOutput_word word, u64_of_lt fits]
  exact u64_output hasIn hasOut small

theorem computeOutput_eq {reserveIn reserveOut : Nat} (hasIn : 0 < reserveIn)
    (hasOut : 0 < reserveOut) (small : reserveOut < 2 ^ 64) :
    ActiveRouter.computeOutput reserveIn reserveOut feeBps amountIn =
      output reserveIn reserveOut (netInput feeBps amountIn) := by
  unfold ActiveRouter.computeOutput
  split
  next nothing =>
    have isZero : amountIn = 0 := by
      rcases nothing with noIn | noOut | noAmount
      · omega
      · omega
      · exact noAmount
    rw [isZero]
    simp [output, netInput]
  · exact u64_output hasIn hasOut small

/-! ### The two kinds of trades -/

theorem swapSides_reserves {tokenOut reserveIn reserveOut : Nat}
    (sides : swapSides pool tokenIn = some (tokenOut, reserveIn, reserveOut)) :
    reserveIn = pool.reserveIn tokenIn ∧ reserveOut = pool.reserveOut tokenIn := by
  unfold swapSides at sides
  unfold AmmPool.reserveIn AmmPool.reserveOut
  split at sides
  next isA =>
    cases sides
    rw [if_pos isA, if_pos isA]
    exact ⟨rfl, rfl⟩
  next notA =>
    split at sides
    · cases sides
      rw [if_neg notA, if_neg notA]
      exact ⟨rfl, rfl⟩
    · cases sides

variable {state after : StateAccess} {traded : AmmPool}

theorem executeSwap_stored {ctx : TxExecutionContext} {tokenOut reserveIn
    reserveOut : Nat} (found : state.getAmmPool (readU64At tx.payload 0) = some pool)
    (sides : swapSides pool tx.tokenId = some (tokenOut, reserveIn, reserveOut)) :
    Ensures (fun after => after.tree.ammPools.find? pool.id = some (pool.traded ctx.currentHeight
        tx.tokenId tx.amount (swapOutput reserveIn reserveOut pool.feeBps tx.amount)))
      (executeSwap state tx ctx) := by
  simp only [executeSwap, Ensures.do_iff, Ensures.pure_iff]
  intro _ _ other isFound _ _ faced isSides _ _ _ _
  rw [found] at isFound
  cases isFound
  rw [sides] at isSides
  cases isSides
  have same (output : Nat) : (pool.recordVolume ctx.currentHeight (pool.clrtyVolume tx.tokenId
      tx.amount)).moveReserves tx.tokenId tx.amount output =
        pool.traded ctx.currentHeight tx.tokenId tx.amount output := by
    unfold AmmPool.traded AmmPool.recordVolume AmmPool.moveReserves
    grind
  rw [same]
  exact find?_traded _ _ _ _ _ _

/-- The fill of an active order: the pool it was quoted from, and what was stored. -/
theorem executeActiveOrder_filled {order : Order} {height : Nat} {fill : Fill}
    (found : state.getAmmPool order.poolId = some pool)
    (ran : executeActiveOrder state order height = .filled after fill) :
    QuotedTrade state order pool (fill.soldBy order) (fill.receivedBy order)
        (pool.reserveIn order.sellToken) (pool.reserveOut order.sellToken) ∧
      after.tree.ammPools.find? pool.id = some
        (pool.traded height order.sellToken (fill.soldBy order) (fill.receivedBy order)) := by
  unfold executeActiveOrder at ran
  split at ran
  · cases ran
  · cases ran
  next quotedPool amountIn amountOut price quoted =>
    cases ran
    obtain ⟨reserveIn, reserveOut, trade⟩ := quoteRoute_trade quoted
    have same := trade.found
    rw [found] at same
    cases same
    obtain ⟨isIn, isOut⟩ := swapSides_reserves
      (swapSides_of_routeReserves (getAmmPool_isValid found) trade.facing)
    have sold : (ammFill order amountIn amountOut price).soldBy order = amountIn := by
      unfold Fill.soldBy ammFill
      split <;> rfl
    have received : (ammFill order amountIn amountOut price).receivedBy order = amountOut := by
      unfold Fill.receivedBy ammFill
      split <;> rfl
    rw [sold, received, ← isIn, ← isOut]
    refine ⟨trade, ?_⟩
    have credited (state : StateAccess) (address : Address) (token amount : Nat) :
        Within [.accounts, .balances] state (state.addBalance address token amount) := by
      simp
    have pools : (routeFill state order pool height amountIn amountOut).tree.ammPools =
        (state.putAmmPool (pool.traded height order.sellToken amountIn amountOut)).tree.ammPools := by
      unfold routeFill persistRouted
      dsimp only
      split <;> exact (credited _ _ _ _).same .pools (by decide)
    rw [pools]
    exact find?_traded _ _ _ _ _ _

theorem Trade.tradedAt (trade : Trade state after pool traded tokenIn amountIn amountOut)
    (range : TradeRange pool amountIn) : TradedAt pool traded tokenIn amountIn amountOut := by
  cases trade with
  | swap tx ctx tokenOut reserveIn reserveOut found sides ran stored =>
    obtain ⟨isIn, isOut⟩ := swapSides_reserves sides
    have written := stored.symm.trans (executeSwap_stored found sides after ran)
    cases written
    obtain ⟨paidIn, paidOut⟩ := reserves_traded pool ctx.currentHeight tx.tokenId tx.amount
      (swapOutput reserveIn reserveOut pool.feeBps tx.amount)
    obtain ⟨⟨hasIn, _⟩, hasOut, smallOut⟩ := range.sides tx.tokenId
    refine ⟨paidIn, paidOut, fun fits => ⟨netInput pool.feeBps tx.amount, netInput_le _ _, ?_⟩⟩
    rw [isIn, isOut]
    exact swapOutput_eq hasIn hasOut smallOut range.amount
      ((Nat.add_le_add_left (netInput_le _ _) _).trans_lt fits)
  | active order height fill found ran stored =>
    obtain ⟨quote, isStored⟩ := executeActiveOrder_filled found ran
    have written := stored.symm.trans isStored
    cases written
    obtain ⟨paidIn, paidOut⟩ := reserves_traded pool height order.sellToken (fill.soldBy order)
      (fill.receivedBy order)
    obtain ⟨⟨hasIn, _⟩, hasOut, smallOut⟩ := range.sides order.sellToken
    refine ⟨paidIn, paidOut, fun _ => ⟨netInput pool.feeBps (fill.soldBy order), netInput_le _ _, ?_⟩⟩
    rw [quote.paid]
    exact computeOutput_eq hasIn hasOut smallOut

/-! ### Constant product -/

/-- **A trade keeps the constant product exactly when the reserve it pays into fits.** -/
theorem trade_keepsProduct_iff (trade : Trade state after pool traded tokenIn amountIn amountOut)
    (range : TradeRange pool amountIn) :
    KeepsProduct pool traded tokenIn amountOut ↔ pool.reserveIn tokenIn + amountIn < 2 ^ 64 :=
  (trade.tradedAt range).keepsProduct_iff range

namespace Regtest

/-- A pool of two tokens, with as much of each. -/
def evenPool (reserve : Nat) : AmmPool :=
  { id := 1, tokenA := 1, tokenB := 2, reserveA := reserve, reserveB := reserve
    totalLiquidity := reserve }

def market (pool : AmmPool) : StateAccess :=
  ((({} : StateAccess).putTokenBalance 20 1 (2 ^ 64 - 1)).putTokenBalance 20 2
    (2 ^ 64 - 1)).putAmmPool pool

def firstContext : TxExecutionContext := { currentHeight := 1, chainId := 1 }

def payIn (amount : Nat) : Transaction :=
  { txType := .swap
    sender := 20
    recipient := 20
    tokenId := 1
    amount := amount
    payload := putU64 1 ++ putU64 0 }

def swapped (pool : AmmPool) (amount : Nat) : StateAccess :=
  (executeSwap (market pool) (payIn amount) firstContext).getD {}

def swappedPool (pool : AmmPool) (amount : Nat) : AmmPool :=
  ((swapped pool amount).tree.ammPools.find? 1).getD {}

/-- A swap that pays half of what a word holds into a reserve of the other half leaves it empty. -/
theorem swapped_full_word :
    Trade (market (evenPool (2 ^ 63))) (swapped (evenPool (2 ^ 63)) (2 ^ 63)) (evenPool (2 ^ 63))
        (swappedPool (evenPool (2 ^ 63)) (2 ^ 63)) 1 (2 ^ 63) 4604758097518383315 ∧
      TradeRange (evenPool (2 ^ 63)) (2 ^ 63) ∧
      (swappedPool (evenPool (2 ^ 63)) (2 ^ 63)).reserveA = 0 ∧
      ¬KeepsProduct (evenPool (2 ^ 63)) (swappedPool (evenPool (2 ^ 63)) (2 ^ 63)) 1
        4604758097518383315 := by
  have emptied : (swappedPool (evenPool (2 ^ 63)) (2 ^ 63)).reserveA = 0 := by decide +kernel
  have paid : swapOutput (2 ^ 63) (2 ^ 63) (evenPool (2 ^ 63)).feeBps (payIn (2 ^ 63)).amount =
      4604758097518383315 := by
    decide
  have trade := @Trade.swap (market (evenPool (2 ^ 63))) (swapped (evenPool (2 ^ 63)) (2 ^ 63))
    (evenPool (2 ^ 63)) (swappedPool (evenPool (2 ^ 63)) (2 ^ 63)) (payIn (2 ^ 63)) firstContext 2
    (2 ^ 63) (2 ^ 63) (by decide +kernel) (by decide +kernel) (by decide +kernel)
    (by decide +kernel)
  rw [paid] at trade
  refine ⟨trade, by constructor <;> decide, emptied, ?_⟩
  intro keeps
  have positive := keeps.positiveA
  rw [emptied] at positive
  cases positive

theorem swapped_small_keepsProduct : TradeRange (evenPool 1000) 1000 ∧
      KeepsProduct (evenPool 1000) (swappedPool (evenPool 1000) 1000) 1 499 := by
  have range : TradeRange (evenPool 1000) 1000 := by constructor <;> decide
  have trade : Trade (market (evenPool 1000)) (swapped (evenPool 1000) 1000) (evenPool 1000)
      (swappedPool (evenPool 1000) 1000) 1 1000 499 :=
    .swap (payIn 1000) firstContext 2 1000 1000 (by decide +kernel) (by decide +kernel)
      (by decide +kernel) (by decide +kernel)
  exact ⟨range, (trade_keepsProduct_iff trade range).mpr (by decide)⟩

end Regtest

/-! ## Two prices for one amount -/

/-- The sum a swap divides by is a word, or the quotient by the word left of it happens to be
cut to the right amount. -/
def PricedAlike (reserveIn reserveOut net : Nat) : Prop :=
  reserveIn + net < 2 ^ 64 ∨
    u64 (reserveOut * net / (reserveIn + net - 2 ^ 64)) = output reserveIn reserveOut net

theorem swapOutput_eq_iff {reserveIn reserveOut : Nat} (hasIn : 0 < reserveIn)
    (smallIn : reserveIn < 2 ^ 64) (hasOut : 0 < reserveOut) (smallOut : reserveOut < 2 ^ 64)
    (word : amountIn < 2 ^ 64) :
    swapOutput reserveIn reserveOut feeBps amountIn =
        output reserveIn reserveOut (netInput feeBps amountIn) ↔
      PricedAlike reserveIn reserveOut (netInput feeBps amountIn) := by
  have less := netInput_le feeBps amountIn
  unfold PricedAlike
  by_cases fits : reserveIn + netInput feeBps amountIn < 2 ^ 64
  · exact iff_of_true (swapOutput_eq hasIn hasOut smallOut word fits) (Or.inl fits)
  · have wraps : u64 (reserveIn + netInput feeBps amountIn) =
        reserveIn + netInput feeBps amountIn - 2 ^ 64 := by
      unfold u64
      omega
    rw [or_iff_right fits, swapOutput_word word, wraps]

/-- **A Swap and the fill of an active order for the same amount pay out the same and leave the
same pool exactly when their prices are alike.** -/
theorem swap_active_same_iff {tx : Transaction} {ctx : TxExecutionContext} {order : Order}
    {fill : Fill} {swapped routed : StateAccess} {tokenOut reserveIn reserveOut : Nat}
    (found : state.getAmmPool (readU64At tx.payload 0) = some pool)
    (sides : swapSides pool tx.tokenId = some (tokenOut, reserveIn, reserveOut))
    (swaps : executeSwap state tx ctx = some swapped)
    (routes : executeActiveOrder state order ctx.currentHeight = .filled routed fill)
    (samePool : order.poolId = readU64At tx.payload 0) (sameToken : order.sellToken = tx.tokenId)
    (sameAmount : fill.soldBy order = tx.amount) (range : TradeRange pool tx.amount) :
    (swapOutput reserveIn reserveOut pool.feeBps tx.amount = fill.receivedBy order ∧
        swapped.tree.ammPools.find? pool.id = routed.tree.ammPools.find? pool.id) ↔
      PricedAlike reserveIn reserveOut (netInput pool.feeBps tx.amount) := by
  obtain ⟨quote, routedPool⟩ := executeActiveOrder_filled (samePool ▸ found) routes
  obtain ⟨isIn, isOut⟩ := swapSides_reserves sides
  obtain ⟨⟨hasIn, smallIn⟩, hasOut, smallOut⟩ := range.sides tx.tokenId
  have small := range.amount
  rw [← isIn] at hasIn smallIn
  rw [← isOut] at hasOut smallOut
  have paid : fill.receivedBy order =
      output reserveIn reserveOut (netInput pool.feeBps tx.amount) := by
    rw [quote.paid, sameAmount, sameToken, ← isIn, ← isOut]
    exact computeOutput_eq hasIn hasOut smallOut
  rw [executeSwap_stored found sides swapped swaps, routedPool, sameAmount, sameToken, paid]
  rw [← swapOutput_eq_iff hasIn smallIn hasOut smallOut small]
  constructor
  · exact And.left
  · intro same
    rw [same]
    exact ⟨rfl, rfl⟩

/-! ## Limits of active orders -/

/-- The largest input at a limit, in closed form. -/
def boundedInput (reserveIn reserveOut feeBps limit : Nat) : Nat :=
  reserveOut * OrderBook.BOOK_PRICE_SCALE / limit - reserveIn * 10000 / (10000 - feeBps)

/-- What is left of the router's bound makes up for the roundings of a trade at `minBuy : sell`. -/
def CoversRoundings (reserveIn reserveOut feeBps limit amountIn sell minBuy : Nat) : Prop :=
  roundings reserveIn (10000 - feeBps) 10000 limit OrderBook.BOOK_PRICE_SCALE amountIn sell minBuy ≤
    sell * 10000 * (netInput feeBps amountIn : Nat) *
      slack reserveIn reserveOut (10000 - feeBps) 10000 limit OrderBook.BOOK_PRICE_SCALE amountIn

instance (reserveIn reserveOut feeBps limit amountIn sell minBuy : Nat) :
    Decidable (CoversRoundings reserveIn reserveOut feeBps limit amountIn sell minBuy) :=
  inferInstanceAs (Decidable (_ ≤ _))

section Router
variable {reserveIn reserveOut limit maxIn : Nat}

/-- The router's maximum, and the bound it keeps every input below it within. -/
theorem maxInputWithinLimit_spec
    (allowed : ActiveRouter.maxInputWithinLimit reserveIn reserveOut feeBps limit = some maxIn) :
    (0 < reserveIn ∧ 0 < reserveOut) ∧ maxIn = boundedInput reserveIn reserveOut feeBps limit ∧
      ∀ amount ≤ maxIn, limit * (amount + reserveIn * 10000 / (10000 - feeBps)) ≤
        reserveOut * OrderBook.BOOK_PRICE_SCALE := by
  unfold ActiveRouter.maxInputWithinLimit at allowed
  simp only [Option.ite_none_left_eq_some, Option.some.injEq] at allowed
  obtain ⟨reserves, _, _, _, above, _, _, isMax⟩ := allowed
  rw [not_or] at reserves
  refine ⟨⟨Nat.pos_of_ne_zero reserves.1, Nat.pos_of_ne_zero reserves.2⟩, isMax.symm, ?_⟩
  intro amount within
  -- the quotient by the limit bounds the sum of the input and of the reserve held against it
  have summed : amount + reserveIn * 10000 / (10000 - feeBps) ≤
      reserveOut * OrderBook.BOOK_PRICE_SCALE / limit := by
    omega
  exact (Nat.mul_le_mul_left limit summed).trans (Nat.mul_div_le _ _)

/-- An input within the bound is paid at least the ratio exactly when the roundings are covered. -/
theorem computeOutput_ratio_iff {sell minBuy : Nat}
    (allowed : ActiveRouter.maxInputWithinLimit reserveIn reserveOut feeBps limit = some maxIn)
    (within : amountIn ≤ maxIn) (small : reserveOut < 2 ^ 64) (sells : 0 < sell) :
    amountIn * minBuy ≤
        ActiveRouter.computeOutput reserveIn reserveOut feeBps amountIn * sell ↔
      CoversRoundings reserveIn reserveOut feeBps limit amountIn sell minBuy := by
  obtain ⟨⟨hasIn, hasOut⟩, _, bounded⟩ := maxInputWithinLimit_spec allowed
  rw [computeOutput_eq hasIn hasOut small]
  exact ratio_le_output_iff_roundings hasIn sells (by decide) (by decide) (bounded amountIn within)

/-- **What the router lets in is paid at the limit exactly when what is left of the bound makes up
for the roundings** of the reserve, of the input after the fee and of the least output. -/
theorem routedPrice_meets_limit_iff
    (allowed : ActiveRouter.maxInputWithinLimit reserveIn reserveOut feeBps limit = some maxIn)
    (within : amountIn ≤ maxIn) (small : reserveOut < 2 ^ 64) :
    limit * amountIn ≤ ActiveRouter.computeOutput reserveIn reserveOut feeBps amountIn *
        OrderBook.BOOK_PRICE_SCALE ↔
      CoversRoundings reserveIn reserveOut feeBps limit amountIn OrderBook.BOOK_PRICE_SCALE
        limit := by
  rw [Nat.mul_comm limit]
  exact computeOutput_ratio_iff allowed within small (by decide)

end Router

/-- Two units are let in at a price of one, and one is paid. -/
theorem smallInput_below_limit :
    ActiveRouter.maxInputWithinLimit 1000 2000 30 OrderBook.BOOK_PRICE_SCALE = some 997 ∧
      ActiveRouter.computeOutput 1000 2000 30 2 = 1 ∧
      ¬OrderBook.BOOK_PRICE_SCALE * 2 ≤ 1 * OrderBook.BOOK_PRICE_SCALE := by
  decide

theorem halfInput_at_limit :
    ActiveRouter.maxInputWithinLimit 1000 2000 30 OrderBook.BOOK_PRICE_SCALE = some 997 ∧
      OrderBook.BOOK_PRICE_SCALE * 500 ≤
        ActiveRouter.computeOutput 1000 2000 30 500 * OrderBook.BOOK_PRICE_SCALE := by
  have allowed : ActiveRouter.maxInputWithinLimit 1000 2000 30 OrderBook.BOOK_PRICE_SCALE =
      some 997 := by
    decide
  exact ⟨allowed, (routedPrice_meets_limit_iff allowed (by decide) (by decide)).mpr (by decide)⟩

/-- **A fill of an active order is within its limit exactly when what is left of the bound at the
order's canonical price makes up for the roundings.** A seller of the quote token is bounded by
the inverted price: there the difference between its ratio and the limit is no rounding. -/
theorem activeFill_within_iff {order : Order} {height limit : Nat} {fill : Fill}
    (found : state.getAmmPool order.poolId = some pool)
    (small : pool.reserveOut order.sellToken < 2 ^ 64)
    (priced : OrderBook.canonicalPrice order = some limit)
    (ran : executeActiveOrder state order height = .filled after fill) :
    fill.soldBy order * order.minBuyAmount ≤ fill.receivedBy order * order.sellAmount ↔
      CoversRoundings (pool.reserveIn order.sellToken) (pool.reserveOut order.sellToken) pool.feeBps
        limit (min (boundedInput (pool.reserveIn order.sellToken)
          (pool.reserveOut order.sellToken) pool.feeBps limit) order.remainingAmount)
        order.sellAmount order.minBuyAmount := by
  obtain ⟨quote, _⟩ := executeActiveOrder_filled found ran
  obtain ⟨_, maxIn, isPriced, allowed, isMin⟩ := quote.input
  cases priced.symm.trans isPriced
  have sells := (amounts_pos (Option.isSome_of_eq_some priced)).1
  have routed : fill.soldBy order = min (boundedInput (pool.reserveIn order.sellToken)
      (pool.reserveOut order.sellToken) pool.feeBps limit) order.remainingAmount := by
    rw [isMin, (maxInputWithinLimit_spec allowed).2.1]
  have within : fill.soldBy order ≤ maxIn := by
    rw [isMin]
    exact Nat.min_le_left _ _
  rw [quote.paid, computeOutput_ratio_iff allowed within small sells, routed]

namespace Regtest

/-- An active order that sells the quote token, four for one. -/
def quoteSeller : Order :=
  { id := 7, owner := 20, mode := .active, poolId := 1, sellToken := 2, buyToken := 1
    sellAmount := 1000, minBuyAmount := 4000 }

def baseSeller : Order :=
  { id := 7, owner := 20, mode := .active, poolId := 1, sellToken := 1, buyToken := 2
    sellAmount := 1000, minBuyAmount := 500 }

def routedFill (order : Order) : Option (StateAccess × Fill) :=
  match executeActiveOrder (market (evenPool 1000000)) order 1 with
  | .filled after fill => some (after, fill)
  | _ => none

theorem executeActiveOrder_of_routedFill {order : Order} {after : StateAccess} {fill : Fill}
    (routed : routedFill order = some (after, fill)) :
    executeActiveOrder (market (evenPool 1000000)) order 1 = .filled after fill := by
  unfold routedFill at routed
  split at routed
  next ran =>
    cases routed
    exact ran
  · cases routed

/-- At a price of one the seller of the quote token is filled, though it asks for four. -/
theorem quoteSeller_beyond_limit :
    ∃ after fill, executeActiveOrder (market (evenPool 1000000)) quoteSeller 1 =
        .filled after fill ∧
      fill.soldBy quoteSeller = 1000 ∧ fill.receivedBy quoteSeller = 996 ∧
      ¬fill.soldBy quoteSeller * quoteSeller.minBuyAmount ≤
        fill.receivedBy quoteSeller * quoteSeller.sellAmount := by
  have found : (routedFill quoteSeller).any (fun routed =>
      routed.2.soldBy quoteSeller == 1000 && routed.2.receivedBy quoteSeller == 996) = true := by
    decide +kernel
  rw [Option.any_eq_true] at found
  obtain ⟨⟨after, fill⟩, routed, amounts⟩ := found
  simp only [Bool.and_eq_true, beq_iff_eq] at amounts
  obtain ⟨sold, received⟩ := amounts
  refine ⟨after, fill, executeActiveOrder_of_routedFill routed, sold, received, ?_⟩
  rw [sold, received]
  decide

theorem baseSeller_within_limit :
    ∃ after fill, executeActiveOrder (market (evenPool 1000000)) baseSeller 1 =
        .filled after fill ∧
      fill.soldBy baseSeller * baseSeller.minBuyAmount ≤
        fill.receivedBy baseSeller * baseSeller.sellAmount := by
  have found : (routedFill baseSeller).isSome = true := by decide +kernel
  rw [Option.isSome_iff_exists] at found
  obtain ⟨⟨after, fill⟩, routed⟩ := found
  have ran := executeActiveOrder_of_routedFill routed
  have pool : (market (evenPool 1000000)).getAmmPool baseSeller.poolId =
      some (evenPool 1000000) := by
    decide +kernel
  have priced : OrderBook.canonicalPrice baseSeller = some 5000000000 := by decide
  exact ⟨after, fill, ran,
    (activeFill_within_iff pool (by decide) priced ran).mpr (by decide +kernel)⟩

/-! The two prices on a pool whose one reserve is almost a full word. -/

def brimPool : AmmPool := { evenPool 2700000000000000 with reserveA := 2 ^ 64 - 1000 }

def brimSeller : Order := { baseSeller with sellAmount := 10000, minBuyAmount := 1 }

/-- The swap pays out more than the reserve holds, the order is paid 1. -/
theorem brimPool_prices_differ :
    (executeSwap (market brimPool) (payIn 10000) firstContext).isSome = true ∧
      swapOutput brimPool.reserveA brimPool.reserveB brimPool.feeBps 10000 = 3001003344481605 ∧
      brimPool.reserveB = 2700000000000000 ∧
      executeActiveOrder (market brimPool) brimSeller 1 =
        .filled (routeFill (market brimPool) brimSeller brimPool 1 10000 1)
          (ammFill brimSeller 10000 1 1000000) := by
  refine ⟨by decide +kernel, by decide +kernel, rfl, ?_⟩
  have quoted : quoteRoute (market brimPool) brimSeller = .trade brimPool 10000 1 1000000 := by
    decide +kernel
  unfold executeActiveOrder
  rw [quoted]

theorem evenPool_prices_same : ∃ swapped routed fill,
      executeSwap (market (evenPool 1000000)) (payIn 1000) firstContext = some swapped ∧
      executeActiveOrder (market (evenPool 1000000)) baseSeller 1 = .filled routed fill ∧
      swapOutput 1000000 1000000 (evenPool 1000000).feeBps 1000 = fill.receivedBy baseSeller ∧
      swapped.tree.ammPools.find? 1 = routed.tree.ammPools.find? 1 := by
  have swaps : (executeSwap (market (evenPool 1000000)) (payIn 1000) firstContext).isSome = true := by
    decide +kernel
  have routes : (routedFill baseSeller).any (fun routed => routed.2.soldBy baseSeller == 1000) =
      true := by
    decide +kernel
  obtain ⟨swapped, swaps⟩ := Option.isSome_iff_exists.mp swaps
  rw [Option.any_eq_true] at routes
  obtain ⟨⟨routed, fill⟩, routed, sold⟩ := routes
  have routes := executeActiveOrder_of_routedFill routed
  have found : (market (evenPool 1000000)).getAmmPool (readU64At (payIn 1000).payload 0) =
      some (evenPool 1000000) := by
    decide +kernel
  have sides : swapSides (evenPool 1000000) 1 = some (2, 1000000, 1000000) := by decide
  have same := swap_active_same_iff found sides swaps routes rfl rfl (beq_iff_eq.mp sold)
    (by constructor <;> decide)
  exact ⟨swapped, _, fill, swaps, routes, same.mpr (Or.inl (by decide))⟩

end Regtest

/-! ## Deposits -/

/-- What an AddLiquidity transaction pays into each side of a pool. -/
def paidSides (pool : AmmPool) (tx : Transaction) : Nat × Nat :=
  if tx.tokenId = pool.tokenA then (tx.amount, readU64At tx.payload 8)
  else (readU64At tx.payload 8, tx.amount)

/-- The shares an AddLiquidity transaction gets. -/
def mintedShares (pool : AmmPool) (tx : Transaction) : Nat :=
  (addToPool pool tx.tokenId tx.amount (readU64At tx.payload 8)).2

/-- A share is worth no less of either reserve. -/
structure KeepsWorth (pool grown : AmmPool) : Prop where
  sideA : pool.reserveA * grown.totalLiquidity ≤ grown.reserveA * pool.totalLiquidity
  sideB : pool.reserveB * grown.totalLiquidity ≤ grown.reserveB * pool.totalLiquidity

section Side
variable {reserve paid total minted : Nat}

/-- Where the total of the shares fits, a side keeps its worth exactly when its reserve fits and
no more shares are minted than what is paid into it is worth. -/
theorem side_kept_iff (hasReserve : 0 < reserve) (hasTotal : 0 < total)
    (smallReserve : reserve < 2 ^ 64) (smallPaid : paid < 2 ^ 64) (totalFits : total + minted < 2 ^ 64) :
    reserve * u64 (total + minted) ≤ u64 (reserve + paid) * total ↔
      reserve + paid < 2 ^ 64 ∧ minted ≤ paid * total / reserve := by
  rw [u64_of_lt totalFits, Nat.le_div_iff_mul_le hasReserve, Nat.mul_comm minted]
  by_cases fits : reserve + paid < 2 ^ 64
  · rw [u64_of_lt fits, Nat.mul_add, Nat.add_mul]
    simp only [Nat.add_le_add_iff_left, fits, true_and]
  · -- less is shared among no fewer
    have wrapped : u64 (reserve + paid) < reserve := by
      unfold u64
      omega
    have less : u64 (reserve + paid) * total < reserve * (total + minted) :=
      calc u64 (reserve + paid) * total < reserve * total :=
            Nat.mul_lt_mul_of_pos_right wrapped hasTotal
        _ ≤ reserve * (total + minted) := Nat.mul_le_mul_left _ (Nat.le_add_right _ _)
    simp only [fits, false_and, iff_false, Nat.not_le]
    exact less

/-- Where the total wraps, fewer shares than before are left, and a reserve that fits is worth
more to each. -/
theorem side_kept_wrapped_iff (hasReserve : 0 < reserve) (smallReserve : reserve < 2 ^ 64)
    (smallTotal : total < 2 ^ 64) (smallPaid : paid < 2 ^ 64) (smallMinted : minted < 2 ^ 64)
    (wraps : ¬total + minted < 2 ^ 64) :
    reserve * u64 (total + minted) ≤ u64 (reserve + paid) * total ↔
      reserve + paid < 2 ^ 64 ∨ minted ≤ 2 ^ 64 - ((2 ^ 64 - paid) * total ⌈/⌉ reserve) := by
  have isTotal : u64 (total + minted) = total - (2 ^ 64 - minted) := by
    unfold u64
    omega
  by_cases fits : reserve + paid < 2 ^ 64
  · have fewer : reserve * u64 (total + minted) ≤ u64 (reserve + paid) * total := by
      rw [isTotal, u64_of_lt fits]
      exact Nat.mul_le_mul (Nat.le_add_right _ _) (Nat.sub_le _ _)
    exact iff_of_true fewer (Or.inl fits)
  · have isReserve : u64 (reserve + paid) = reserve - (2 ^ 64 - paid) := by
      unfold u64
      omega
    have within : reserve * (2 ^ 64 - minted) ≤ reserve * total :=
      Nat.mul_le_mul_left _ (by omega)
    have withinReserve : (2 ^ 64 - paid) * total ≤ reserve * total :=
      Nat.mul_le_mul_right _ (by omega)
    have bound : (2 ^ 64 - paid) * total ⌈/⌉ reserve ≤ 2 ^ 64 - minted ↔
        (2 ^ 64 - paid) * total ≤ reserve * (2 ^ 64 - minted) :=
      ceilDiv_le_iff_le_mul hasReserve
    rw [or_iff_right fits, isTotal, isReserve, Nat.mul_sub, Nat.sub_mul]
    omega

end Side

/-- At most `bound` shares are minted. The handler holds the amount of the token a deposit names
against reserve A and the other amount against reserve B, whichever token is named. -/
def MintsAtMost (pool : AmmPool) (tx : Transaction) (bound : Nat) : Prop :=
  u64 (tx.amount * pool.totalLiquidity) < (bound + 1) * pool.reserveA ∨
    u64 (readU64At tx.payload 8 * pool.totalLiquidity) < (bound + 1) * pool.reserveB

/-- A reserve fits its word, or wraps no further than the total of the shares. -/
def WrapsAlike (pool : AmmPool) (tx : Transaction) (reserve paid : Nat) : Prop :=
  reserve + paid < 2 ^ 64 ∨
    MintsAtMost pool tx (2 ^ 64 - ((2 ^ 64 - paid) * pool.totalLiquidity ⌈/⌉ reserve))

/-- A deposit names the lower token first, or gets no more shares than either of its amounts is
worth in the reserve it is paid into; where the total of the shares wraps, the reserves do alike. -/
structure FairDeposit (pool : AmmPool) (tx : Transaction) : Prop where
  fits : MintsAtMost pool tx (2 ^ 64 - 1 - pool.totalLiquidity) →
    (pool.reserveA + (paidSides pool tx).1 < 2 ^ 64 ∧ pool.reserveB + (paidSides pool tx).2 < 2 ^ 64) ∧
      (tx.tokenId = pool.tokenA ∨
        MintsAtMost pool tx (readU64At tx.payload 8 * pool.totalLiquidity / pool.reserveA) ∧
          MintsAtMost pool tx (tx.amount * pool.totalLiquidity / pool.reserveB))
  wraps : ¬MintsAtMost pool tx (2 ^ 64 - 1 - pool.totalLiquidity) →
    WrapsAlike pool tx pool.reserveA (paidSides pool tx).1 ∧
      WrapsAlike pool tx pool.reserveB (paidSides pool tx).2

theorem executeAddLiquidity_stored {ctx : TxExecutionContext}
    (found : state.getAmmPool (readU64At tx.payload 0) = some pool) :
    Ensures (fun after => (0 < pool.reserveA ∧ 0 < pool.reserveB) ∧
        after.tree.ammPools.find? pool.id =
          some (addToPool pool tx.tokenId tx.amount (readU64At tx.payload 8)).1)
      (executeAddLiquidity state tx ctx) := by
  simp only [executeAddLiquidity, Ensures.do_iff, Ensures.guard_eq_some_iff]
  intro _ _ other isFound _ _ _ _ _ reserves _ _ _ _
  rw [found] at isFound
  cases isFound
  rw [not_or] at reserves
  have stored (paid : StateAccess) : (paid.putAmmPool (addToPool pool tx.tokenId tx.amount
      (readU64At tx.payload 8)).1).tree.ammPools.find? pool.id =
        some (addToPool pool tx.tokenId tx.amount (readU64At tx.payload 8)).1 := by
    unfold putAmmPool
    rw [addToPool_id]
    simp [Table.find?_put]
  have positive := And.intro (Nat.pos_of_ne_zero reserves.1) (Nat.pos_of_ne_zero reserves.2)
  split
  · simp only [Ensures.pure_iff]
    exact ⟨positive, stored _⟩
  · simp only [Ensures.pure_iff]
    exact ⟨positive, stored _⟩

/-- The numbers of a deposit are words. -/
structure DepositRange (pool : AmmPool) (tx : Transaction) : Prop where
  hasShares : 0 < pool.totalLiquidity
  total : pool.totalLiquidity < 2 ^ 64
  smallA : pool.reserveA < 2 ^ 64
  smallB : pool.reserveB < 2 ^ 64
  amount : tx.amount < 2 ^ 64

theorem readU64At_lt (payload : Bytes) (offset : Nat) : readU64At payload offset < 2 ^ 64 := by
  have bound := getUInt_lt ((payload.drop offset).take 8)
  have length : ((payload.drop offset).take 8).length ≤ 8 := List.length_take_le _ _
  exact Nat.lt_of_lt_of_le bound (Nat.pow_le_pow_right (by decide) length)

theorem mintedShares_lt (pool : AmmPool) (tx : Transaction) : mintedShares pool tx < 2 ^ 64 := by
  unfold mintedShares addToPool
  dsimp only
  apply Nat.lt_of_le_of_lt (Nat.min_le_left _ _)
  apply Nat.lt_of_le_of_lt (Nat.div_le_self _ _)
  exact Nat.mod_lt _ (by decide)

theorem paidSides_lt (range : DepositRange pool tx) :
    (paidSides pool tx).1 < 2 ^ 64 ∧ (paidSides pool tx).2 < 2 ^ 64 := by
  have other : readU64At tx.payload 8 < 2 ^ 64 := readU64At_lt _ _
  unfold paidSides
  split
  · exact ⟨range.amount, other⟩
  · exact ⟨other, range.amount⟩

theorem mintedShares_le_iff {bound : Nat} (hasA : 0 < pool.reserveA) (hasB : 0 < pool.reserveB) :
    mintedShares pool tx ≤ bound ↔ MintsAtMost pool tx bound := by
  unfold mintedShares addToPool MintsAtMost
  dsimp only
  rw [min_le_iff, ← Nat.lt_succ_iff, ← Nat.lt_succ_iff, Nat.div_lt_iff_lt_mul hasA,
    Nat.div_lt_iff_lt_mul hasB]

/-- The shares of a deposit that names the lower token first are taken against the reserves it is
paid into; a product that wraps gives fewer. -/
theorem mintedShares_le_of_tokenA (names : tx.tokenId = pool.tokenA) :
    mintedShares pool tx ≤ (paidSides pool tx).1 * pool.totalLiquidity / pool.reserveA ∧
      mintedShares pool tx ≤ (paidSides pool tx).2 * pool.totalLiquidity / pool.reserveB := by
  have share (paid reserve : Nat) : u64 (paid * pool.totalLiquidity) / reserve ≤
      paid * pool.totalLiquidity / reserve :=
    Nat.div_le_div_right (Nat.mod_le _ _)
  unfold paidSides
  rw [if_pos names]
  exact ⟨(Nat.min_le_left _ _).trans (share _ _), (Nat.min_le_right _ _).trans (share _ _)⟩

/-- **A deposit leaves the worth of every share exactly when it is fair**: when it names the lower
token first, or the crossed reserves give it no more than its amounts are worth. -/
theorem addLiquidity_keepsWorth_iff {tx : Transaction} {ctx : TxExecutionContext} {grown : AmmPool}
    (found : state.getAmmPool (readU64At tx.payload 0) = some pool) (range : DepositRange pool tx)
    (ran : executeAddLiquidity state tx ctx = some after)
    (stored : after.tree.ammPools.find? pool.id = some grown) :
    KeepsWorth pool grown ↔ FairDeposit pool tx := by
  obtain ⟨⟨hasA, hasB⟩, isStored⟩ := executeAddLiquidity_stored found after ran
  have written := stored.symm.trans isStored
  cases written
  obtain ⟨isA, isB, isTotal⟩ :
      let grown := (addToPool pool tx.tokenId tx.amount (readU64At tx.payload 8)).1
      grown.reserveA = u64 (pool.reserveA + (paidSides pool tx).1) ∧
        grown.reserveB = u64 (pool.reserveB + (paidSides pool tx).2) ∧
        grown.totalLiquidity = u64 (pool.totalLiquidity + mintedShares pool tx) := by
    unfold mintedShares paidSides addToPool
    dsimp only
    split <;> exact ⟨rfl, rfl, rfl⟩
  obtain ⟨smallA, smallB⟩ := paidSides_lt range
  have minted := mintedShares_lt pool tx
  have small := range.total
  have atMost (bound : Nat) : MintsAtMost pool tx bound ↔ mintedShares pool tx ≤ bound :=
    (mintedShares_le_iff hasA hasB).symm
  have sides : KeepsWorth pool (addToPool pool tx.tokenId tx.amount (readU64At tx.payload 8)).1 ↔
      pool.reserveA * u64 (pool.totalLiquidity + mintedShares pool tx) ≤
          u64 (pool.reserveA + (paidSides pool tx).1) * pool.totalLiquidity ∧
        pool.reserveB * u64 (pool.totalLiquidity + mintedShares pool tx) ≤
          u64 (pool.reserveB + (paidSides pool tx).2) * pool.totalLiquidity := by
    rw [← isA, ← isB, ← isTotal]
    exact ⟨fun keeps => ⟨keeps.sideA, keeps.sideB⟩, fun both => ⟨both.1, both.2⟩⟩
  rw [sides]
  by_cases totalFits : pool.totalLiquidity + mintedShares pool tx < 2 ^ 64
  · have few : MintsAtMost pool tx (2 ^ 64 - 1 - pool.totalLiquidity) := by
      rw [atMost]
      omega
    rw [side_kept_iff hasA range.hasShares range.smallA smallA totalFits,
      side_kept_iff hasB range.hasShares range.smallB smallB totalFits]
    by_cases names : tx.tokenId = pool.tokenA
    · obtain ⟨worthA, worthB⟩ := mintedShares_le_of_tokenA names
      constructor
      · rintro ⟨⟨fitsA, _⟩, fitsB, _⟩
        exact ⟨fun _ => ⟨⟨fitsA, fitsB⟩, Or.inl names⟩, fun many => absurd few many⟩
      · intro fair
        obtain ⟨⟨fitsA, fitsB⟩, _⟩ := fair.fits few
        exact ⟨⟨fitsA, worthA⟩, fitsB, worthB⟩
    · have crossed : paidSides pool tx = (readU64At tx.payload 8, tx.amount) := if_neg names
      rw [crossed]
      constructor
      · rintro ⟨⟨fitsA, worthA⟩, fitsB, worthB⟩
        refine ⟨fun _ => ⟨?_, Or.inr ⟨(atMost _).mpr worthA, (atMost _).mpr worthB⟩⟩,
          fun many => absurd few many⟩
        rw [crossed]
        exact ⟨fitsA, fitsB⟩
      · intro fair
        obtain ⟨fits, named | ⟨worthA, worthB⟩⟩ := fair.fits few
        · exact absurd named names
        · rw [crossed] at fits
          exact ⟨⟨fits.1, (atMost _).mp worthA⟩, fits.2, (atMost _).mp worthB⟩
  · have many : ¬MintsAtMost pool tx (2 ^ 64 - 1 - pool.totalLiquidity) := by
      rw [atMost]
      omega
    rw [side_kept_wrapped_iff hasA range.smallA small smallA minted totalFits,
      side_kept_wrapped_iff hasB range.smallB small smallB minted totalFits, ← atMost, ← atMost]
    exact ⟨fun alike => ⟨fun few => absurd few many, fun _ => alike⟩, fun fair => fair.wraps many⟩

namespace Regtest

/-- A pool with four times as much of the higher token. -/
def steepPool : AmmPool :=
  { id := 1, tokenA := 1, tokenB := 2, reserveA := 1000, reserveB := 4000, totalLiquidity := 2000 }

def deposit (tokenId amount other : Nat) : Transaction :=
  { txType := .addLiquidity
    sender := 20
    tokenId := tokenId
    amount := amount
    payload := putU64 1 ++ putU64 other }

def deposited (tx : Transaction) : StateAccess :=
  (executeAddLiquidity (market steepPool) tx firstContext).getD {}

def depositedPool (tx : Transaction) : AmmPool :=
  ((deposited tx).tree.ammPools.find? 1).getD {}

/-- The deposit names the higher token first: its shares are taken against the wrong reserves,
and a quarter of what they are worth doubles the total. -/
theorem deposited_crosswise :
    (market steepPool).getAmmPool 1 = some steepPool ∧ DepositRange steepPool (deposit 2 1000 4000) ∧
      executeAddLiquidity (market steepPool) (deposit 2 1000 4000) firstContext =
        some (deposited (deposit 2 1000 4000)) ∧
      (deposited (deposit 2 1000 4000)).tree.ammPools.find? steepPool.id =
        some (depositedPool (deposit 2 1000 4000)) ∧
      (depositedPool (deposit 2 1000 4000)).reserveB = 5000 ∧
      (depositedPool (deposit 2 1000 4000)).totalLiquidity = 4000 ∧
      ¬KeepsWorth steepPool (depositedPool (deposit 2 1000 4000)) := by
  have reserve : (depositedPool (deposit 2 1000 4000)).reserveB = 5000 := by decide +kernel
  have total : (depositedPool (deposit 2 1000 4000)).totalLiquidity = 4000 := by decide +kernel
  refine ⟨by decide +kernel, by constructor <;> decide, by decide +kernel, by decide +kernel,
    reserve, total, ?_⟩
  intro keeps
  have worth := keeps.sideB
  rw [reserve, total] at worth
  revert worth
  decide

/-- Four of the higher token for one of the lower get a quarter of the shares they are worth. -/
theorem deposited_keepsWorth : DepositRange steepPool (deposit 2 4000 1000) ∧
      KeepsWorth steepPool (depositedPool (deposit 2 4000 1000)) := by
  have range : DepositRange steepPool (deposit 2 4000 1000) := by constructor <;> decide
  have found : (market steepPool).getAmmPool (readU64At (deposit 2 4000 1000).payload 0) =
      some steepPool := by
    decide +kernel
  have ran : executeAddLiquidity (market steepPool) (deposit 2 4000 1000) firstContext =
      some (deposited (deposit 2 4000 1000)) := by
    decide +kernel
  have stored : (deposited (deposit 2 4000 1000)).tree.ammPools.find? steepPool.id =
      some (depositedPool (deposit 2 4000 1000)) := by
    decide +kernel
  refine ⟨range, (addLiquidity_keepsWorth_iff found range ran stored).mpr ?_⟩
  have few : MintsAtMost steepPool (deposit 2 4000 1000) (2 ^ 64 - 1 - steepPool.totalLiquidity) :=
    Or.inl (by decide +kernel)
  have fair : MintsAtMost steepPool (deposit 2 4000 1000) 2000 := Or.inr (by decide +kernel)
  exact ⟨fun _ => ⟨by decide +kernel, Or.inr ⟨fair, fair⟩⟩, fun many => absurd few many⟩

end Regtest

end Clarity.Core
