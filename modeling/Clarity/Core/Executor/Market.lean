import Clarity.Core.Executor.Ledger

/-!
Contract: the handlers of `Core/TransactionExecutor.cpp` for pools and orders.

Owns: `executeCreatePool` to `executeSwap`, `validateCreateOrderStructure`, and the two order
handlers; none of them changes a nonce or the validator registry.

A division by zero, which the source does not rule out in `executeRemoveLiquidity` and
`executeSwap`, gives zero here.
-/

namespace Clarity.Core

open Common Crypto Library State State.StateAccess

namespace TransactionExecutor

variable (state : StateAccess) (tx : Transaction) (ctx : TxExecutionContext)

/-! ## Pools -/

/-- The loop of `isqrt128`: the root lies in `lo ≤ root < hi`. -/
def isqrtLoop (n : Nat) : Nat → Nat → Nat → Nat
  | 0, lo, _ => lo
  | fuel + 1, lo, hi =>
    if hi - lo > 1 then
      let mid := lo + (hi - lo) / 2
      if mid * mid ≤ n then isqrtLoop n fuel mid hi else isqrtLoop n fuel lo mid
    else lo

/-- `isqrt128`; the interval is halved 64 times. -/
def isqrt128 (n : Nat) : Nat := if n = 0 then 0 else isqrtLoop n 64 0 (2 ^ 64)

/-- The two sides of a new pool, the lower token first. -/
def poolSides (tokenA amountA tokenB amountB : Nat) : (Nat × Nat) × (Nat × Nat) :=
  if tokenA > tokenB then ((tokenB, amountB), (tokenA, amountA))
  else ((tokenA, amountA), (tokenB, amountB))

/-- The position a provider gets, under a fresh id, with its index row. -/
def openPosition (owner : Address) (poolId liquidity height : Nat) : StateAccess :=
  let nextPosId := nextIdOrOne (state.getGlobal .nextPositionId)
  let position : AmmPosition :=
    { id := nextPosId
      owner := owner
      poolId := poolId
      liquidity := liquidity
      createdAtHeight := height }
  ((state.putAmmPosition position).putPositionIndex owner poolId nextPosId).putGlobal
    .nextPositionId (nextPosId + 1)

/-- The pool a CreatePool transaction describes, if its amounts and its fee are allowed. -/
def readPool (nextId height : Nat) : Option AmmPool := do
  guard (14 ≤ tx.payload.length)
  let tokenB := readU32At tx.payload 0
  let amountB := readU64At tx.payload 4
  let feeBps := readU16At tx.payload 12
  let tokenA := u32 tx.tokenId
  guard (tokenA ≠ tokenB)
  guard (tx.amount ≠ 0 ∧ amountB ≠ 0)
  guard (feeBps ≤ AMM_MAX_FEE_BPS)
  -- the floor is in native units, so it binds the native side only
  guard (¬(tokenA = NATIVE_TOKEN_ID ∧ tx.amount < MIN_POOL_LIQUIDITY))
  guard (¬(tokenB = NATIVE_TOKEN_ID ∧ amountB < MIN_POOL_LIQUIDITY))
  let sides := poolSides tokenA tx.amount tokenB amountB
  pure
    { id := nextId
      creator := tx.sender
      tokenA := sides.1.1
      tokenB := sides.2.1
      reserveA := sides.1.2
      reserveB := sides.2.2
      totalLiquidity := isqrt128 (sides.1.2 * sides.2.2)
      feeBps := feeBps
      createdAtHeight := height
      active := true }

def executeCreatePool : Option StateAccess := do
  let nextId := nextIdOrOne (state.getGlobal .nextPoolId)
  let pool ← readPool tx nextId ctx.currentHeight
  guard (pool.isValid = true)
  guard (pool.reserveA ≤ state.balanceOf tx.sender pool.tokenA)
  guard (pool.reserveB ≤ state.balanceOf tx.sender pool.tokenB)
  let paid := (state.subBalance tx.sender pool.tokenA pool.reserveA).subBalance tx.sender pool.tokenB
    pool.reserveB
  let opened := (paid.putAmmPool pool).putGlobal .nextPoolId (nextId + 1)
  pure (openPosition opened tx.sender pool.id pool.totalLiquidity ctx.currentHeight)

/-- The pool after liquidity was added. The shares are always taken against `reserveA` for the
token sent and `reserveB` for the other one, and in 64 bits. -/
def addToPool (pool : AmmPool) (tokenIn amountIn amountB : Nat) : AmmPool × Nat :=
  let shareA := u64 (amountIn * pool.totalLiquidity) / pool.reserveA
  let shareB := u64 (amountB * pool.totalLiquidity) / pool.reserveB
  let minted := min shareA shareB
  let grown :=
    if tokenIn = pool.tokenA then
      { pool with
        reserveA := u64 (pool.reserveA + amountIn)
        reserveB := u64 (pool.reserveB + amountB) }
    else
      { pool with
        reserveB := u64 (pool.reserveB + amountIn)
        reserveA := u64 (pool.reserveA + amountB) }
  ({ grown with totalLiquidity := u64 (pool.totalLiquidity + minted) }, minted)

/-- The position an owner already has in a pool. -/
def existingPosition (owner : Address) (poolId : Nat) : Option AmmPosition := do
  let positionId ← state.getPositionIndex owner poolId
  state.getAmmPosition positionId

def executeAddLiquidity : Option StateAccess := do
  guard (16 ≤ tx.payload.length)
  let poolId := readU64At tx.payload 0
  let amountB := readU64At tx.payload 8
  let pool ← state.getAmmPool poolId
  guard (pool.active = true)
  let tokenIn := tx.tokenId
  let tokenOther := if tokenIn = pool.tokenA then pool.tokenB else pool.tokenA
  guard (¬(tokenIn ≠ pool.tokenA ∧ tokenIn ≠ pool.tokenB))
  guard (¬(pool.reserveA = 0 ∨ pool.reserveB = 0))
  guard (tx.amount ≤ state.balanceOf tx.sender tokenIn)
  guard (amountB ≤ state.balanceOf tx.sender tokenOther)
  let paid := (state.subBalance tx.sender tokenIn tx.amount).subBalance tx.sender tokenOther amountB
  let grown := addToPool pool tokenIn tx.amount amountB
  let stored := paid.putAmmPool grown.1
  match existingPosition stored tx.sender poolId with
  | some position =>
    pure (stored.putAmmPosition { position with liquidity := u64 (position.liquidity + grown.2) })
  | none => pure (openPosition stored tx.sender poolId grown.2 ctx.currentHeight)

/-- The shares of the reserves an amount of liquidity stands for; the last one takes all. -/
def liquidityShares (pool : AmmPool) (amount : Nat) : Nat × Nat :=
  if amount = pool.totalLiquidity then (pool.reserveA, pool.reserveB)
  else
    (u64 (amount * pool.reserveA / pool.totalLiquidity),
      u64 (amount * pool.reserveB / pool.totalLiquidity))

/-- The position after a removal; its index row goes with the last liquidity of the pool. -/
def shrinkPosition (position : AmmPosition) (amount : Nat) (isLastRemoval : Bool) : StateAccess :=
  if isLastRemoval then
    (state.putAmmPosition { position with liquidity := 0 }).deletePositionIndex position.owner
      position.poolId
  else state.putAmmPosition { position with liquidity := position.liquidity - amount }

def executeRemoveLiquidity : Option StateAccess := do
  guard (tx.payload.length = 16)
  let positionId := readU64At tx.payload 0
  let requestedAmount := readU64At tx.payload 8
  let position ← state.getAmmPosition positionId
  guard (position.owner = tx.sender)
  guard (position.liquidity ≠ 0)
  let amount := if requestedAmount = 0 then position.liquidity else requestedAmount
  guard (amount ≤ position.liquidity)
  let pool ← state.getAmmPool position.poolId
  let shares := liquidityShares pool amount
  let shrunk :=
    { pool with
      reserveA := sub64 pool.reserveA shares.1
      reserveB := sub64 pool.reserveB shares.2
      totalLiquidity := sub64 pool.totalLiquidity amount }
  let paid := ((state.putAmmPool shrunk).addBalance tx.sender pool.tokenA shares.1).addBalance
    tx.sender pool.tokenB shares.2
  let left := shrinkPosition paid position amount (amount = pool.totalLiquidity)
  pure (if shrunk.isClosed then left.deleteAmmPool pool.id else left)

/-- The reserves a swap of `tokenIn` trades against, with the token that comes out. -/
def swapSides (pool : AmmPool) (tokenIn : Nat) : Option (Nat × Nat × Nat) :=
  if tokenIn = pool.tokenA then some (pool.tokenB, pool.reserveA, pool.reserveB)
  else if tokenIn = pool.tokenB then some (pool.tokenA, pool.reserveB, pool.reserveA)
  else none

/-- The output of a swap; the divisor is taken in 64 bits. -/
def swapOutput (reserveIn reserveOut feeBps amountIn : Nat) : Nat :=
  let amountInWithFee := u64 (amountIn * (10000 - feeBps) / 10000)
  u64 (reserveOut * amountInWithFee / u64 (reserveIn + amountInWithFee))

def executeSwap : Option StateAccess := do
  guard (16 ≤ tx.payload.length)
  let poolId := readU64At tx.payload 0
  let minAmountOut := readU64At tx.payload 8
  let pool ← state.getAmmPool poolId
  guard (pool.active = true)
  let (tokenOut, reserveIn, reserveOut) ← swapSides pool tx.tokenId
  guard (tx.amount ≤ state.balanceOf tx.sender tx.tokenId)
  let amountOut := swapOutput reserveIn reserveOut pool.feeBps tx.amount
  guard (minAmountOut ≤ amountOut)
  let paid := (state.subBalance tx.sender tx.tokenId tx.amount).addBalance tx.recipient tokenOut
    amountOut
  let traded := pool.recordVolume ctx.currentHeight (pool.clrtyVolume tx.tokenId tx.amount)
  pure (paid.putAmmPool (traded.moveReserves tx.tokenId tx.amount amountOut))

/-! ## Orders -/

/-- The order a CreateOrder payload describes; id, owner and heights are filled in later. -/
def readOrder : Option Order := do
  guard (26 ≤ tx.payload.length)
  let mode := readU8At tx.payload 12
  let conditionCount := readU8At tx.payload 25
  guard (conditionCount ≤ ORDER_MAX_CONDITIONS)
  guard (mode = OrderExecutionMode.passive.code ∨ mode = OrderExecutionMode.active.code)
  let conditions ← OrderCondition.readConditions tx.payload conditionCount 26
  pure
    { mode := if mode = OrderExecutionMode.active.code then .active else .passive
      poolId := readU32At tx.payload 13
      sellToken := u32 tx.tokenId
      buyToken := readU32At tx.payload 0
      sellAmount := tx.amount
      minBuyAmount := readU64At tx.payload 4
      orderExpiresAtHeight := readU64At tx.payload 17
      conditions := conditions }

/-- `validateCreateOrderStructure`, with the order it parsed. -/
def validateCreateOrderStructure : Option Order := do
  let order ← readOrder tx
  guard (if order.mode = .active then order.poolId ≠ 0 else order.poolId = 0)
  guard (tx.tokenId ≠ order.buyToken)
  guard (tx.amount ≠ 0)
  guard (order.minBuyAmount ≠ 0)
  guard (order.mode = .passive → (OrderBook.canonicalPrice order).isSome = true)
  pure order

/-- The check of the pool an active order without conditions is routed through at once. -/
def routable (order : Order) : Bool :=
  match state.getAmmPool order.poolId with
  | none => false
  | some pool =>
    pool.active && (routeReserves pool order).isSome && !(pool.reserveA == 0 || pool.reserveB == 0)

/-- The execution of a new order whose record is stored. -/
def placeOrder (order : Order) (height : Nat) : Option (StateAccess × List Fill) :=
  if order.mode = .passive then some (matchPassiveOrder state order)
  else if order.conditions.isEmpty then
    match executeActiveOrder state order height with
    | .filled routed fill => some (routed, [fill])
    | .rested => some (state, [])
    | .unroutable => none
  else some (state, [])

/-- An order that still exists after its execution enters the expiry index. -/
def indexExpiry (order : Order) : StateAccess :=
  if (state.getOrder order.id).isSome ∧ order.orderExpiresAtHeight ≠ 0 then
    state.addOrderExpiry order.orderExpiresAtHeight order.id
  else state

def executeCreateOrder : Option (StateAccess × List Fill) := do
  let parsed ← validateCreateOrderStructure tx
  let nextId := (state.getGlobal .nextOrderId).getD 1
  let order : Order :=
    { parsed with id := nextId, owner := tx.sender, createdAtHeight := ctx.currentHeight }
  guard (order.isValid = true)
  guard (tx.amount ≤ state.balanceOf tx.sender tx.tokenId)
  guard (order.mode = .active ∧ order.conditions = [] → routable state order = true)
  let locked := (state.subBalance tx.sender tx.tokenId tx.amount).putOrder order
  let (placed, fills) ← placeOrder locked order ctx.currentHeight
  pure ((indexExpiry placed order).putGlobal .nextOrderId (nextId + 1), fills)

def executeCancelOrder : Option StateAccess := do
  guard (8 ≤ tx.payload.length)
  let order ← state.getOrder (readU64At tx.payload 0)
  guard (order.owner = tx.sender)
  let refund := order.remainingAmount
  let refunded :=
    if refund > 0 then state.addBalance tx.sender order.sellToken refund else state
  pure (refunded.deleteRestingOrder order)

/-! ## What the handlers can change -/

variable {before : StateAccess} {state tx ctx}

@[simp] theorem within_openPosition {parts : List Part} {owner : Address}
    {poolId liquidity height : Nat} (member : .positions ∈ parts) :
    Peels parts state (openPosition state owner poolId liquidity height) := by
  simp [openPosition, member]

theorem executeCreatePool_within : Ensures (Within [.accounts, .balances, .pools, .positions] state)
      (executeCreatePool state tx ctx) := by
  simp [executeCreatePool]

theorem executeAddLiquidity_within :
    Ensures (Within [.accounts, .balances, .pools, .positions] state)
      (executeAddLiquidity state tx ctx) := by
  simp only [executeAddLiquidity, Ensures.do_iff]
  intros
  split <;> simp

theorem executeRemoveLiquidity_within :
    Ensures (Within [.accounts, .balances, .pools, .positions] state)
      (executeRemoveLiquidity state tx) := by
  simp [executeRemoveLiquidity, shrinkPosition]

theorem executeSwap_within :
    Ensures (Within [.accounts, .balances, .pools] state) (executeSwap state tx ctx) := by
  simp [executeSwap]

theorem placeOrder_within {order : Order} {height : Nat} (keeps : Within orderParts before state) :
    Ensures (fun placed => Within orderParts before placed.1) (placeOrder state order height) := by
  unfold placeOrder
  split
  · simpa using matchPassiveOrder_within keeps
  · split
    · split
      next routed => simpa using executeActiveOrder_within routed keeps
      · simpa using keeps
      · simp
    · simpa using keeps

@[simp] theorem within_indexExpiry {parts : List Part} {order : Order} :
    Peels parts state (indexExpiry state order) := by
  unfold indexExpiry
  split <;> simp

theorem executeCreateOrder_within :
    Ensures (fun done => Within orderParts state done.1) (executeCreateOrder state tx ctx) := by
  simp only [executeCreateOrder, Ensures.do_iff, Ensures.pure_iff]
  intro parsed _ _ _ _ _ _ _ placed ran
  have kept : Within orderParts state placed.1 := placeOrder_within (by simp) placed ran
  simp [kept]

theorem executeCancelOrder_within :
    Ensures (Within [.accounts, .balances, .book] state) (executeCancelOrder state tx) := by
  simp [executeCancelOrder]

end TransactionExecutor

end Clarity.Core
