import Clarity.Core.Chain
import Clarity.Core.MarketRecords
import Clarity.Library.Fault

/-!
Contract: the divisions of the handlers for pools and orders.

Owns: the handlers of `executeCreatePool` to `executeCreateOrder` once more, with every division
of the source as a step that faults on a zero divisor; that they do what the handlers without
faults do; and the two divisions that can fault.

The other handlers divide by constants only.
-/

namespace Clarity.Core.Checked

open Common Crypto Library Library.Faulty State

variable (crypto : Primitives) (state : StateAccess) (tx : Transaction) (ctx : TxExecutionContext)
open State.StateAccess

/-! ## Prices -/

def canonicalPrice (order : Order) : Faulty (Option Nat) :=
  if order.sellAmount = 0 ∨ order.minBuyAmount = 0 then pure none
  else if order.sellToken < order.buyToken then
    let num := order.minBuyAmount * OrderBook.BOOK_PRICE_SCALE
    if num > UINT64_MAX then pure none
    else do
      let price ← divide num order.sellAmount
      pure (some price)
  else
    let num := order.sellAmount * OrderBook.BOOK_PRICE_SCALE
    if num > UINT64_MAX then pure none
    else do
      let floor ← divide num order.minBuyAmount
      let rest ← remainder num order.minBuyAmount
      pure (some (floor + if rest ≠ 0 then 1 else 0))

def sellAmountToBase (sellAmount : Nat) (orderSellsBase : Bool) (price : Nat) : Faulty Nat :=
  if orderSellsBase then pure sellAmount
  else if price = 0 then pure 0
  else do
    let quotient ← divide (sellAmount * OrderBook.BOOK_PRICE_SCALE) price
    pure (if quotient > UINT64_MAX then 0 else quotient)

def baseToSellAmount (baseAmount : Nat) (orderSellsBase : Bool) (price : Nat) : Faulty Nat :=
  if orderSellsBase then pure baseAmount
  else do
    let quotient ← divide (baseAmount * price) OrderBook.BOOK_PRICE_SCALE
    pure (if quotient > UINT64_MAX then 0 else quotient)

def maxInputWithinLimit (reserveIn reserveOut feeBps limitPriceScaled : Nat) :
    Faulty (Option Nat) :=
  if reserveIn = 0 ∨ reserveOut = 0 then pure none
  else if feeBps ≥ 10000 then pure none
  else if limitPriceScaled = 0 then pure none
  else if reserveOut * OrderBook.BOOK_PRICE_SCALE ≤ limitPriceScaled * reserveIn then pure none
  else do
    let bScaled ← divide (reserveOut * OrderBook.BOOK_PRICE_SCALE) limitPriceScaled
    let aAdj ← divide (reserveIn * 10000) (10000 - feeBps)
    if bScaled ≤ aAdj then pure none
    else
      let yFull := bScaled - aAdj
      if yFull = 0 then pure none else if yFull > UINT64_MAX then pure none else pure (some yFull)

def computeOutput (reserveIn reserveOut feeBps amountIn : Nat) : Faulty Nat :=
  if reserveIn = 0 ∨ reserveOut = 0 ∨ amountIn = 0 then pure 0
  else do
    let amountInWithFee ← divide (amountIn * (10000 - feeBps)) 10000
    if reserveIn + amountInWithFee = 0 then pure 0
    else do
      let quotient ← divide (reserveOut * amountInWithFee) (reserveIn + amountInWithFee)
      pure (u64 quotient)

def computeEffectivePrice (reserveIn reserveOut feeBps amountIn : Nat) : Faulty Nat :=
  if amountIn = 0 then pure 0
  else do
    let out ← computeOutput reserveIn reserveOut feeBps amountIn
    if out = 0 then pure 0
    else do
      let price ← divide (out * OrderBook.BOOK_PRICE_SCALE) amountIn
      pure (if price > UINT64_MAX then 0 else price)

def clrtyVolume (pool : AmmPool) (tokenIn amountIn : Nat) : Faulty Nat :=
  if tokenIn = NATIVE_TOKEN_ID then pure amountIn
  else if pool.tokenA = NATIVE_TOKEN_ID ∧ pool.reserveB > 0 then do
    let quotient ← divide (amountIn * pool.reserveA) pool.reserveB
    pure (u64 quotient)
  else if pool.tokenB = NATIVE_TOKEN_ID ∧ pool.reserveA > 0 then do
    let quotient ← divide (amountIn * pool.reserveB) pool.reserveA
    pure (u64 quotient)
  else pure 0

/-! Each of these divides only after it has tested the divisor. -/

@[simp] theorem canonicalPrice_eq (order : Order) :
    canonicalPrice order = value (OrderBook.canonicalPrice order) := by
  unfold canonicalPrice OrderBook.canonicalPrice
  split
  · rfl
  next positive =>
    rw [not_or] at positive
    dsimp only
    rw [divide_of_ne positive.1, divide_of_ne positive.2, remainder_of_ne positive.2]
    simp only [value_bind, pure_eq]
    split <;> split <;> rfl

@[simp] theorem sellAmountToBase_eq (sellAmount : Nat) (orderSellsBase : Bool) (price : Nat) :
    sellAmountToBase sellAmount orderSellsBase price =
      value (Core.sellAmountToBase sellAmount orderSellsBase price) := by
  unfold sellAmountToBase Core.sellAmountToBase
  split
  · rfl
  · split
    · rfl
    next positive =>
      rw [divide_of_ne positive]
      rfl

@[simp] theorem baseToSellAmount_eq (baseAmount : Nat) (orderSellsBase : Bool) (price : Nat) :
    baseToSellAmount baseAmount orderSellsBase price =
      value (Core.baseToSellAmount baseAmount orderSellsBase price) := by
  unfold baseToSellAmount Core.baseToSellAmount
  split
  · rfl
  · have scale : OrderBook.BOOK_PRICE_SCALE ≠ 0 := by simp [OrderBook.BOOK_PRICE_SCALE]
    dsimp only
    rw [divide_of_ne scale, value_bind, pure_eq]

@[simp] theorem maxInputWithinLimit_eq (reserveIn reserveOut feeBps limit : Nat) :
    maxInputWithinLimit reserveIn reserveOut feeBps limit =
      value (ActiveRouter.maxInputWithinLimit reserveIn reserveOut feeBps limit) := by
  unfold maxInputWithinLimit ActiveRouter.maxInputWithinLimit
  dsimp only
  split
  · rfl
  · split
    · rfl
    next feeBound =>
      split
      · rfl
      next positive =>
        split
        · rfl
        · have feeLeft : 10000 - feeBps ≠ 0 := by omega
          rw [divide_of_ne positive, divide_of_ne feeLeft]
          simp only [value_bind, pure_eq, ← apply_ite value]

@[simp] theorem computeOutput_eq (reserveIn reserveOut feeBps amountIn : Nat) :
    computeOutput reserveIn reserveOut feeBps amountIn =
      value (ActiveRouter.computeOutput reserveIn reserveOut feeBps amountIn) := by
  unfold computeOutput ActiveRouter.computeOutput
  split
  · rfl
  next positive =>
    have base : (10000 : Nat) ≠ 0 := by decide
    have sum (input : Nat) : reserveIn + input ≠ 0 := by omega
    rw [divide_of_ne base, value_bind, if_neg (sum _), divide_of_ne (sum _), value_bind, pure_eq]

@[simp] theorem computeEffectivePrice_eq (reserveIn reserveOut feeBps amountIn : Nat) :
    computeEffectivePrice reserveIn reserveOut feeBps amountIn =
      value (ActiveRouter.computeEffectivePrice reserveIn reserveOut feeBps amountIn) := by
  unfold computeEffectivePrice ActiveRouter.computeEffectivePrice
  split
  · rfl
  next positive =>
    rw [computeOutput_eq, value_bind]
    dsimp only
    split
    · rfl
    · rw [divide_of_ne positive]
      rfl

@[simp] theorem clrtyVolume_eq (pool : AmmPool) (tokenIn amountIn : Nat) :
    clrtyVolume pool tokenIn amountIn = value (pool.clrtyVolume tokenIn amountIn) := by
  unfold clrtyVolume AmmPool.clrtyVolume
  split
  · rfl
  · split
    next sells =>
      rw [divide_of_ne (Nat.ne_of_gt sells.2)]
      rfl
    · split
      next sells =>
        rw [divide_of_ne (Nat.ne_of_gt sells.2)]
        rfl
      · rfl

/-! ## Orders -/

/-- A row of the book is written or removed under a key that holds the price of its order. -/
def withRow {α : Type} (order : Order) (result : α) : Faulty α := do
  let _ ← canonicalPrice order
  pure result

def tryFill (matching : Matching) (maker : Order) (price : Nat) : Faulty (Option Matching) := do
  let taker := matching.taker
  let takerBase ← sellAmountToBase taker.remainingAmount (sellsBase taker) price
  let makerBase ← sellAmountToBase maker.remainingAmount (sellsBase maker) price
  let qtyBase := min takerBase makerBase
  if qtyBase = 0 then pure none
  else do
    let qtyTakerSell ← baseToSellAmount qtyBase (sellsBase taker) price
    let qtyMakerSell ← baseToSellAmount qtyBase (sellsBase maker) price
    if qtyTakerSell = 0 ∨ qtyMakerSell = 0 then pure none
    else
      withRow (recordFill maker qtyMakerSell)
        (some (executeFill matching maker price qtyBase qtyTakerSell qtyMakerSell))

def matchCandidate (takerLimit : Nat) (matching : Matching) (candidate : Nat × Nat) :
    Faulty (Option Matching) :=
  let taker := matching.taker
  let side := OrderBook.sideOf taker
  if taker.isFullyFilled then pure none
  else if OrderBook.crosses takerLimit candidate.2 side = false then pure none
  else match matching.state.getOrder candidate.1 with
  | none => pure (some matching)
  | some maker =>
    if isNull maker.owner then
      withRow maker (some { matching with
        state := (matching.state.removeFromOrderBook maker).deleteOrder maker.id })
    else if maker.owner = taker.owner then
      withRow maker (some { matching with state := matching.state.refundOrder maker true })
    else do
      match ← canonicalPrice maker with
      | none => pure (some matching)
      | some price =>
        if OrderBook.crosses takerLimit price side = false then pure none
        else tryFill matching maker price

def matchLoop (takerLimit : Nat) : List (Nat × Nat) → Matching → Faulty Matching
  | [], matching => pure matching
  | candidate :: rest, matching => do
    match ← matchCandidate takerLimit matching candidate with
    | none => pure matching
    | some next => matchLoop takerLimit rest next

def matchPassiveOrder (taker : Order) : Faulty (StateAccess × List Fill) :=
  if taker.id = INVALID_ID ∨ isNull taker.owner = true ∨ taker.isFullyFilled = true ∨
      taker.mode ≠ .passive then pure (state, [])
  else do
    match ← canonicalPrice taker with
    | none => pure (state, [])
    | some takerLimit =>
      let candidates :=
        (state.bookLevels taker.sellToken taker.buyToken (1 - OrderBook.sideOf taker)).take
          OrderBook.MAX_BOOK_LEVELS_PER_TAKER
      let matched ← matchLoop takerLimit candidates
        { state := state, taker := taker, fills := [] }
      withRow matched.taker (persistTaker matched, matched.fills)

def quoteWithin (pool : AmmPool) (order : Order) (reserveIn reserveOut limit : Nat) :
    Faulty RouteQuote := do
  match ← maxInputWithinLimit reserveIn reserveOut pool.feeBps limit with
  | none => pure .rested
  | some maxIn =>
    let amountIn := min maxIn order.remainingAmount
    let amountOut ← computeOutput reserveIn reserveOut pool.feeBps amountIn
    if maxIn = 0 ∨ amountIn = 0 ∨ amountOut = 0 then pure .rested
    else do
      let effectivePrice ← computeEffectivePrice reserveIn reserveOut pool.feeBps amountIn
      pure (.trade pool amountIn amountOut effectivePrice)

def quoteRoute (order : Order) : Faulty RouteQuote :=
  if order.mode ≠ .active ∨ order.poolId = 0 ∨ isNull order.owner = true ∨
      order.isFullyFilled = true then pure .unroutable
  else match state.getAmmPool order.poolId with
  | none => pure .unroutable
  | some pool =>
    if pool.active = false then pure .unroutable
    else match routeReserves pool order with
    | none => pure .unroutable
    | some (reserveIn, reserveOut) =>
      if reserveIn = 0 ∨ reserveOut = 0 then pure .unroutable
      else do
        match ← canonicalPrice order with
        | none => pure .unroutable
        | some limit => quoteWithin pool order reserveIn reserveOut limit

def executeActiveOrder (order : Order) (height : Nat) : Faulty ActiveRouteOutcome := do
  match ← quoteRoute state order with
  | .unroutable => pure .unroutable
  | .rested => pure .rested
  | .trade pool amountIn amountOut effectivePrice =>
    let _ ← clrtyVolume pool order.sellToken amountIn
    pure (.filled (routeFill state order pool height amountIn amountOut)
      (ammFill order amountIn amountOut effectivePrice))

@[simp] theorem withRow_eq {α : Type} (order : Order) (result : α) :
    withRow order result = value result := by
  simp [withRow]

@[simp] theorem tryFill_eq (matching : Matching) (maker : Order) (price : Nat) :
    tryFill matching maker price = value (Core.tryFill matching maker price) := by
  simp only [tryFill, sellAmountToBase_eq, baseToSellAmount_eq, withRow_eq, value_bind, pure_eq]
  unfold Core.tryFill
  dsimp only
  split
  · rfl
  · split <;> rfl

@[simp] theorem matchCandidate_eq (takerLimit : Nat) (matching : Matching)
    (candidate : Nat × Nat) :
    matchCandidate takerLimit matching candidate =
      value (Core.matchCandidate takerLimit matching candidate) := by
  simp only [matchCandidate, canonicalPrice_eq, tryFill_eq, withRow_eq, value_bind, pure_eq]
  unfold Core.matchCandidate
  dsimp only
  split
  · rfl
  · split
    · rfl
    · cases matching.state.getOrder candidate.1 with
      | none => rfl
      | some maker =>
        dsimp only
        split
        · rfl
        · split
          · rfl
          · cases OrderBook.canonicalPrice maker with
            | none => rfl
            | some price =>
              dsimp only
              split <;> rfl

/-- The loop faults at no candidate. -/
@[simp] theorem matchLoop_eq (takerLimit : Nat) (candidates : List (Nat × Nat))
    (matching : Matching) :
    matchLoop takerLimit candidates matching =
      value (Core.matchLoop takerLimit candidates matching) := by
  induction candidates generalizing matching with
  | nil => rfl
  | cons candidate rest ih =>
    unfold matchLoop Core.matchLoop
    rw [matchCandidate_eq, value_bind]
    cases Core.matchCandidate takerLimit matching candidate with
    | none => rfl
    | some next => exact ih next

@[simp] theorem matchPassiveOrder_eq (state : StateAccess) (taker : Order) :
    matchPassiveOrder state taker = value (Core.matchPassiveOrder state taker) := by
  simp only [matchPassiveOrder, canonicalPrice_eq, matchLoop_eq, withRow_eq, value_bind, pure_eq]
  unfold Core.matchPassiveOrder
  split
  · rfl
  · cases OrderBook.canonicalPrice taker <;> rfl

@[simp] theorem quoteWithin_eq (pool : AmmPool) (order : Order)
    (reserveIn reserveOut limit : Nat) :
    quoteWithin pool order reserveIn reserveOut limit =
      value (Core.quoteWithin pool order reserveIn reserveOut limit) := by
  simp only [quoteWithin, maxInputWithinLimit_eq, computeOutput_eq, computeEffectivePrice_eq,
    value_bind, pure_eq]
  unfold Core.quoteWithin
  cases ActiveRouter.maxInputWithinLimit reserveIn reserveOut pool.feeBps limit with
  | none => rfl
  | some maxIn =>
    dsimp only
    split <;> rfl

@[simp] theorem quoteRoute_eq (state : StateAccess) (order : Order) :
    quoteRoute state order = value (Core.quoteRoute state order) := by
  simp only [quoteRoute, quoteWithin_eq, canonicalPrice_eq, value_bind, pure_eq]
  unfold Core.quoteRoute
  split
  · rfl
  · cases state.getAmmPool order.poolId with
    | none => rfl
    | some pool =>
      dsimp only
      split
      · rfl
      · cases routeReserves pool order with
        | none => rfl
        | some reserves =>
          dsimp only
          split
          · rfl
          · cases OrderBook.canonicalPrice order <;> rfl

@[simp] theorem executeActiveOrder_eq (state : StateAccess) (order : Order) (height : Nat) :
    executeActiveOrder state order height =
      value (Core.executeActiveOrder state order height) := by
  simp only [executeActiveOrder, quoteRoute_eq, clrtyVolume_eq, value_bind, pure_eq]
  unfold Core.executeActiveOrder
  cases Core.quoteRoute state order <;> rfl

/-! ## Handlers -/

def check (condition : Prop) [Decidable condition] : Faulty Unit := lift (guard condition)

def validateCreateOrderStructure : Faulty Order := do
  let order ← lift (TransactionExecutor.readOrder tx)
  check (if order.mode = .active then order.poolId ≠ 0 else order.poolId = 0)
  check (tx.tokenId ≠ order.buyToken)
  check (tx.amount ≠ 0)
  check (order.minBuyAmount ≠ 0)
  let price ← canonicalPrice order
  check (order.mode = .passive → price.isSome = true)
  pure order

def placeOrder (order : Order) (height : Nat) : Faulty (StateAccess × List Fill) :=
  if order.mode = .passive then matchPassiveOrder state order
  else if order.conditions.isEmpty then do
    match ← executeActiveOrder state order height with
    | .filled routed fill => pure (routed, [fill])
    | .rested => pure (state, [])
    | .unroutable => refused
  else pure (state, [])

def executeCreateOrder : Faulty (StateAccess × List Fill) := do
  let parsed ← validateCreateOrderStructure tx
  let nextId := (state.getGlobal .nextOrderId).getD 1
  let order : Order :=
    { parsed with id := nextId, owner := tx.sender, createdAtHeight := ctx.currentHeight }
  check (order.isValid = true)
  check (tx.amount ≤ state.balanceOf tx.sender tx.tokenId)
  check (order.mode = .active ∧ order.conditions = [] →
    TransactionExecutor.routable state order = true)
  let locked := (state.subBalance tx.sender tx.tokenId tx.amount).putOrder order
  let done ← placeOrder locked order ctx.currentHeight
  pure ((TransactionExecutor.indexExpiry done.1 order).putGlobal .nextOrderId (nextId + 1), done.2)

/-- The two shares of `addToPool`; the rest of it does not divide. -/
def addToPool (pool : AmmPool) (tokenIn amountIn amountB : Nat) : Faulty (AmmPool × Nat) := do
  let _ ← divide (u64 (amountIn * pool.totalLiquidity)) pool.reserveA
  let _ ← divide (u64 (amountB * pool.totalLiquidity)) pool.reserveB
  pure (TransactionExecutor.addToPool pool tokenIn amountIn amountB)

def executeAddLiquidity : Faulty StateAccess := do
  check (16 ≤ tx.payload.length)
  let poolId := readU64At tx.payload 0
  let amountB := readU64At tx.payload 8
  let pool ← lift (state.getAmmPool poolId)
  check (pool.active = true)
  let tokenIn := tx.tokenId
  let tokenOther := if tokenIn = pool.tokenA then pool.tokenB else pool.tokenA
  check (¬(tokenIn ≠ pool.tokenA ∧ tokenIn ≠ pool.tokenB))
  check (¬(pool.reserveA = 0 ∨ pool.reserveB = 0))
  check (tx.amount ≤ state.balanceOf tx.sender tokenIn)
  check (amountB ≤ state.balanceOf tx.sender tokenOther)
  let paid := (state.subBalance tx.sender tokenIn tx.amount).subBalance tx.sender tokenOther amountB
  let grown ← addToPool pool tokenIn tx.amount amountB
  let stored := paid.putAmmPool grown.1
  match TransactionExecutor.existingPosition stored tx.sender poolId with
  | some position =>
    pure (stored.putAmmPosition { position with liquidity := u64 (position.liquidity + grown.2) })
  | none =>
    pure (TransactionExecutor.openPosition stored tx.sender poolId grown.2 ctx.currentHeight)

def liquidityShares (pool : AmmPool) (amount : Nat) : Faulty (Nat × Nat) :=
  if amount = pool.totalLiquidity then pure (pool.reserveA, pool.reserveB)
  else do
    let shareA ← divide (amount * pool.reserveA) pool.totalLiquidity
    let shareB ← divide (amount * pool.reserveB) pool.totalLiquidity
    pure (u64 shareA, u64 shareB)

def executeRemoveLiquidity : Faulty StateAccess := do
  check (tx.payload.length = 16)
  let positionId := readU64At tx.payload 0
  let requestedAmount := readU64At tx.payload 8
  let position ← lift (state.getAmmPosition positionId)
  check (position.owner = tx.sender)
  check (position.liquidity ≠ 0)
  let amount := if requestedAmount = 0 then position.liquidity else requestedAmount
  check (amount ≤ position.liquidity)
  let pool ← lift (state.getAmmPool position.poolId)
  let shares ← liquidityShares pool amount
  let shrunk :=
    { pool with
      reserveA := sub64 pool.reserveA shares.1
      reserveB := sub64 pool.reserveB shares.2
      totalLiquidity := sub64 pool.totalLiquidity amount }
  let paid := ((state.putAmmPool shrunk).addBalance tx.sender pool.tokenA shares.1).addBalance
    tx.sender pool.tokenB shares.2
  let left := TransactionExecutor.shrinkPosition paid position amount (amount = pool.totalLiquidity)
  pure (if shrunk.isClosed then left.deleteAmmPool pool.id else left)

def swapOutput (reserveIn reserveOut feeBps amountIn : Nat) : Faulty Nat := do
  let withFee ← divide (amountIn * (10000 - feeBps)) 10000
  let quotient ← divide (reserveOut * u64 withFee) (u64 (reserveIn + u64 withFee))
  pure (u64 quotient)

def executeSwap : Faulty StateAccess := do
  check (16 ≤ tx.payload.length)
  let poolId := readU64At tx.payload 0
  let minAmountOut := readU64At tx.payload 8
  let pool ← lift (state.getAmmPool poolId)
  check (pool.active = true)
  let sides ← lift (TransactionExecutor.swapSides pool tx.tokenId)
  check (tx.amount ≤ state.balanceOf tx.sender tx.tokenId)
  let amountOut ← swapOutput sides.2.1 sides.2.2 pool.feeBps tx.amount
  check (minAmountOut ≤ amountOut)
  let paid := (state.subBalance tx.sender tx.tokenId tx.amount).addBalance tx.recipient sides.1
    amountOut
  let volume ← clrtyVolume pool tx.tokenId tx.amount
  let traded := pool.recordVolume ctx.currentHeight volume
  pure (paid.putAmmPool (traded.moveReserves tx.tokenId tx.amount amountOut))

/-- The pool handler's only division is the halving in `isqrt128`. -/
def dispatch : Faulty (StateAccess × List Fill) :=
  let unfilled (run : Faulty StateAccess) : Faulty (StateAccess × List Fill) := do
    let after ← run
    pure (after, [])
  match tx.txType with
  | .addLiquidity => unfilled (executeAddLiquidity state tx ctx)
  | .removeLiquidity => unfilled (executeRemoveLiquidity state tx)
  | .swap => unfilled (executeSwap state tx ctx)
  | .createOrder => executeCreateOrder state tx ctx
  | _ => lift (TransactionExecutor.dispatch crypto state tx ctx)

/-- The checks at the head of `execute`, with the state after the fee. -/
def head : Option StateAccess := do
  guard (tx.isWellFormed = true)
  guard (tx.chainId = ctx.chainId)
  guard (TransactionExecutor.checkExpiry tx ctx = true)
  guard (TransactionExecutor.verifySignature crypto tx = true)
  guard (TransactionExecutor.verifyNonce state tx = true)
  TransactionExecutor.chargeFee state tx

def execute : Faulty (StateAccess × Receipt) := do
  let charged ← lift (head crypto state tx ctx)
  let done ← dispatch crypto charged tx ctx
  pure (TransactionExecutor.bumpNonce done.1 tx,
    { status := .success, feePaid := tx.fee, fills := done.2 })

/-! ## Agreement -/

variable {crypto state tx ctx}

theorem placeOrder_eq (order : Order) (height : Nat) :
    placeOrder state order height = lift (TransactionExecutor.placeOrder state order height) := by
  unfold placeOrder TransactionExecutor.placeOrder
  split
  · exact matchPassiveOrder_eq state order
  · split
    · rw [executeActiveOrder_eq, value_bind]
      cases Core.executeActiveOrder state order height <;> rfl
    · rfl

theorem executeCreateOrder_eq :
    executeCreateOrder state tx ctx = lift (TransactionExecutor.executeCreateOrder state tx ctx) := by
  have structure_eq : validateCreateOrderStructure tx =
      lift (TransactionExecutor.validateCreateOrderStructure tx) := by
    simp only [validateCreateOrderStructure, canonicalPrice_eq, value_bind, check,
      TransactionExecutor.validateCreateOrderStructure, Option.bind_eq_bind, lift_bind]
    rfl
  simp only [executeCreateOrder, structure_eq, placeOrder_eq, check,
    TransactionExecutor.executeCreateOrder, Option.bind_eq_bind, lift_bind]
  rfl

theorem executeAddLiquidity_erases : (executeAddLiquidity state tx ctx).Erases
      (TransactionExecutor.executeAddLiquidity state tx ctx) := by
  unfold executeAddLiquidity TransactionExecutor.executeAddLiquidity
  refine (Erases.lift _).bind fun _ => (Erases.lift _).bind fun pool => (Erases.lift _).bind
    fun _ => (Erases.lift _).bind fun _ => (Erases.lift _).bind fun _ => (Erases.lift _).bind
    fun _ => (Erases.lift _).bind fun _ => ?_
  have grown : (addToPool pool tx.tokenId tx.amount (readU64At tx.payload 8)).Erases (some _) :=
    (Erases.divide _ _).bind_some ((Erases.divide _ _).bind_some (.value _))
  refine grown.bind_some ?_
  dsimp only
  generalize TransactionExecutor.existingPosition _ tx.sender (readU64At tx.payload 0) = existing
  cases existing <;> exact .value _

theorem executeRemoveLiquidity_erases : (executeRemoveLiquidity state tx).Erases
      (TransactionExecutor.executeRemoveLiquidity state tx) := by
  unfold executeRemoveLiquidity TransactionExecutor.executeRemoveLiquidity
  refine (Erases.lift _).bind fun _ => (Erases.lift _).bind fun position => (Erases.lift _).bind
    fun _ => (Erases.lift _).bind fun _ => (Erases.lift _).bind fun _ => (Erases.lift _).bind
    fun pool => ?_
  have shares (amount : Nat) : (liquidityShares pool amount).Erases (some
      (TransactionExecutor.liquidityShares pool amount)) := by
    unfold liquidityShares TransactionExecutor.liquidityShares
    split
    · exact .value _
    · exact (Erases.divide _ _).bind_some ((Erases.divide _ _).bind_some (.value _))
  exact (shares _).bind_some (.value _)

theorem executeSwap_erases :
    (executeSwap state tx ctx).Erases (TransactionExecutor.executeSwap state tx ctx) := by
  unfold executeSwap TransactionExecutor.executeSwap
  simp only [clrtyVolume_eq, value_bind]
  refine (Erases.lift _).bind fun _ => (Erases.lift _).bind fun pool => (Erases.lift _).bind
    fun _ => (Erases.lift _).bind fun sides => (Erases.lift _).bind fun _ => ?_
  refine Erases.bind_some ((Erases.divide _ _).bind_some ?output)
    ((Erases.lift _).bind fun _ => .value _)
  exact (Erases.divide _ _).bind_some (.value _)

theorem dispatch_erases :
    (dispatch crypto state tx ctx).Erases (TransactionExecutor.dispatch crypto state tx ctx) := by
  unfold dispatch
  dsimp only
  split
  next kind =>
    rw [TransactionExecutor.dispatch, kind]
    exact executeAddLiquidity_erases.map _
  next kind =>
    rw [TransactionExecutor.dispatch, kind]
    exact executeRemoveLiquidity_erases.map _
  next kind =>
    rw [TransactionExecutor.dispatch, kind]
    exact executeSwap_erases.map _
  next kind =>
    rw [TransactionExecutor.dispatch, kind, executeCreateOrder_eq]
    exact .lift _
  · exact .lift _

theorem execute_erases :
    (execute crypto state tx ctx).Erases (TransactionExecutor.execute crypto state tx ctx) := by
  have checked := (Erases.lift (head crypto state tx ctx)).bind fun charged =>
    (@dispatch_erases crypto charged tx ctx).bind fun done =>
      Erases.value (TransactionExecutor.bumpNonce done.1 tx,
        ({ status := .success, feePaid := tx.fee, fills := done.2 } : Receipt))
  have same : TransactionExecutor.execute crypto state tx ctx =
      (head crypto state tx ctx).bind fun charged =>
        (TransactionExecutor.dispatch crypto charged tx ctx).bind fun done =>
          some (TransactionExecutor.bumpNonce done.1 tx,
            { status := .success, feePaid := tx.fee, fills := done.2 }) := by
    simp only [TransactionExecutor.execute, head, Option.bind_eq_bind, Option.bind_assoc]
    rfl
  rw [same]
  exact checked

/-! ## Faults -/

/-- A swap whose input, after the fee, brings the reserve of its token to a multiple of `2 ^ 64`:
the sum wraps around, or an empty reserve gets nothing. -/
def SwapFaults (state : StateAccess) (tx : Transaction) : Prop :=
  16 ≤ tx.payload.length ∧
    ∃ pool sides, state.getAmmPool (readU64At tx.payload 0) = some pool ∧ pool.active = true ∧
      TransactionExecutor.swapSides pool tx.tokenId = some sides ∧
      tx.amount ≤ state.balanceOf tx.sender tx.tokenId ∧
      (sides.2.1 + tx.amount * (10000 - pool.feeBps) / 10000) % 2 ^ 64 = 0

/-- A removal of liquidity from a pool that records none. -/
def RemovalFaults (state : StateAccess) (tx : Transaction) : Prop :=
  tx.payload.length = 16 ∧
    ∃ position pool, state.getAmmPosition (readU64At tx.payload 0) = some position ∧
      position.owner = tx.sender ∧ position.liquidity ≠ 0 ∧
      readU64At tx.payload 8 ≤ position.liquidity ∧
      state.getAmmPool position.poolId = some pool ∧ pool.totalLiquidity = 0

theorem check_eq_value_iff {condition : Prop} [Decidable condition] {done : Unit} :
    check condition = value done ↔ condition := by
  simp [check]

theorem check_ne_fault (condition : Prop) [Decidable condition] : check condition ≠ fault :=
  lift_ne_fault _

/-- The shares are taken of reserves that the handler has found positive. -/
theorem executeAddLiquidity_ne_fault : executeAddLiquidity state tx ctx ≠ fault := by
  unfold executeAddLiquidity
  simp only [ne_eq, bind_eq_fault_iff, check_ne_fault, check_eq_value_iff, lift_ne_fault,
    lift_eq_value_iff, false_or, not_exists, not_and]
  intro _ _ pool _ _ _ _ _ _ positive _ _ _ _
  rw [not_or] at positive
  have whole : addToPool pool tx.tokenId tx.amount (readU64At tx.payload 8) =
      value (TransactionExecutor.addToPool pool tx.tokenId tx.amount (readU64At tx.payload 8)) := by
    unfold addToPool
    rw [divide_of_ne positive.1, divide_of_ne positive.2]
    rfl
  rw [whole]
  generalize TransactionExecutor.addToPool pool tx.tokenId tx.amount (readU64At tx.payload 8) = grown
  rintro (faults | ⟨result, -, faults⟩)
  · cases faults
  · split at faults
    · cases faults
    · cases faults

theorem liquidityShares_fault_iff {pool : AmmPool} {amount : Nat} (positive : amount ≠ 0) :
    liquidityShares pool amount = fault ↔ pool.totalLiquidity = 0 := by
  unfold liquidityShares
  by_cases zero : pool.totalLiquidity = 0
  · simp [zero, positive]
  · rw [divide_of_ne zero, divide_of_ne zero]
    simp only [value_bind, pure_eq, zero, iff_false]
    split <;> simp

theorem executeRemoveLiquidity_fault_iff :
    executeRemoveLiquidity state tx = fault ↔ RemovalFaults state tx := by
  unfold executeRemoveLiquidity RemovalFaults
  simp only [bind_eq_fault_iff, check_ne_fault, check_eq_value_iff, lift_ne_fault,
    lift_eq_value_iff, false_or, pure_eq, reduceCtorEq, and_false, exists_const, or_false]
  constructor
  · rintro ⟨size, position, found, owner, some, bound, pool, isPool, faults⟩
    rw [liquidityShares_fault_iff (by split <;> assumption)] at faults
    refine ⟨size, position, pool, found, owner, some, ?_, isPool, faults⟩
    split at bound <;> omega
  · rintro ⟨size, position, pool, found, owner, some, bound, isPool, none⟩
    refine ⟨size, position, found, owner, some, ?_, pool, isPool, ?_⟩
    · split <;> omega
    · exact (liquidityShares_fault_iff (by split <;> assumption)).mpr none

theorem swapOutput_fault_iff (reserveIn reserveOut feeBps amountIn : Nat) :
    swapOutput reserveIn reserveOut feeBps amountIn = fault ↔
      (reserveIn + amountIn * (10000 - feeBps) / 10000) % 2 ^ 64 = 0 := by
  unfold swapOutput
  rw [divide_of_ne (by decide), value_bind]
  simp only [bind_eq_fault_iff, divide_eq_fault_iff, pure_eq, reduceCtorEq, and_false,
    exists_const, or_false]
  unfold u64
  rw [Nat.add_mod_mod]

theorem executeSwap_fault_iff : executeSwap state tx ctx = fault ↔ SwapFaults state tx := by
  unfold executeSwap SwapFaults
  simp only [bind_eq_fault_iff, check_ne_fault, check_eq_value_iff, lift_ne_fault,
    lift_eq_value_iff, false_or, pure_eq, reduceCtorEq, and_false, exists_const, or_false,
    clrtyVolume_eq, value_bind, swapOutput_fault_iff]
  constructor
  · rintro ⟨size, pool, found, active, sides, isSides, paid, wraps⟩
    exact ⟨size, pool, sides, found, active, isSides, paid, wraps⟩
  · rintro ⟨size, pool, sides, found, active, isSides, paid, wraps⟩
    exact ⟨size, pool, found, active, sides, isSides, paid, wraps⟩

theorem dispatch_fault_iff : dispatch crypto state tx ctx = fault ↔
      (tx.txType = .swap ∧ SwapFaults state tx) ∨
        (tx.txType = .removeLiquidity ∧ RemovalFaults state tx) := by
  unfold dispatch
  dsimp only
  split
  next kind => simp [kind, executeAddLiquidity_ne_fault]
  next kind => simp [kind, executeRemoveLiquidity_fault_iff]
  next kind => simp [kind, executeSwap_fault_iff]
  next kind => simp [kind, executeCreateOrder_eq]
  next _ notRemove notSwap _ =>
    simp only [lift_ne_fault, false_iff, not_or, not_and]
    exact ⟨fun swaps => absurd swaps notSwap, fun removes => absurd removes notRemove⟩

/-- A transaction that passes the head of `execute` faults in two cases only: a swap that brings
the reserve to a multiple of `2 ^ 64`, and a removal from a pool that records no liquidity. In all
others it does what the handlers say. -/
theorem execute_fault_iff (crypto : Primitives) (state : StateAccess) (tx : Transaction)
    (ctx : TxExecutionContext) :
    (execute crypto state tx ctx = fault ↔
        ∃ charged, head crypto state tx ctx = some charged ∧
          ((tx.txType = .swap ∧ SwapFaults charged tx) ∨
            (tx.txType = .removeLiquidity ∧ RemovalFaults charged tx))) ∧
      (execute crypto state tx ctx ≠ fault →
        execute crypto state tx ctx = lift (TransactionExecutor.execute crypto state tx ctx)) := by
  constructor
  · unfold execute
    simp [dispatch_fault_iff]
  · exact fun calm => execute_erases.resolve_left calm

end Clarity.Core.Checked

namespace Clarity.Core.Regtest

open Common Crypto Library State

/-- A pool of the new token with the native one or a second token, without a fee. -/
def openPool (nonce amount otherToken otherAmount : Nat) : Transaction :=
  { chainId := 1
    txType := .createPool
    nonce := nonce
    sender := 20
    tokenId := 1
    amount := amount
    fee := 1
    payload := putU32 otherToken ++ putU64 otherAmount ++ putU16 0 }

def flooded : List (List Transaction) :=
  [[createCoin], [mintCoin 1 20 (2 ^ 64 - 1)], [openPool 2 1000 0 1000000], [mintCoin 3 20 1]]

def floodSwap : Transaction :=
  { chainId := 1
    txType := .swap
    nonce := 4
    sender := 20
    recipient := 20
    tokenId := 1
    amount := 2 ^ 64 - 1000
    fee := 1
    payload := putU64 1 ++ putU64 0 }

/-- The swap divides by zero. -/
theorem flooded_swap_faults : Chain env config (blocks flooded) (stateAfter flooded) ∧
      Checked.execute env.crypto (stateAfter flooded) floodSwap
        { currentHeight := 5, chainId := 1 } = .fault := by
  refine ⟨chain_of_accepts (by decide +kernel), Faulty.isFault_iff.mp ?_⟩
  decide +kernel

end Clarity.Core.Regtest
