import Clarity.Core.Fill

/-!
Contract: pools, positions, orders and receipts, and the arithmetic of the order book and of
the router, as `Core/AmmPool.h`, `Core/AmmPosition.h`, `Core/Order.cpp`, `Core/OrderBook.cpp`,
`Core/ActiveRouter.cpp` and `Core/Receipt.cpp` have them.

Products the source takes in 128 bits are exact here: their factors fit in 64 bits.
-/

namespace Clarity.Core

open Common Crypto

def UINT64_MAX : Nat := 2 ^ 64 - 1

/-! ## Pools -/

def AMM_DEFAULT_FEE_BPS : Nat := 30
def AMM_MAX_FEE_BPS : Nat := 1000
def MIN_POOL_LIQUIDITY : Nat := 1 * GlobalConfig.ATOMIC_UNITS_PER_COIN

structure AmmPool where
  id : Nat := INVALID_ID
  creator : Address := 0
  tokenA : Nat := 0
  tokenB : Nat := 0
  reserveA : Nat := 0
  reserveB : Nat := 0
  totalLiquidity : Nat := 0
  feeBps : Nat := AMM_DEFAULT_FEE_BPS
  createdAtHeight : Nat := 0
  active : Bool := true
  volumeWindowHeight : Nat := 0
  volumeCurrent : Nat := 0
  volumeLast : Nat := 0
deriving DecidableEq, Repr, Inhabited

namespace AmmPool

def isValid (pool : AmmPool) : Bool :=
  pool.id != INVALID_ID && pool.tokenA != pool.tokenB && !(pool.tokenA > pool.tokenB) &&
    pool.feeBps ≤ AMM_MAX_FEE_BPS &&
    (if pool.reserveA = 0 ∧ pool.reserveB = 0 then true
    else pool.reserveA > 0 && pool.reserveB > 0)

def isClosed (pool : AmmPool) : Bool :=
  pool.totalLiquidity == 0 && pool.reserveA == 0 && pool.reserveB == 0

/-- `reportedVolume`: the last finished window. -/
def reportedVolume (pool : AmmPool) (currentHeight : Nat) : Nat :=
  if pool.volumeWindowHeight = 0 then 0
  else if currentHeight ≥ u64 (pool.volumeWindowHeight + ROTATION_INTERVAL) then pool.volumeCurrent
  else pool.volumeLast

/-- The update of the volume window by one trade, as the swap and the router both write it. -/
def recordVolume (pool : AmmPool) (height clrtyVolume : Nat) : AmmPool :=
  if pool.volumeWindowHeight = 0 then
    { pool with volumeWindowHeight := height, volumeCurrent := clrtyVolume, volumeLast := 0 }
  else if height ≥ u64 (pool.volumeWindowHeight + ROTATION_INTERVAL) then
    { pool with
      volumeLast := pool.volumeCurrent
      volumeCurrent := clrtyVolume
      volumeWindowHeight := height }
  else { pool with volumeCurrent := u64 (pool.volumeCurrent + clrtyVolume) }

/-- The native value of an input, at the price before the trade. -/
def clrtyVolume (pool : AmmPool) (tokenIn amountIn : Nat) : Nat :=
  if tokenIn = NATIVE_TOKEN_ID then amountIn
  else if pool.tokenA = NATIVE_TOKEN_ID ∧ pool.reserveB > 0 then
    u64 (amountIn * pool.reserveA / pool.reserveB)
  else if pool.tokenB = NATIVE_TOKEN_ID ∧ pool.reserveA > 0 then
    u64 (amountIn * pool.reserveB / pool.reserveA)
  else 0

/-- The reserves after a trade of `tokenIn`. -/
def moveReserves (pool : AmmPool) (tokenIn amountIn amountOut : Nat) : AmmPool :=
  if tokenIn = pool.tokenA then
    { pool with
      reserveA := u64 (pool.reserveA + amountIn)
      reserveB := sub64 pool.reserveB amountOut }
  else
    { pool with
      reserveB := u64 (pool.reserveB + amountIn)
      reserveA := sub64 pool.reserveA amountOut }

end AmmPool

structure AmmPosition where
  id : Nat := INVALID_ID
  owner : Address := 0
  poolId : Nat := INVALID_ID
  liquidity : Nat := 0
  createdAtHeight : Nat := 0
deriving DecidableEq, Repr, Inhabited

def AmmPosition.isValid (position : AmmPosition) : Bool :=
  position.id != INVALID_ID && position.poolId != INVALID_ID && !isNull position.owner

/-! ## Orders -/

inductive OrderExecutionMode
  | passive
  | active
deriving DecidableEq, Repr, Inhabited

def OrderExecutionMode.code : OrderExecutionMode → Nat
  | passive => 0
  | active => 1

/-- `OrderConditionType`; a payload byte is cast without a check. -/
inductive OrderConditionType
  | invalid
  | expiresAtHeight
  | priceAbove
  | priceBelow
  | volumeBelow
  | balanceBelow
  | unnamed (code : Nat)
deriving DecidableEq, Repr, Inhabited

def OrderConditionType.ofCode : Nat → OrderConditionType
  | 0 => invalid
  | 1 => expiresAtHeight
  | 2 => priceAbove
  | 3 => priceBelow
  | 4 => volumeBelow
  | 5 => balanceBelow
  | code => unnamed code

def PRICE_SCALE : Nat := 10000000000
def ORDER_CANCEL_FEE_ATOMIC : Nat := 1
def ORDER_MAX_CONDITIONS : Nat := 8

structure OrderCondition where
  type : OrderConditionType := .invalid
  param1 : Nat := 0
  param2 : Nat := 0
deriving DecidableEq, Repr, Inhabited

namespace OrderCondition

def isValid (condition : OrderCondition) : Bool :=
  condition.type != .invalid &&
    !((condition.type == .priceAbove || condition.type == .priceBelow ||
      condition.type == .volumeBelow) && condition.param2 == 0) &&
    !((condition.type == .expiresAtHeight || condition.type == .balanceBelow) &&
      condition.param2 != 0) &&
    !((condition.type == .priceAbove || condition.type == .priceBelow ||
      condition.type == .balanceBelow) && condition.param1 == 0)

def STATE_SIZE : Nat := 1 + 8 + 4

/-- `OrderCondition::deserializeState` at an offset. -/
def deserializeState (data : Bytes) (offset : Nat) : Option OrderCondition :=
  if offset + STATE_SIZE > data.length then none
  else
    let condition : OrderCondition :=
      { type := .ofCode (getUInt ((data.drop offset).take 1))
        param1 := getUInt ((data.drop (offset + 1)).take 8)
        param2 := getUInt ((data.drop (offset + 9)).take 4) }
    if condition.isValid then some condition else none

/-- `count` conditions one after the other. -/
def readConditions (data : Bytes) : Nat → Nat → Option (List OrderCondition)
  | 0, _ => some []
  | count + 1, offset => do
    let first ← deserializeState data offset
    let rest ← readConditions data count (offset + STATE_SIZE)
    pure (first :: rest)

end OrderCondition

structure Order where
  id : Nat := INVALID_ID
  owner : Address := 0
  mode : OrderExecutionMode := .passive
  poolId : Nat := 0
  sellToken : Nat := 0
  buyToken : Nat := 0
  sellAmount : Nat := 0
  minBuyAmount : Nat := 0
  createdAtHeight : Nat := 0
  orderExpiresAtHeight : Nat := 0
  filledAmount : Nat := 0
  conditions : List OrderCondition := []
deriving DecidableEq, Repr, Inhabited

namespace Order

def isValid (order : Order) : Bool :=
  order.id != INVALID_ID && !isNull order.owner && order.sellToken != order.buyToken &&
    order.sellAmount != 0 && order.minBuyAmount != 0 && !(order.filledAmount > order.sellAmount) &&
    order.conditions.length ≤ ORDER_MAX_CONDITIONS &&
    (if order.mode = .active then order.poolId != 0 else order.poolId == 0) &&
    order.conditions.all OrderCondition.isValid

def remainingAmount (order : Order) : Nat := sub64 order.sellAmount order.filledAmount

def isFullyFilled (order : Order) : Bool := order.filledAmount ≥ order.sellAmount

end Order

/-! ## The order book -/

namespace OrderBook

def BOOK_PRICE_SCALE : Nat := 10000000000
def MAX_BOOK_LEVELS_PER_TAKER : Nat := 256

/-- The side of a pair an order rests on: `0` sells the base token, `1` the quote token. -/
def sideOf (order : Order) : Nat := if order.sellToken < order.buyToken then 0 else 1

/-- `canonicalPrice`: quote per base, scaled, `none` where the product needs more than 64 bits. -/
def canonicalPrice (order : Order) : Option Nat :=
  if order.sellAmount = 0 ∨ order.minBuyAmount = 0 then none
  else if order.sellToken < order.buyToken then
    let num := order.minBuyAmount * BOOK_PRICE_SCALE
    if num > UINT64_MAX then none else some (num / order.sellAmount)
  else
    let num := order.sellAmount * BOOK_PRICE_SCALE
    if num > UINT64_MAX then none
    else some (num / order.minBuyAmount + if num % order.minBuyAmount ≠ 0 then 1 else 0)

def crosses (takerCanonicalLimit makerCanonicalPrice takerSide : Nat) : Bool :=
  if takerSide = 0 then makerCanonicalPrice ≥ takerCanonicalLimit
  else makerCanonicalPrice ≤ takerCanonicalLimit

end OrderBook

/-! ## The router -/

namespace ActiveRouter

/-- `maxInputWithinLimit`. -/
def maxInputWithinLimit (reserveIn reserveOut feeBps limitPriceScaled : Nat) : Option Nat :=
  if reserveIn = 0 ∨ reserveOut = 0 then none
  else if feeBps ≥ 10000 then none
  else if limitPriceScaled = 0 then none
  else if reserveOut * OrderBook.BOOK_PRICE_SCALE ≤ limitPriceScaled * reserveIn then none
  else
    let bScaled := reserveOut * OrderBook.BOOK_PRICE_SCALE / limitPriceScaled
    let aAdj := reserveIn * 10000 / (10000 - feeBps)
    if bScaled ≤ aAdj then none
    else
      let yFull := bScaled - aAdj
      if yFull = 0 then none else if yFull > UINT64_MAX then none else some yFull

/-- `computeOutput`: the input after the fee, traded at constant product. -/
def computeOutput (reserveIn reserveOut feeBps amountIn : Nat) : Nat :=
  if reserveIn = 0 ∨ reserveOut = 0 ∨ amountIn = 0 then 0
  else
    let amountInWithFee := amountIn * (10000 - feeBps) / 10000
    u64 (reserveOut * amountInWithFee / (reserveIn + amountInWithFee))

def computeEffectivePrice (reserveIn reserveOut feeBps amountIn : Nat) : Nat :=
  if amountIn = 0 then 0
  else
    let out := computeOutput reserveIn reserveOut feeBps amountIn
    if out = 0 then 0
    else
      let price := out * OrderBook.BOOK_PRICE_SCALE / amountIn
      if price > UINT64_MAX then 0 else price

end ActiveRouter

/-! ## Receipts -/

inductive ReceiptStatus
  | success
  | failure
deriving DecidableEq, Repr, Inhabited

def ReceiptStatus.code : ReceiptStatus → Nat
  | success => 0
  | failure => 1

structure Receipt where
  status : ReceiptStatus := .success
  feePaid : Nat := 0
  fills : List Fill := []
deriving DecidableEq, Repr, Inhabited

def Receipt.serializeState (receipt : Receipt) : Bytes :=
  putU8 receipt.status.code ++ putU64 receipt.feePaid ++ putU32 receipt.fills.length ++
    receipt.fills.flatMap Fill.serializeState

end Clarity.Core
