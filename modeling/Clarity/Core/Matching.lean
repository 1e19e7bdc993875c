import Clarity.Library.Outcome
import Clarity.State.Frame

/-!
Contract: the execution of orders: `matchPassiveOrder` of `Core/MatchingEngine.cpp` and
`BlockProcessor::executeActiveOrder`.

Owns: the matching loop, cut into the step for one resting order and the loop over the book
levels, and the routing of an active order through its pool; each changes neither a nonce nor
the validator registry.

The fill history, an index the RPC server reads, is not kept.
-/

namespace Clarity.Core

open Common Crypto Library State State.StateAccess

variable (state : StateAccess) (order : Order)

/-! ## Passive orders -/

def sellsBase : Bool := order.sellToken < order.buyToken

/-- `sellAmountToBase`: zero where the quotient needs more than 64 bits. -/
def sellAmountToBase (sellAmount : Nat) (orderSellsBase : Bool) (price : Nat) : Nat :=
  if orderSellsBase then sellAmount
  else if price = 0 then 0
  else
    let quotient := sellAmount * OrderBook.BOOK_PRICE_SCALE / price
    if quotient > UINT64_MAX then 0 else quotient

def baseToSellAmount (baseAmount : Nat) (orderSellsBase : Bool) (price : Nat) : Nat :=
  if orderSellsBase then baseAmount
  else
    let quotient := baseAmount * price / OrderBook.BOOK_PRICE_SCALE
    if quotient > UINT64_MAX then 0 else quotient

/-- `credit`: nothing for a null owner or a zero amount. -/
def credit (owner : Address) (tokenId amount : Nat) : StateAccess :=
  if amount = 0 then state
  else if isNull owner then state
  else state.addBalance owner tokenId amount

def recordFill (sellTokenAmount : Nat) : Order :=
  { order with filledAmount := u64 (order.filledAmount + sellTokenAmount) }

/-- What the matching loop carries. -/
structure Matching where
  state : StateAccess
  taker : Order
  fills : List Fill

/-- A maker after a fill: deleted when it is full, else rewritten in place. -/
def persistMaker (maker : Order) : StateAccess :=
  if maker.isFullyFilled then (state.removeFromOrderBook maker).deleteOrder maker.id
  else state.putOrder maker

/-- The execution of one fill at the maker's price. -/
def executeFill (matching : Matching) (maker : Order)
    (price qtyBase qtyTakerSell qtyMakerSell : Nat) : Matching :=
  let taker := recordFill matching.taker qtyTakerSell
  let filled := recordFill maker qtyMakerSell
  let paidTaker := credit matching.state taker.owner taker.buyToken qtyMakerSell
  let paidMaker := credit paidTaker filled.owner filled.buyToken qtyTakerSell
  { state := persistMaker paidMaker filled
    taker := taker
    fills := matching.fills ++
      [{ makerOrderId := maker.id
         takerOrderId := taker.id
         qtyBase := qtyBase
         qtyQuote := if sellsBase taker then qtyMakerSell else qtyTakerSell
         price := price
         baseToken := min taker.sellToken taker.buyToken
         quoteToken := max taker.sellToken taker.buyToken }] }

/-- The fill of a taker against a maker at the maker's own price, if there is one. -/
def tryFill (matching : Matching) (maker : Order) (price : Nat) : Option Matching :=
  let taker := matching.taker
  let qtyBase :=
    min (sellAmountToBase taker.remainingAmount (sellsBase taker) price)
      (sellAmountToBase maker.remainingAmount (sellsBase maker) price)
  if qtyBase = 0 then none
  else
    let qtyTakerSell := baseToSellAmount qtyBase (sellsBase taker) price
    let qtyMakerSell := baseToSellAmount qtyBase (sellsBase maker) price
    if qtyTakerSell = 0 ∨ qtyMakerSell = 0 then none
    else some (executeFill matching maker price qtyBase qtyTakerSell qtyMakerSell)

/-- One pass of the loop over the candidates; `none` is the `break`. -/
def matchCandidate (takerLimit : Nat) (matching : Matching) (candidate : Nat × Nat) :
    Option Matching :=
  let taker := matching.taker
  let side := OrderBook.sideOf taker
  if taker.isFullyFilled then none
  else if OrderBook.crosses takerLimit candidate.2 side = false then none
  else match matching.state.getOrder candidate.1 with
  | none => some matching
  | some maker =>
    if isNull maker.owner then
      some { matching with
        state := (matching.state.removeFromOrderBook maker).deleteOrder maker.id }
    else if maker.owner = taker.owner then
      some { matching with state := matching.state.refundOrder maker true }
    else match OrderBook.canonicalPrice maker with
    | none => some matching
    | some price =>
      if OrderBook.crosses takerLimit price side = false then none
      else tryFill matching maker price

def matchLoop (takerLimit : Nat) : List (Nat × Nat) → Matching → Matching
  | [], matching => matching
  | candidate :: rest, matching =>
    match matchCandidate takerLimit matching candidate with
    | none => matching
    | some next => matchLoop takerLimit rest next

/-- The taker after the loop: deleted when it is full, else it enters the book. -/
def persistTaker (matching : Matching) : StateAccess :=
  if matching.taker.isFullyFilled then matching.state.deleteOrder matching.taker.id
  else
    let stored := matching.state.putOrder matching.taker
    stored.nextOrderSequence.2.addToOrderBook matching.taker stored.nextOrderSequence.1

def matchPassiveOrder (taker : Order) : StateAccess × List Fill :=
  if taker.id = INVALID_ID ∨ isNull taker.owner = true ∨ taker.isFullyFilled = true ∨
      taker.mode ≠ .passive then (state, [])
  else match OrderBook.canonicalPrice taker with
  | none => (state, [])
  | some takerLimit =>
    let candidates :=
      (state.bookLevels taker.sellToken taker.buyToken (1 - OrderBook.sideOf taker)).take
        OrderBook.MAX_BOOK_LEVELS_PER_TAKER
    let matched := matchLoop takerLimit candidates { state := state, taker := taker, fills := [] }
    (persistTaker matched, matched.fills)

/-! ## Active orders -/

/-- `ActiveRouteOutcome`, with the state and the fill of a routed order. -/
inductive ActiveRouteOutcome
  | filled (state : StateAccess) (fill : Fill)
  | rested
  | unroutable

/-- The reserves on the two sides of a trade, as the order faces them. -/
def routeReserves (pool : AmmPool) (order : Order) : Option (Nat × Nat) :=
  if order.sellToken = pool.tokenA ∧ order.buyToken = pool.tokenB then
    some (pool.reserveA, pool.reserveB)
  else if order.sellToken = pool.tokenB ∧ order.buyToken = pool.tokenA then
    some (pool.reserveB, pool.reserveA)
  else none

/-- The fill record of a routed order, in the canonical frame of its pair. -/
def ammFill (amountIn amountOut effectivePrice : Nat) : Fill :=
  { source := .amm
    makerOrderId := 0
    takerOrderId := order.id
    poolId := order.poolId
    qtyBase := if sellsBase order then amountIn else amountOut
    qtyQuote := if sellsBase order then amountOut else amountIn
    price := effectivePrice
    baseToken := if sellsBase order then order.sellToken else order.buyToken
    quoteToken := if sellsBase order then order.buyToken else order.sellToken }

def persistRouted : StateAccess :=
  if order.isFullyFilled then state.deleteOrder order.id else state.putOrder order

/-- The trade of `amountIn` through the pool. -/
def routeFill (pool : AmmPool) (height amountIn amountOut : Nat) : StateAccess :=
  let traded :=
    (pool.moveReserves order.sellToken amountIn amountOut).recordVolume height
      (pool.clrtyVolume order.sellToken amountIn)
  persistRouted ((state.putAmmPool traded).addBalance order.owner order.buyToken amountOut)
    (recordFill order amountIn)

/-- What the pool offers an active order now. -/
inductive RouteQuote
  | unroutable
  | rested
  | trade (pool : AmmPool) (amountIn amountOut effectivePrice : Nat)
deriving DecidableEq

/-- The trade within an order's limit at given reserves. -/
def quoteWithin (pool : AmmPool) (order : Order) (reserveIn reserveOut limit : Nat) : RouteQuote :=
  match ActiveRouter.maxInputWithinLimit reserveIn reserveOut pool.feeBps limit with
  | none => .rested
  | some maxIn =>
    let amountIn := min maxIn order.remainingAmount
    let amountOut := ActiveRouter.computeOutput reserveIn reserveOut pool.feeBps amountIn
    if maxIn = 0 ∨ amountIn = 0 ∨ amountOut = 0 then .rested
    else
      .trade pool amountIn amountOut
        (ActiveRouter.computeEffectivePrice reserveIn reserveOut pool.feeBps amountIn)

def quoteRoute : RouteQuote :=
  if order.mode ≠ .active ∨ order.poolId = 0 ∨ isNull order.owner = true ∨
      order.isFullyFilled = true then .unroutable
  else match state.getAmmPool order.poolId with
  | none => .unroutable
  | some pool =>
    if pool.active = false then .unroutable
    else match routeReserves pool order with
    | none => .unroutable
    | some (reserveIn, reserveOut) =>
      if reserveIn = 0 ∨ reserveOut = 0 then .unroutable
      else match OrderBook.canonicalPrice order with
      | none => .unroutable
      | some limit => quoteWithin pool order reserveIn reserveOut limit

def executeActiveOrder (height : Nat) : ActiveRouteOutcome :=
  match quoteRoute state order with
  | .unroutable => .unroutable
  | .rested => .rested
  | .trade pool amountIn amountOut effectivePrice =>
    .filled (routeFill state order pool height amountIn amountOut)
      (ammFill order amountIn amountOut effectivePrice)

/-! ## What trades can change -/

/-- The parts of the state that the execution of orders writes. -/
abbrev orderParts : List Part := [.accounts, .balances, .book, .pools]

variable {before : StateAccess}

@[simp] theorem within_credit {parts : List Part} {state : StateAccess} {owner : Address}
    {tokenId amount : Nat} (accounts : .accounts ∈ parts) (balances : .balances ∈ parts) :
    Peels parts state (credit state owner tokenId amount) := by
  unfold credit
  split
  · rfl
  · split <;> simp [accounts, balances]

theorem matchCandidate_within {takerLimit : Nat} {matching : Matching} {candidate : Nat × Nat}
    (keeps : Within orderParts before matching.state) :
    Ensures (fun next => Within orderParts before next.state)
      (matchCandidate takerLimit matching candidate) := by
  unfold matchCandidate
  simp only [Ensures.ite_iff, Ensures.none_iff, implies_true, true_and]
  intro _ _
  split
  · simpa using keeps
  · simp only [Ensures.ite_iff, Ensures.some_iff]
    refine ⟨fun _ => by simpa using keeps, fun _ => ⟨fun _ => by simpa using keeps, fun _ => ?_⟩⟩
    split
    · simpa using keeps
    · simp only [Ensures.ite_iff, Ensures.none_iff, implies_true, true_and]
      intro _
      unfold tryFill
      simp [executeFill, persistMaker, keeps]

/-- What every candidate keeps, the loop keeps. -/
theorem matchLoop_keeps {Invariant : Matching → Prop} {takerLimit : Nat} (candidates : List (Nat × Nat))
    (step : ∀ matching candidate, Invariant matching →
      Ensures Invariant (matchCandidate takerLimit matching candidate))
    {matching : Matching} (holds : Invariant matching) :
    Invariant (matchLoop takerLimit candidates matching) := by
  induction candidates generalizing matching with
  | nil => exact holds
  | cons candidate rest ih =>
    unfold matchLoop
    split
    · exact holds
    next next ran => exact ih (step matching candidate holds next ran)

theorem matchPassiveOrder_within {state : StateAccess} {taker : Order}
    (keeps : Within orderParts before state) : Within orderParts before (matchPassiveOrder state taker).1 := by
  unfold matchPassiveOrder
  split
  · exact keeps
  · split
    · exact keeps
    · unfold persistTaker
      dsimp only
      split <;> simpa using matchLoop_keeps _ (fun _ _ => matchCandidate_within) keeps

theorem executeActiveOrder_within {state after : StateAccess} {order : Order} {height : Nat}
    {fill : Fill} (routed : executeActiveOrder state order height = .filled after fill)
    (keeps : Within orderParts before state) : Within orderParts before after := by
  unfold executeActiveOrder at routed
  split at routed
  · cases routed
  · cases routed
  · cases routed
    unfold routeFill persistRouted
    dsimp only
    split <;> simpa using keeps

end Clarity.Core
