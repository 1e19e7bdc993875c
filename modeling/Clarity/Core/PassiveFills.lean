import Clarity.Core.MarketRecords
import Clarity.State.Book
import Mathlib.Algebra.Order.Floor.Div

/-!
Contract: what the fills of `matchPassiveOrder` give the two orders they are between.

Owns: `Execution`, the records a fill is made from; the list of the executions of a run, whose
fills are the fills of the run; when an execution is within the limits of both orders; and what
an order has received once it is full.

## Two roundings

The price of a fill is the canonical price of the maker, which is rounded once, and the quote
amount of a fill is rounded down once more. A seller of the base token receives the rounded
amount, a seller of the quote token pays it, so the two limits fail in different ways and are
kept apart here.
-/

namespace Clarity.Core

open Common Crypto Library State State.StateAccess OrderBook

variable {order taker : Order} {matching next : Matching} {takerLimit received : Nat}

/-! ## Executions -/

/-- A fill of a taker against a maker: both records before it, and the price. -/
structure Execution where
  taker : Order
  maker : Order
  price : Nat

namespace Execution

def qtyBase (execution : Execution) : Nat :=
  min (sellAmountToBase execution.taker.remainingAmount (sellsBase execution.taker) execution.price)
    (sellAmountToBase execution.maker.remainingAmount (sellsBase execution.maker) execution.price)

def takerSells (execution : Execution) : Nat :=
  baseToSellAmount execution.qtyBase (sellsBase execution.taker) execution.price

def makerSells (execution : Execution) : Nat :=
  baseToSellAmount execution.qtyBase (sellsBase execution.maker) execution.price

def fill (execution : Execution) : Fill :=
  { makerOrderId := execution.maker.id
    takerOrderId := execution.taker.id
    qtyBase := execution.qtyBase
    qtyQuote := if sellsBase execution.taker then execution.makerSells else execution.takerSells
    price := execution.price
    baseToken := min execution.taker.sellToken execution.taker.buyToken
    quoteToken := max execution.taker.sellToken execution.taker.buyToken }

end Execution

def executionAt (takerLimit : Nat) (matching : Matching) (candidate : Nat × Nat) :
    Option Execution :=
  if (matchCandidate takerLimit matching candidate).isSome then
    (matching.state.getOrder candidate.1).bind fun maker =>
      if isNull maker.owner ∨ maker.owner = matching.taker.owner then none
      else (canonicalPrice maker).map fun price => ⟨matching.taker, maker, price⟩
  else none

def executions (takerLimit : Nat) : List (Nat × Nat) → Matching → List Execution
  | [], _ => []
  | candidate :: rest, matching =>
    match matchCandidate takerLimit matching candidate with
    | none => []
    | some next =>
      (executionAt takerLimit matching candidate).toList ++ executions takerLimit rest next

def passiveExecutions (state : StateAccess) (taker : Order) : List Execution :=
  if taker.id = INVALID_ID ∨ isNull taker.owner = true ∨ taker.isFullyFilled = true ∨
      taker.mode ≠ .passive then []
  else match canonicalPrice taker with
  | none => []
  | some takerLimit =>
    let candidates :=
      (state.bookLevels taker.sellToken taker.buyToken (1 - sideOf taker)).take
        MAX_BOOK_LEVELS_PER_TAKER
    executions takerLimit candidates { state := state, taker := taker, fills := [] }

/-- What `tryFill` does with an execution. -/
theorem tryFill_eq {maker : Order} {price : Nat} (filled : tryFill matching maker price = some next)
    (execution : Execution) (isExecution : execution = ⟨matching.taker, maker, price⟩) :
    execution.qtyBase ≠ 0 ∧ execution.takerSells ≠ 0 ∧ execution.makerSells ≠ 0 ∧
      next = executeFill matching maker price execution.qtyBase execution.takerSells
        execution.makerSells := by
  subst isExecution
  unfold tryFill at filled
  dsimp only at filled
  split at filled
  · cases filled
  next someBase =>
    split at filled
    · cases filled
    next someSells =>
      rw [not_or] at someSells
      cases filled
      exact ⟨someBase, someSells.1, someSells.2, rfl⟩

/-- What one pass of the loop that goes on does with its candidate, with the execution it makes. -/
inductive CandidateStep (takerLimit : Nat) (matching : Matching) (candidate : Nat × Nat) :
    Option Execution → Matching → Prop
  | missing (found : matching.state.getOrder candidate.1 = none) :
      CandidateStep takerLimit matching candidate none matching
  | orphaned (maker : Order) (found : matching.state.getOrder candidate.1 = some maker) :
      CandidateStep takerLimit matching candidate none
        { matching with state := (matching.state.removeFromOrderBook maker).deleteOrder maker.id }
  | own (maker : Order) (found : matching.state.getOrder candidate.1 = some maker)
      (sameOwner : maker.owner = matching.taker.owner) :
      CandidateStep takerLimit matching candidate none
        { matching with state := matching.state.refundOrder maker true }
  | unpriced (maker : Order) (found : matching.state.getOrder candidate.1 = some maker)
      (noPrice : canonicalPrice maker = none) :
      CandidateStep takerLimit matching candidate none matching
  | filled (maker : Order) (price : Nat) (next : Matching)
      (found : matching.state.getOrder candidate.1 = some maker)
      (otherOwner : maker.owner ≠ matching.taker.owner)
      (priced : canonicalPrice maker = some price)
      (crosses : crosses takerLimit price (sideOf matching.taker) = true)
      (filled : tryFill matching maker price = some next) :
      CandidateStep takerLimit matching candidate (some ⟨matching.taker, maker, price⟩) next

theorem matchCandidate_step {candidate : Nat × Nat}
    (stepped : matchCandidate takerLimit matching candidate = some next) :
    CandidateStep takerLimit matching candidate (executionAt takerLimit matching candidate) next := by
  unfold executionAt
  rw [stepped]
  unfold matchCandidate at stepped
  dsimp only at stepped
  split at stepped
  · cases stepped
  · split at stepped
    · cases stepped
    · cases found : matching.state.getOrder candidate.1 with
      | none =>
        rw [found] at stepped
        cases stepped
        exact .missing found
      | some maker =>
        rw [found] at stepped
        dsimp only at stepped
        simp only [Option.isSome_some, if_true, Option.bind_some]
        split at stepped
        next orphaned =>
          cases stepped
          rw [if_pos (Or.inl orphaned)]
          exact .orphaned maker found
        next owned =>
          split at stepped
          next own =>
            cases stepped
            rw [if_pos (Or.inr own)]
            exact .own maker found own
          next other =>
            rw [if_neg (not_or.mpr ⟨owned, other⟩)]
            cases priced : canonicalPrice maker with
            | none =>
              rw [priced] at stepped
              cases stepped
              exact .unpriced maker found priced
            | some price =>
              rw [priced] at stepped
              dsimp only at stepped
              split at stepped
              · cases stepped
              next crosses =>
                exact .filled maker price next found other priced
                  (Bool.not_eq_false _ ▸ crosses) stepped

/-! ## What an execution is made from -/

theorem sameRow_recordFill (order : Order) (amount : Nat) :
    Book.SameRow order (recordFill order amount) := ⟨rfl, rfl, rfl, rfl, rfl, rfl, rfl⟩

theorem CandidateStep.sameRow {candidate : Nat × Nat} {execution : Option Execution}
    (step : CandidateStep takerLimit matching candidate execution next) :
    Book.SameRow matching.taker next.taker := by
  cases step with
  | filled maker price next found otherOwner priced crosses filled =>
    obtain ⟨_, _, _, isNext⟩ := tryFill_eq filled _ rfl
    rw [isNext]
    exact sameRow_recordFill _ _
  | _ => exact Book.SameRow.refl _

theorem matchCandidate_unfilled {candidate : Nat × Nat}
    (stepped : matchCandidate takerLimit matching candidate = some next) :
    matching.taker.filledAmount < matching.taker.sellAmount := by
  by_contra full
  have isFull : matching.taker.isFullyFilled = true := decide_eq_true (Nat.not_lt.mp full)
  unfold matchCandidate at stepped
  rw [if_pos isFull] at stepped
  cases stepped

/-- What holds of every execution of a run. -/
structure Executed (takerLimit : Nat) (taker : Order) (execution : Execution) : Prop where
  sameTaker : Book.SameRow taker execution.taker
  unfilled : execution.taker.filledAmount < execution.taker.sellAmount
  otherOwner : execution.maker.owner ≠ taker.owner
  priced : canonicalPrice execution.maker = some execution.price
  crosses : crosses takerLimit execution.price (sideOf execution.taker) = true
  someBase : execution.qtyBase ≠ 0
  takerSells : execution.takerSells ≠ 0
  makerSells : execution.makerSells ≠ 0

theorem executed_of_mem (candidates : List (Nat × Nat)) (matching : Matching)
    (same : Book.SameRow taker matching.taker) :
    ∀ execution ∈ executions takerLimit candidates matching,
      Executed takerLimit taker execution := by
  induction candidates generalizing matching with
  | nil =>
    intro execution member
    cases member
  | cons candidate rest ih =>
    intro execution member
    unfold executions at member
    cases stepped : matchCandidate takerLimit matching candidate with
    | none =>
      rw [stepped] at member
      cases member
    | some next =>
      rw [stepped] at member
      rw [List.mem_append, Option.mem_toList] at member
      have step := matchCandidate_step stepped
      rcases member with here | later
      · rw [here] at step
        cases step with
        | filled maker price next found otherOwner priced crosses filled =>
          obtain ⟨someBase, takerSells, makerSells, _⟩ := tryFill_eq filled _ rfl
          exact ⟨same, matchCandidate_unfilled stepped, same.owner ▸ otherOwner, priced, crosses,
            someBase, takerSells, makerSells⟩
      · exact ih next (same.trans step.sameRow) execution later

theorem passive_executed {state : StateAccess} {execution : Execution}
    (member : execution ∈ passiveExecutions state taker) :
    ∃ takerLimit, canonicalPrice taker = some takerLimit ∧ Executed takerLimit taker execution := by
  unfold passiveExecutions at member
  split at member
  · cases member
  · split at member
    · cases member
    next takerLimit priced =>
      exact ⟨takerLimit, priced, executed_of_mem _ _ (Book.SameRow.refl taker) execution member⟩

/-! ## Limits -/

/-- An order that sells and receives these amounts gets at least its ratio. -/
def WithinLimit (order : Order) (sold received : Nat) : Prop :=
  sold * order.minBuyAmount ≤ received * order.sellAmount

structure Execution.RespectsLimits (execution : Execution) : Prop where
  taker : WithinLimit execution.taker execution.takerSells execution.makerSells
  maker : WithinLimit execution.maker execution.makerSells execution.takerSells

/-- The price of an order's ratio: rounded down for a seller of the base token, up for a seller of
the quote token. -/
def limitOf (order : Order) : Nat :=
  if sellsBase order then order.minBuyAmount * BOOK_PRICE_SCALE / order.sellAmount
  else order.sellAmount * BOOK_PRICE_SCALE ⌈/⌉ order.minBuyAmount

/-- The base quantity of what is left of an order, at a price. -/
def offeredBase (order : Order) (price : Nat) : Nat :=
  if sellsBase order then order.remainingAmount
  else order.remainingAmount * BOOK_PRICE_SCALE / price

/-- The roundings are within what the price is better than the limit of the order. A seller of the
base token loses what its limit and the quote amount are rounded by; a seller of the quote token
loses what its limit is rounded by and gains on the quote amount. Two orders that sell the same
token, which a book never pairs, would trade it one for one. -/
def RoundingsWithin (order other : Order) (price qtyBase : Nat) : Prop :=
  if sellsBase order = sellsBase other then order.minBuyAmount ≤ order.sellAmount
  else if sellsBase order then
    qtyBase * (order.minBuyAmount * BOOK_PRICE_SCALE % order.sellAmount) +
        (qtyBase * price % BOOK_PRICE_SCALE) * order.sellAmount ≤
      qtyBase * (price - limitOf order) * order.sellAmount
  else
    qtyBase * (limitOf order * order.minBuyAmount - order.sellAmount * BOOK_PRICE_SCALE) ≤
      (qtyBase * (limitOf order - price) + qtyBase * price % BOOK_PRICE_SCALE) * order.minBuyAmount

instance (order other : Order) (price qtyBase : Nat) :
    Decidable (RoundingsWithin order other price qtyBase) := by
  unfold RoundingsWithin
  infer_instance

/-- The condition on an order that trades with another one at the price of the maker. -/
def LimitCovered (order other maker : Order) : Prop :=
  RoundingsWithin order other (limitOf maker)
    (min (offeredBase order (limitOf maker)) (offeredBase other (limitOf maker)))

instance (order other maker : Order) : Decidable (LimitCovered order other maker) := by
  unfold LimitCovered
  infer_instance

/-- The condition on both records before a fill. -/
structure LimitsCovered (taker maker : Order) : Prop where
  ofTaker : LimitCovered taker maker maker
  ofMaker : LimitCovered maker taker maker

/-- Rounding up adds one where a remainder is left. -/
theorem ceilDiv_eq_div_add {dividend divisor : Nat} (positive : 0 < divisor) :
    dividend ⌈/⌉ divisor = dividend / divisor + if dividend % divisor ≠ 0 then 1 else 0 := by
  have split := Nat.div_add_mod dividend divisor
  have rest := Nat.mod_lt dividend positive
  rw [Nat.ceilDiv_eq_add_pred_div, Nat.div_eq_iff positive]
  split
  · rw [Nat.add_mul]
    rw [Nat.mul_comm] at split
    omega
  · rw [Nat.mul_comm] at split
    rw [Nat.add_zero]
    omega

theorem limitOf_of_priced {price : Nat} (priced : canonicalPrice order = some price) :
    limitOf order = price := by
  obtain ⟨_, buys⟩ := amounts_pos (Option.isSome_of_eq_some priced)
  unfold canonicalPrice at priced
  unfold limitOf sellsBase
  split at priced
  · cases priced
  · split at priced
    next base =>
      simp only [Option.ite_none_left_eq_some, Option.some.injEq] at priced
      rw [if_pos (decide_eq_true base)]
      exact priced.2
    next quote =>
      simp only [Option.ite_none_left_eq_some, Option.some.injEq] at priced
      rw [if_neg (by simpa using quote), ← priced.2]
      exact ceilDiv_eq_div_add buys

/-- An order trades at its limit or at a better price. -/
def AtLimit (order : Order) (price : Nat) : Prop :=
  if sellsBase order then limitOf order ≤ price else price ≤ limitOf order

/-- The quote amount of a base quantity at a price. -/
theorem baseToSellAmount_quote {qtyBase price : Nat}
    (someAmount : baseToSellAmount qtyBase false price ≠ 0) :
    baseToSellAmount qtyBase false price = qtyBase * price / BOOK_PRICE_SCALE := by
  unfold baseToSellAmount at someAmount ⊢
  simp only [Bool.false_eq_true, if_false] at someAmount ⊢
  split at someAmount
  · exact absurd rfl someAmount
  next fits => rw [if_neg fits]

theorem withinLimit_iff_roundings {other : Order} {qtyBase price : Nat}
    (buys : 0 < order.minBuyAmount) (atLimit : AtLimit order price)
    (someSold : baseToSellAmount qtyBase (sellsBase order) price ≠ 0)
    (someReceived : baseToSellAmount qtyBase (sellsBase other) price ≠ 0) :
    WithinLimit order (baseToSellAmount qtyBase (sellsBase order) price)
        (baseToSellAmount qtyBase (sellsBase other) price) ↔
      RoundingsWithin order other price qtyBase := by
  have scale : 0 < BOOK_PRICE_SCALE := by decide
  have quoted := Nat.div_add_mod (qtyBase * price) BOOK_PRICE_SCALE
  unfold WithinLimit RoundingsWithin
  unfold AtLimit at atLimit
  split
  next same =>
    rw [same]
    exact Nat.mul_le_mul_left_iff (Nat.pos_of_ne_zero someReceived)
  next opposite =>
    cases side : sellsBase order with
    | true =>
      have isOther : sellsBase other = false := by
        rw [side] at opposite
        exact (Bool.eq_false_or_eq_true _).resolve_left (Ne.symm opposite)
      rw [isOther] at someReceived ⊢
      rw [if_pos side] at atLimit
      rw [baseToSellAmount_quote someReceived]
      simp only [baseToSellAmount, if_true]
      obtain ⟨gain, isPrice⟩ := Nat.exists_eq_add_of_le atLimit
      have limit : order.sellAmount * limitOf order +
          order.minBuyAmount * BOOK_PRICE_SCALE % order.sellAmount =
            order.minBuyAmount * BOOK_PRICE_SCALE := by
        unfold limitOf
        rw [if_pos side]
        exact Nat.div_add_mod _ _
      rw [isPrice, Nat.add_sub_cancel_left, ← isPrice, ← Nat.mul_le_mul_left_iff scale]
      have received : BOOK_PRICE_SCALE * (qtyBase * price / BOOK_PRICE_SCALE * order.sellAmount) +
          qtyBase * price % BOOK_PRICE_SCALE * order.sellAmount =
            qtyBase * limitOf order * order.sellAmount + qtyBase * gain * order.sellAmount := by
        rw [← Nat.mul_assoc, ← Nat.add_mul, quoted, isPrice]
        ring
      have asked : BOOK_PRICE_SCALE * (qtyBase * order.minBuyAmount) =
          qtyBase * limitOf order * order.sellAmount +
            qtyBase * (order.minBuyAmount * BOOK_PRICE_SCALE % order.sellAmount) := by
        calc BOOK_PRICE_SCALE * (qtyBase * order.minBuyAmount)
            = qtyBase * (order.minBuyAmount * BOOK_PRICE_SCALE) := by ring
          _ = qtyBase * (order.sellAmount * limitOf order +
                order.minBuyAmount * BOOK_PRICE_SCALE % order.sellAmount) := by rw [limit]
          _ = _ := by ring
      omega
    | false =>
      have isOther : sellsBase other = true := by
        rw [side] at opposite
        exact (Bool.eq_false_or_eq_true _).resolve_right (Ne.symm opposite)
      rw [side] at someSold
      rw [if_neg (by rw [side]; decide)] at atLimit
      rw [isOther, baseToSellAmount_quote someSold]
      simp only [baseToSellAmount, if_true, Bool.false_eq_true, if_false]
      obtain ⟨gain, isLimit⟩ := Nat.exists_eq_add_of_le atLimit
      obtain ⟨rounded, padded⟩ : ∃ rounded, limitOf order * order.minBuyAmount =
          order.sellAmount * BOOK_PRICE_SCALE + rounded := by
        apply Nat.exists_eq_add_of_le
        unfold limitOf
        rw [if_neg (by rw [side]; decide), Nat.mul_comm _ order.minBuyAmount]
        exact (ceilDiv_le_iff_le_mul buys).mp le_rfl
      rw [padded, Nat.add_sub_cancel_left, ← Nat.mul_le_mul_left_iff scale]
      have sold : BOOK_PRICE_SCALE * (qtyBase * price / BOOK_PRICE_SCALE * order.minBuyAmount) +
          qtyBase * price % BOOK_PRICE_SCALE * order.minBuyAmount =
            qtyBase * price * order.minBuyAmount := by
        rw [← Nat.mul_assoc, ← Nat.add_mul, quoted]
      have offered : BOOK_PRICE_SCALE * (qtyBase * order.sellAmount) + qtyBase * rounded =
          qtyBase * price * order.minBuyAmount + qtyBase * gain * order.minBuyAmount := by
        calc BOOK_PRICE_SCALE * (qtyBase * order.sellAmount) + qtyBase * rounded
            = qtyBase * (order.sellAmount * BOOK_PRICE_SCALE + rounded) := by ring
          _ = qtyBase * ((price + gain) * order.minBuyAmount) := by rw [← padded, isLimit]
          _ = _ := by ring
      rw [isLimit, Nat.add_sub_cancel_left, Nat.add_mul]
      omega

/-- What an order offers at a price, where it is not cut away. -/
theorem sellAmountToBase_offered {price : Nat}
    (someBase : sellAmountToBase order.remainingAmount (sellsBase order) price ≠ 0) :
    sellAmountToBase order.remainingAmount (sellsBase order) price = offeredBase order price := by
  unfold sellAmountToBase at someBase ⊢
  unfold offeredBase
  dsimp only at someBase ⊢
  split
  · rfl
  next quote =>
    rw [if_neg quote] at someBase
    split at someBase
    · exact absurd rfl someBase
    next priced =>
      split at someBase
      · exact absurd rfl someBase
      next fits => rw [if_neg priced, if_neg fits]

section Executed
variable {state : StateAccess} {execution : Execution}

theorem Executed.qtyBase_eq (executed : Executed takerLimit taker execution) :
    execution.qtyBase = min (offeredBase execution.taker (limitOf execution.maker))
      (offeredBase execution.maker (limitOf execution.maker)) := by
  have some := executed.someBase
  unfold Execution.qtyBase at some ⊢
  rw [limitOf_of_priced executed.priced, ← sellAmountToBase_offered (by omega),
    ← sellAmountToBase_offered (by omega)]

/-- The taker gets its ratio exactly when the roundings are within what the maker's price is better
than its own. -/
theorem takerLimit_iff (member : execution ∈ passiveExecutions state taker) :
    WithinLimit execution.taker execution.takerSells execution.makerSells ↔
      LimitCovered execution.taker execution.maker execution.maker := by
  obtain ⟨takerLimit, priced, executed⟩ := passive_executed member
  have isPriced : canonicalPrice execution.taker = some takerLimit := by
    rw [← priced]
    unfold canonicalPrice
    rw [executed.sameTaker.sellAmount, executed.sameTaker.minBuyAmount,
      executed.sameTaker.sellToken, executed.sameTaker.buyToken]
  have atLimit : AtLimit execution.taker execution.price := by
    have better := executed.crosses
    unfold crosses sideOf at better
    unfold AtLimit sellsBase
    rw [limitOf_of_priced isPriced]
    by_cases base : execution.taker.sellToken < execution.taker.buyToken
    · simpa [base] using better
    · simpa [base] using better
  have amounts := amounts_pos (Option.isSome_of_eq_some isPriced)
  unfold LimitCovered
  rw [← executed.qtyBase_eq, limitOf_of_priced executed.priced]
  exact withinLimit_iff_roundings amounts.2 atLimit executed.takerSells executed.makerSells

/-- The maker trades at its own rounded price. -/
theorem makerLimit_iff (member : execution ∈ passiveExecutions state taker) :
    WithinLimit execution.maker execution.makerSells execution.takerSells ↔
      LimitCovered execution.maker execution.taker execution.maker := by
  obtain ⟨_, _, executed⟩ := passive_executed member
  have atLimit : AtLimit execution.maker execution.price := by
    unfold AtLimit
    rw [limitOf_of_priced executed.priced]
    split <;> exact Nat.le_refl _
  have amounts := amounts_pos (Option.isSome_of_eq_some executed.priced)
  unfold LimitCovered
  rw [Nat.min_comm, ← executed.qtyBase_eq, limitOf_of_priced executed.priced]
  exact withinLimit_iff_roundings amounts.2 atLimit executed.makerSells executed.takerSells

end Executed

/-! ## Whole orders -/

/-- The trading of one order from its creation: the record after it, and what it received. Every
execution covers the limit of the order. -/
inductive Trading : Order → Nat → Prop
  | placed (order : Order) (unfilled : order.filledAmount = 0) (small : order.sellAmount < 2 ^ 64) :
      Trading order 0
  | takes {received : Nat} (state : StateAccess) (taker : Order) (execution : Execution)
      (before : Trading execution.taker received)
      (member : execution ∈ passiveExecutions state taker)
      (covers : LimitCovered execution.taker execution.maker execution.maker) :
      Trading (recordFill execution.taker execution.takerSells) (received + execution.makerSells)
  | makes {received : Nat} (state : StateAccess) (taker : Order) (execution : Execution)
      (before : Trading execution.maker received)
      (member : execution ∈ passiveExecutions state taker)
      (covers : LimitCovered execution.maker execution.taker execution.maker) :
      Trading (recordFill execution.maker execution.makerSells) (received + execution.takerSells)

/-- What the trading of an order keeps: the fills are within the order, and the whole is within
its limit. -/
structure KeepsLimit (order : Order) (received : Nat) : Prop where
  within : order.filledAmount ≤ order.sellAmount
  small : order.sellAmount < 2 ^ 64
  limit : WithinLimit order order.filledAmount received

/-- A fill within the remainder is added without a wrap. -/
theorem filledAmount_recordFill {sold : Nat} (within : order.filledAmount ≤ order.sellAmount)
    (small : order.sellAmount < 2 ^ 64) (covered : sold ≤ order.remainingAmount) :
    (recordFill order sold).filledAmount = order.filledAmount + sold := by
  unfold Order.remainingAmount sub64 at covered
  unfold recordFill u64
  dsimp only
  omega

theorem KeepsLimit.recordFill {sold gained : Nat} (kept : KeepsLimit order received)
    (covered : sold ≤ order.remainingAmount) (within : WithinLimit order sold gained) :
    KeepsLimit (recordFill order sold) (received + gained) := by
  refine ⟨(recordFill_facts kept.within covered).1, kept.small, ?_⟩
  unfold WithinLimit
  rw [filledAmount_recordFill kept.within kept.small covered, Nat.add_mul, Nat.add_mul]
  exact Nat.add_le_add kept.limit within

theorem Trading.keepsLimit (trading : Trading order received) : KeepsLimit order received := by
  induction trading with
  | placed order unfilled small =>
    refine ⟨?_, small, ?_⟩
    · rw [unfilled]
      exact Nat.zero_le _
    · unfold WithinLimit
      rw [unfilled, Nat.zero_mul]
      exact Nat.zero_le _
  | takes state taker execution before member covers ih =>
    exact ih.recordFill (baseToSellAmount_le (Nat.min_le_left _ _))
      ((takerLimit_iff member).mpr covers)
  | makes state taker execution before member covers ih =>
    exact ih.recordFill (baseToSellAmount_le (Nat.min_le_right _ _))
      ((makerLimit_iff member).mpr covers)

/-- **Passive fills respect both limits exactly when the roundings are within what the price is
better than the limit**, and an order whose fills all do has received its minimum once it is full. -/
theorem passiveFills_respect_iff (state : StateAccess) (taker order : Order) (received : Nat) :
    (∀ execution ∈ passiveExecutions state taker,
      execution.RespectsLimits ↔ LimitsCovered execution.taker execution.maker) ∧
    (Trading order received → 0 < order.sellAmount → order.isFullyFilled = true →
      order.minBuyAmount ≤ received) := by
  constructor
  · intro execution member
    have ofTaker := takerLimit_iff member
    have ofMaker := makerLimit_iff member
    exact ⟨fun respects => ⟨ofTaker.mp respects.taker, ofMaker.mp respects.maker⟩,
      fun covered => ⟨ofTaker.mpr covered.ofTaker, ofMaker.mpr covered.ofMaker⟩⟩
  intro trading sells full
  have kept := trading.keepsLimit
  unfold Order.isFullyFilled at full
  have isFull : order.filledAmount = order.sellAmount :=
    Nat.le_antisymm kept.within (of_decide_eq_true full)
  have limit := kept.limit
  unfold WithinLimit at limit
  rw [isFull, Nat.mul_comm order.sellAmount] at limit
  exact Nat.le_of_mul_le_mul_right limit sells

namespace Regtest

/-- Three of the base token for ten of the quote token. -/
def sellsThree : Order :=
  { id := 1, owner := 20, sellToken := 1, buyToken := 2, sellAmount := 3, minBuyAmount := 10 }

def sellsTen : Order :=
  { id := 2, owner := 21, sellToken := 2, buyToken := 1, sellAmount := 10, minBuyAmount := 3 }

def bookOf (maker : Order) : StateAccess :=
  (matchPassiveOrder (({} : StateAccess).putOrder maker) maker).1

/-- The maker sells all it has for nine of the ten it asks for. -/
theorem sellsThree_beyond_limit : ∃ execution ∈ passiveExecutions (bookOf sellsThree) sellsTen,
      execution.maker = sellsThree ∧ execution.makerSells = 3 ∧ execution.takerSells = 9 ∧
      (recordFill execution.maker execution.makerSells).isFullyFilled = true ∧
      ¬execution.RespectsLimits := by
  have found : (passiveExecutions (bookOf sellsThree) sellsTen).any (fun execution =>
      execution.maker == sellsThree && execution.makerSells == 3 && execution.takerSells == 9 &&
        (recordFill execution.maker execution.makerSells).isFullyFilled) = true := by
    decide +kernel
  rw [List.any_eq_true] at found
  obtain ⟨execution, member, facts⟩ := found
  simp only [Bool.and_eq_true, beq_iff_eq] at facts
  obtain ⟨⟨⟨isMaker, sold⟩, received⟩, full⟩ := facts
  refine ⟨execution, member, isMaker, sold, received, full, ?_⟩
  intro respects
  have limit := respects.maker
  unfold WithinLimit at limit
  rw [sold, received, isMaker] at limit
  revert limit
  decide

/-- Two of the base token for six of the quote token. -/
def sellsTwo : Order :=
  { id := 1, owner := 20, sellToken := 1, buyToken := 2, sellAmount := 2, minBuyAmount := 6 }

/-- The price of the maker is rounded up and the quote amount down, and both orders get their
ratio. -/
theorem sellsTwo_within_limit : ∃ execution ∈ passiveExecutions (bookOf sellsTen) sellsTwo,
      execution.qtyBase * execution.price % BOOK_PRICE_SCALE ≠ 0 ∧ execution.RespectsLimits ∧
        (recordFill execution.taker execution.takerSells).minBuyAmount ≤ execution.makerSells := by
  have found : (passiveExecutions (bookOf sellsTen) sellsTwo).any (fun execution =>
      execution.maker == sellsTen && execution.taker == sellsTwo &&
        execution.qtyBase * execution.price % BOOK_PRICE_SCALE != 0 &&
        (recordFill execution.taker execution.takerSells).isFullyFilled) = true := by
    decide +kernel
  rw [List.any_eq_true] at found
  obtain ⟨execution, member, facts⟩ := found
  simp only [Bool.and_eq_true, beq_iff_eq, bne_iff_ne] at facts
  obtain ⟨⟨⟨isMaker, isTaker⟩, rounded⟩, full⟩ := facts
  have covered : LimitsCovered execution.taker execution.maker := by
    rw [isMaker, isTaker]
    exact ⟨by decide +kernel, by decide +kernel⟩
  have placed : Trading execution.taker 0 := by
    rw [isTaker]
    exact .placed sellsTwo rfl (by decide)
  have traded := Trading.takes _ _ execution placed member covered.ofTaker
  have sells : 0 < (recordFill execution.taker execution.takerSells).sellAmount := by
    rw [isTaker]
    show 0 < sellsTwo.sellAmount
    decide
  obtain ⟨respects, minimum⟩ := passiveFills_respect_iff (bookOf sellsTen) sellsTwo
    (recordFill execution.taker execution.takerSells) (0 + execution.makerSells)
  have received := minimum traded sells full
  rw [Nat.zero_add] at received
  exact ⟨execution, member, rounded, (respects execution member).mpr covered, received⟩

end Regtest

end Clarity.Core
