import Clarity.Core.BookInvariant

/-!
Contract: how far the orders of a matching are filled.

Owns: `StepFills`, what one candidate does to the filled amounts of the taker and of the stored
orders; and that no step of `matchPassiveOrder` fills an order beyond what it sells.
-/

namespace Clarity.Core

open Common Crypto Library State State.StateAccess

/-- A fill of this amount is within the order, and is added to it in full. -/
structure FillsWithin (order : Order) (amount : Nat) : Prop where
  grows : (recordFill order amount).filledAmount = order.filledAmount + amount
  within : order.filledAmount + amount ≤ order.sellAmount

/-- What a candidate does to the amounts. Without an execution the taker stays as it is, and no
record changes but one that may be deleted. An execution fills the taker and its maker, which is
deleted exactly when it has sold everything. -/
inductive StepFills (before : Matching) : Option Execution → Matching → Prop
  | idle (after : Matching) (taker : after.taker = before.taker)
      (records : ∀ orderId, after.state.book.orders.find? orderId = none ∨
        after.state.book.orders.find? orderId = before.state.book.orders.find? orderId) :
      StepFills before none after
  | filled (execution : Execution) (after : Matching) (orderId : Nat)
      (stored : before.state.book.orders.find? orderId = some execution.maker)
      (taker : after.taker = recordFill before.taker execution.takerSells)
      (fills : after.fills = before.fills ++ [execution.fill])
      (takerFills : FillsWithin before.taker execution.takerSells)
      (makerFills : FillsWithin execution.maker execution.makerSells)
      (maker : after.state.book.orders.find? execution.maker.id =
        if execution.maker.filledAmount + execution.makerSells = execution.maker.sellAmount then none
        else some (recordFill execution.maker execution.makerSells))
      (others : ∀ orderId ≠ execution.maker.id, after.state.book.orders.find? orderId =
        before.state.book.orders.find? orderId) :
      StepFills before (some execution) after

/-- The amounts of the taker and of the stored orders are words, and the taker is within its
amount. -/
structure Matching.Amounts (matching : Matching) : Prop where
  within : matching.taker.filledAmount ≤ matching.taker.sellAmount
  word : matching.taker.sellAmount < 2 ^ 64
  words : ∀ orderId order, matching.state.book.orders.find? orderId = some order →
    order.sellAmount < 2 ^ 64

variable {takerLimit : Nat} {matching next : Matching} {candidate : Nat × Nat}
  {execution : Option Execution}

theorem fillsWithin {order : Order} {amount : Nat} (within : order.filledAmount ≤ order.sellAmount)
    (word : order.sellAmount < 2 ^ 64) (covered : amount ≤ order.remainingAmount) :
    FillsWithin order amount := by
  have grows := filledAmount_recordFill within word covered
  exact ⟨grows, grows ▸ (recordFill_facts within covered).1⟩

theorem StepFills.of_closed {after : Matching} {maker : Order} (taker : after.taker = matching.taker)
    (closed : after.state.book = matching.state.book.close maker) :
    StepFills matching none after := by
  refine .idle after taker fun orderId => ?_
  rw [closed, Book.orders_close]
  split
  · exact .inl rfl
  · exact .inr rfl

/-- One candidate. -/
theorem CandidateStep.stepFills (step : CandidateStep takerLimit matching candidate execution next)
    (amounts : matching.Amounts) : StepFills matching execution next := by
  cases step with
  | missing found => exact .idle _ rfl fun _ => .inr rfl
  | unpriced maker found noPrice => exact .idle _ rfl fun _ => .inr rfl
  | orphaned maker found =>
    exact .of_closed rfl (by rw [book_deleteOrder, book_removeFromOrderBook]; rfl)
  | own maker found sameOwner =>
    rcases @book_refundOrder matching.state maker true with same | closed
    · exact .idle _ rfl fun _ => .inr (by rw [same])
    · exact .of_closed rfl closed
  | filled maker price next found otherOwner priced crosses filled =>
    obtain ⟨stored, valid⟩ := getOrder_stored found
    have makerFills : FillsWithin maker (Execution.makerSells ⟨matching.taker, maker, price⟩) :=
      fillsWithin (Order.facts_of_isValid valid).2.2 (amounts.words _ _ stored)
        (baseToSellAmount_le (Nat.min_le_right _ _))
    have isBook := tryFill_book filled
    obtain ⟨_, _, _, isNext⟩ := tryFill_eq filled _ rfl
    refine .filled _ next _ stored (by rw [isNext]; rfl) (by rw [isNext]; rfl)
      (fillsWithin amounts.within amounts.word (baseToSellAmount_le (Nat.min_le_left _ _)))
      makerFills ?_ ?_
    · have full : (recordFill maker (Execution.makerSells ⟨matching.taker, maker, price⟩)).isFullyFilled
          = true ↔ maker.filledAmount + Execution.makerSells ⟨matching.taker, maker, price⟩ =
            maker.sellAmount := by
        unfold Order.isFullyFilled
        rw [makerFills.grows, decide_eq_true_eq]
        exact ⟨fun above => Nat.le_antisymm makerFills.within above, fun same => same.ge⟩
      rw [isBook, ← if_congr full rfl rfl]
      split
      · rw [Book.orders_close, if_pos rfl]
      · rw [Book.orders_store]
        exact if_pos rfl
    · intro orderId isOther
      rw [isBook]
      split
      · rw [Book.orders_close, if_neg isOther]
      · rw [Book.orders_store]
        exact if_neg isOther

theorem StepFills.amounts (step : StepFills matching execution next) (amounts : matching.Amounts) :
    next.Amounts := by
  cases step with
  | idle _ taker records =>
    refine ⟨taker ▸ amounts.within, taker ▸ amounts.word, fun orderId order stored => ?_⟩
    rcases records orderId with gone | same
    · cases gone.symm.trans stored
    · exact amounts.words orderId order (same ▸ stored)
  | filled execution _ makerId known taker fills takerFills makerFills maker others =>
    refine ⟨?_, taker ▸ amounts.word, fun orderId order stored => ?_⟩
    · rw [taker, takerFills.grows]
      exact takerFills.within
    · by_cases isMaker : orderId = execution.maker.id
      · rw [isMaker, maker] at stored
        split at stored
        · cases stored
        · cases stored
          exact amounts.words makerId execution.maker known
      · exact amounts.words orderId order (others orderId isMaker ▸ stored)

theorem matchLoop_amounts (candidates : List (Nat × Nat)) (amounts : matching.Amounts) :
    (matchLoop takerLimit candidates matching).Amounts :=
  matchLoop_keeps candidates (fun _ _ amounts _ ran =>
    ((matchCandidate_step ran).stepFills amounts).amounts amounts) amounts

/-- The amounts over a run of the loop: after any number of candidates the taker and every order
that can be read are filled within what they sell, each candidate fills exactly what its execution
takes, and at the end the taker is deleted exactly when it has sold everything. -/
structure RunFills (takerLimit : Nat) (candidates : List (Nat × Nat)) (start : Matching) : Prop where
  taker : ∀ passed, (matchLoop takerLimit (candidates.take passed) start).taker.filledAmount ≤
    (matchLoop takerLimit (candidates.take passed) start).taker.sellAmount
  orders : ∀ passed orderId order,
    (matchLoop takerLimit (candidates.take passed) start).state.getOrder orderId = some order →
      order.filledAmount ≤ order.sellAmount
  steps : ∀ passed candidate next,
    matchCandidate takerLimit (matchLoop takerLimit (candidates.take passed) start) candidate =
        some next →
      StepFills (matchLoop takerLimit (candidates.take passed) start)
        (executionAt takerLimit (matchLoop takerLimit (candidates.take passed) start) candidate) next
  ended : (persistTaker (matchLoop takerLimit candidates start)).book.orders.find? start.taker.id =
    if (matchLoop takerLimit candidates start).taker.filledAmount =
        (matchLoop takerLimit candidates start).taker.sellAmount then none
    else some (matchLoop takerLimit candidates start).taker

/-- **No order is filled beyond what it sells**, for any taker and any stored orders. -/
theorem matchPassiveOrder_fills_within (state : StateAccess) (taker : Order)
    (word : taker.sellAmount < 2 ^ 64)
    (words : ∀ orderId order, state.book.orders.find? orderId = some order →
      order.sellAmount < 2 ^ 64) :
    matchPassiveOrder state taker = (state, []) ∨
      ∃ takerLimit candidates,
        matchPassiveOrder state taker =
            (persistTaker (matchLoop takerLimit candidates ⟨state, taker, []⟩),
              (matchLoop takerLimit candidates ⟨state, taker, []⟩).fills) ∧
          RunFills takerLimit candidates ⟨state, taker, []⟩ := by
  unfold matchPassiveOrder
  split
  · exact .inl rfl
  next usable =>
    simp only [not_or] at usable
    split
    · exact .inl rfl
    next takerLimit _ =>
      have within : taker.filledAmount ≤ taker.sellAmount := by
        have unfilled := usable.2.2.1
        unfold Order.isFullyFilled at unfilled
        rw [decide_eq_true_eq] at unfilled
        exact (Nat.lt_of_not_le unfilled).le
      have amounts : Matching.Amounts ⟨state, taker, []⟩ := ⟨within, word, words⟩
      refine .inr ⟨takerLimit, _, rfl, ?_, ?_, ?_, ?_⟩
      · exact fun passed => (matchLoop_amounts _ amounts).within
      · exact fun _ _ _ found => (Order.facts_of_isValid (getOrder_stored found).2).2.2
      · exact fun passed _ _ ran => (matchCandidate_step ran).stepFills (matchLoop_amounts _ amounts)
      · rw [← (matchLoop_sameRow _ _).id]
        generalize ended : matchLoop takerLimit _ _ = matching
        have within := ended ▸ (matchLoop_amounts _ amounts).within
        have full : matching.taker.isFullyFilled = true ↔
            matching.taker.filledAmount = matching.taker.sellAmount := by
          unfold Order.isFullyFilled
          rw [decide_eq_true_eq]
          exact ⟨fun above => Nat.le_antisymm within above, fun same => same.ge⟩
        rw [persistTaker_book, ← if_congr full rfl rfl]
        split
        · unfold Book.delete
          dsimp only
          rw [Table.find?_erase, if_pos rfl]
        · rw [Book.orders_list, Book.orders_store, if_pos rfl]

namespace Regtest

/-- Five of the base token for ten of the quote token, and the reverse. -/
def sellsFive : Order :=
  { id := 1, owner := 20, sellToken := 1, buyToken := 2, sellAmount := 5, minBuyAmount := 10 }

def sellsTenForFive : Order :=
  { id := 2, owner := 21, sellToken := 2, buyToken := 1, sellAmount := 10, minBuyAmount := 5 }

theorem sellsFive_fills_within :
    (matchPassiveOrder (bookOf sellsFive) sellsTenForFive).2.length = 1 ∧
      ∃ takerLimit candidates,
        matchPassiveOrder (bookOf sellsFive) sellsTenForFive =
            (persistTaker (matchLoop takerLimit candidates ⟨bookOf sellsFive, sellsTenForFive, []⟩),
              (matchLoop takerLimit candidates ⟨bookOf sellsFive, sellsTenForFive, []⟩).fills) ∧
          RunFills takerLimit candidates ⟨bookOf sellsFive, sellsTenForFive, []⟩ := by
  have filled : (matchPassiveOrder (bookOf sellsFive) sellsTenForFive).2.length = 1 := by
    decide +kernel
  have words : ∀ entry ∈ (bookOf sellsFive).book.orders.entries, entry.2.sellAmount < 2 ^ 64 := by
    decide +kernel
  refine ⟨filled, (matchPassiveOrder_fills_within (bookOf sellsFive) sellsTenForFive (by decide)
    fun orderId order stored => words _ (Table.find?_eq_some_iff.mp stored)).resolve_left ?_⟩
  intro same
  rw [same] at filled
  cases filled

end Regtest

end Clarity.Core
