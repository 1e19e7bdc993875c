import Clarity.Core.BookInvariant

/-!
Contract: which resting orders the matching of a taker leaves behind.

Owns: `Crossing`, that a resting order of another owner crosses a taker; `ClearsCrossing`, that the
taker takes whole all that crosses it, as the book lists it before; and that the book is uncrossed
after the taker was matched exactly when this is so. Also that an order has one row.

## What the loop leaves

The loop walks the opposite side from its best price on. It stops at the first order that does
not cross, and because the side is sorted, nothing behind it crosses. It also stops where one of
the two remainders is worth less than one unit of the base token, and there an order that does
cross stays. And it walks on after a fill that has left a remainder in both orders, which rounding
makes possible.
-/

namespace Clarity.Core

open Common Crypto Library State State.StateAccess OrderBook

variable {state : StateAccess} {order taker : Order} {key : BookKey} {maker : Order}

/-! ## Crossed books -/

/-- The key of a row on the other side of a taker's pair. -/
structure Opposite (taker : Order) (key : BookKey) : Prop where
  baseToken : key.baseToken = min taker.sellToken taker.buyToken
  quoteToken : key.quoteToken = max taker.sellToken taker.buyToken
  side : key.side = 1 - sideOf taker

/-- A resting order of another owner that crosses a taker. -/
structure Crossing (state : StateAccess) (taker : Order) (takerLimit : Nat) (maker : Order) :
    Prop where
  listed : ∃ key, state.book.rows.find? key = some maker.id ∧ Opposite taker key
  found : state.getOrder maker.id = some maker
  other : maker.owner ≠ taker.owner
  crosses : ∃ price, canonicalPrice maker = some price ∧
    OrderBook.crosses takerLimit price (sideOf taker) = true

/-- No resting order of another owner crosses the taker. -/
def Uncrossed (state : StateAccess) (taker : Order) : Prop :=
  ∀ takerLimit maker, canonicalPrice taker = some takerLimit →
    ¬Crossing state taker takerLimit maker

/-! ## The walk of the loop -/

def candidatesOf (state : StateAccess) (taker : Order) : List (Nat × Nat) :=
  (state.bookLevels taker.sellToken taker.buyToken (1 - sideOf taker)).take
    MAX_BOOK_LEVELS_PER_TAKER

/-- Before an order that crosses there is none that does not. -/
abbrev BestFirst (taker : Order) (takerLimit : Nat) (candidates : List (Nat × Nat)) : Prop :=
  candidates.Pairwise fun earlier later =>
    OrderBook.crosses takerLimit later.2 (sideOf taker) = true →
      OrderBook.crosses takerLimit earlier.2 (sideOf taker) = true

def examined (takerLimit : Nat) : List (Nat × Nat) → Matching → Nat
  | [], _ => 0
  | candidate :: rest, matching =>
    match matchCandidate takerLimit matching candidate with
    | none => 1
    | some next => 1 + examined takerLimit rest next

/-- The loop leaves no order behind that crosses: it does not stop at one, and every maker it
fills is full. -/
def leavesNone (takerLimit : Nat) : List (Nat × Nat) → Matching → Bool
  | [], _ => true
  | candidate :: rest, matching =>
    match matchCandidate takerLimit matching candidate with
    | none => !OrderBook.crosses takerLimit candidate.2 (sideOf matching.taker)
    | some next =>
      (match executionAt takerLimit matching candidate with
      | none => true
      | some execution =>
        (recordFill execution.maker execution.makerSells).isFullyFilled) &&
      leavesNone takerLimit rest next

def stops (takerLimit : Nat) : List (Nat × Nat) → Matching → Bool
  | [], _ => false
  | candidate :: rest, matching =>
    match matchCandidate takerLimit matching candidate with
    | none => true
    | some next => stops takerLimit rest next

theorem examined_of_not_stops {takerLimit : Nat} (candidates : List (Nat × Nat))
    (matching : Matching) (goesOn : stops takerLimit candidates matching = false) :
    examined takerLimit candidates matching = candidates.length := by
  induction candidates generalizing matching with
  | nil => rfl
  | cons candidate rest ih =>
    unfold stops at goesOn
    unfold examined
    cases ran : matchCandidate takerLimit matching candidate with
    | none =>
      rw [ran] at goesOn
      cases goesOn
    | some next =>
      rw [ran] at goesOn
      dsimp only at goesOn ⊢
      rw [ih next goesOn, List.length_cons, Nat.add_comm]

/-! ## One step -/

theorem canonicalPrice_le {price : Nat} (priced : canonicalPrice order = some price) :
    price ≤ UINT64_MAX := by
  unfold canonicalPrice at priced
  split at priced
  · cases priced
  · split at priced
    · dsimp only at priced
      split at priced
      · cases priced
      next fits =>
        cases priced
        exact Nat.le_trans (Nat.div_le_self _ _) (Nat.not_lt.mp fits)
    · dsimp only at priced
      split at priced
      · cases priced
      next amounts _ fits =>
        cases priced
        -- a remainder means that the divisor is at least two
        split
        next someRest =>
          have divisor : 2 ≤ order.minBuyAmount := by
            by_contra small
            have one : order.minBuyAmount = 1 := by omega
            rw [one, Nat.mod_one] at someRest
            exact someRest rfl
          have half : order.sellAmount * BOOK_PRICE_SCALE / order.minBuyAmount ≤
              order.sellAmount * BOOK_PRICE_SCALE / 2 :=
            Nat.div_le_div_left divisor (by decide)
          have some : order.sellAmount * BOOK_PRICE_SCALE ≠ 0 := by
            intro none
            rw [none, Nat.zero_mod] at someRest
            exact someRest rfl
          unfold UINT64_MAX at fits ⊢
          omega
        · exact Nat.le_trans (Nat.div_le_self _ _) (Nat.not_lt.mp fits)

/-- A candidate is a row of the book, at the price of its record. -/
structure IsCandidate (state : StateAccess) (taker : Order) (candidate : Nat × Nat) (key : BookKey)
    (order : Order) : Prop where
  listed : state.book.rows.find? key = some candidate.1
  opposite : Opposite taker key
  id : order.id = candidate.1
  row : state.book.Row key order candidate.2

theorem sideOf_congr {before after : Order} (same : Book.SameRow before after) :
    sideOf after = sideOf before := by
  unfold sideOf
  rw [same.sellToken, same.buyToken]

/-- What holds between the passes of the loop: the book is sound, and what is still to be walked
are different rows of it. -/
structure Walk (taker : Order) (matching : Matching) (remaining : List (Nat × Nat)) : Prop where
  sound : matching.state.book.Sound
  sameRow : Book.SameRow taker matching.taker
  rows : ∀ candidate ∈ remaining, ∃ key order,
    IsCandidate matching.state taker candidate key order
  distinct : (remaining.map Prod.fst).Nodup

section
variable {taker : Order} {matching next : Matching} {candidate : Nat × Nat}
  {remaining : List (Nat × Nat)} {takerLimit : Nat}

theorem IsCandidate.step {other : Nat × Nat} {key own : BookKey} {order : Order}
    (sound : matching.state.book.Sound) (isRow : IsCandidate matching.state taker other key order)
    (isListed : matching.state.book.rows.find? own = some candidate.1)
    (isOther : other.1 ≠ candidate.1)
    (ran : matchCandidate takerLimit matching candidate = some next) :
    ∃ key order, IsCandidate next.state taker other key order := by
  have step := matchCandidate_book ran
  have listed := step.other_row sound isListed isOther isRow.listed
  obtain ⟨record, price, sameId, row⟩ := (step.sound sound).listed key other.1 listed
  have sameRecord := row.stored
  have before := isRow.row.stored
  rw [isRow.id] at before
  rw [sameId, step.other_order sound isOther, before] at sameRecord
  cases sameRecord
  have samePrice := row.priced
  rw [isRow.row.priced] at samePrice
  cases samePrice
  exact ⟨key, order, listed, isRow.opposite, isRow.id, row⟩

theorem Walk.step (walk : Walk taker matching (candidate :: remaining))
    (ran : matchCandidate takerLimit matching candidate = some next) :
    Walk taker next remaining := by
  obtain ⟨own, ownOrder, isOwn⟩ := walk.rows candidate List.mem_cons_self
  have distinct := walk.distinct
  rw [List.map_cons, List.nodup_cons] at distinct
  refine ⟨(matchCandidate_book ran).sound walk.sound,
    walk.sameRow.trans (matchCandidate_step ran).sameRow, ?_, distinct.2⟩
  intro other member
  obtain ⟨key, order, isRow⟩ := walk.rows other (List.mem_cons_of_mem _ member)
  refine isRow.step walk.sound isOwn.listed ?_ ran
  intro same
  exact distinct.1 (same ▸ List.mem_map_of_mem member)

/-- An order the step is not about crosses after it exactly if it did before. -/
theorem crossing_step_iff (walk : Walk taker matching (candidate :: remaining))
    (ran : matchCandidate takerLimit matching candidate = some next)
    (isOther : maker.id ≠ candidate.1) :
    Crossing next.state taker takerLimit maker ↔ Crossing matching.state taker takerLimit maker := by
  have step := matchCandidate_book ran
  obtain ⟨own, ownOrder, isOwn⟩ := walk.rows candidate List.mem_cons_self
  have record := step.other_order walk.sound isOther
  have found : next.state.getOrder maker.id = matching.state.getOrder maker.id := by
    unfold getOrder
    exact congrArg (Option.filter Order.isValid) record
  constructor
  · rintro ⟨⟨key, listed, opposite⟩, isFound, other, crosses⟩
    exact ⟨⟨key, step.rows listed, opposite⟩, found ▸ isFound, other, crosses⟩
  · rintro ⟨⟨key, listed, opposite⟩, isFound, other, crosses⟩
    exact ⟨⟨key, step.other_row walk.sound isOwn.listed isOther listed, opposite⟩, found ▸ isFound,
      other, crosses⟩

theorem crossing_matchLoop (candidates tail : List (Nat × Nat))
    (walk : Walk taker matching (candidates ++ tail))
    (isOther : ∀ candidate ∈ candidates, maker.id ≠ candidate.1)
    (crossing : Crossing matching.state taker takerLimit maker) :
    Crossing (matchLoop takerLimit candidates matching).state taker takerLimit maker := by
  induction candidates generalizing matching with
  | nil => exact crossing
  | cons candidate rest ih =>
    unfold matchLoop
    cases ran : matchCandidate takerLimit matching candidate with
    | none => exact crossing
    | some next =>
      refine ih (walk.step ran)
        (fun other member => isOther other (List.mem_cons_of_mem _ member)) ?_
      exact (crossing_step_iff walk ran (isOther candidate List.mem_cons_self)).mpr crossing

theorem getOrder_close {state after : StateAccess} {order : Order}
    (closed : after.book = state.book.close order) : after.getOrder order.id = none := by
  have erased : after.book.orders.find? order.id = none := by
    rw [closed]
    unfold Book.close Book.delete
    dsimp only
    rw [Table.find?_erase, if_pos rfl]
  unfold getOrder
  exact congrArg (Option.filter Order.isValid) erased

/-- The order of a candidate that was not filled does not cross any more. -/
theorem not_crossing_of_unfilled (walk : Walk taker matching (candidate :: remaining))
    (ran : matchCandidate takerLimit matching candidate = some next)
    (unfilled : executionAt takerLimit matching candidate = none)
    (isMaker : maker.id = candidate.1) : ¬Crossing next.state taker takerLimit maker := by
  intro crossing
  have isFound := crossing.found
  rw [isMaker] at isFound
  have step := matchCandidate_step ran
  rw [unfilled] at step
  cases step with
  | missing found =>
    rw [found] at isFound
    cases isFound
  | unpriced order found noPrice =>
    rw [found] at isFound
    cases isFound
    obtain ⟨price, priced, _⟩ := crossing.crosses
    rw [noPrice] at priced
    cases priced
  | orphaned order found =>
    have isId := walk.sound.filed _ _ (getOrder_stored found).1
    have gone := @getOrder_close matching.state
      ((matching.state.removeFromOrderBook order).deleteOrder order.id) order (by
        rw [book_deleteOrder, book_removeFromOrderBook]
        rfl)
    rw [← isId] at isFound
    exact absurd (gone.symm.trans isFound) (by simp)
  | own order found sameOwner =>
    have isId := walk.sound.filed _ _ (getOrder_stored found).1
    rcases @book_refundOrder matching.state order true with same | closed
    · have kept : (matching.state.refundOrder order true).getOrder candidate.1 =
          matching.state.getOrder candidate.1 :=
        congrArg (fun book => (book.orders.find? candidate.1).filter Order.isValid) same
      rw [isFound, found] at kept
      cases kept
      exact crossing.other (sameOwner.trans walk.sameRow.owner)
    · have gone := getOrder_close closed
      rw [isId] at gone
      exact absurd (gone.symm.trans isFound) (by simp)

/-- What a fill leaves of a maker: nothing where it is full, else its record with the fill. -/
theorem getOrder_tryFill {orderId price : Nat} (found : matching.state.getOrder orderId = some maker)
    (filled : tryFill matching maker price = some next) :
    next.state.getOrder maker.id =
      if (recordFill maker (Execution.makerSells ⟨matching.taker, maker, price⟩)).isFullyFilled then
        none
      else some (recordFill maker (Execution.makerSells ⟨matching.taker, maker, price⟩)) := by
  obtain ⟨_, valid⟩ := getOrder_stored found
  have written := tryFill_book filled
  split
  next full =>
    rw [if_pos full] at written
    exact getOrder_close written
  next unfilled =>
    rw [if_neg unfilled] at written
    have covered : Execution.makerSells ⟨matching.taker, maker, price⟩ ≤
        maker.remainingAmount := baseToSellAmount_le (Nat.min_le_right _ _)
    have record : next.state.book.orders.find? maker.id = some (recordFill maker
        (Execution.makerSells ⟨matching.taker, maker, price⟩)) := by
      rw [written, Book.orders_store]
      exact if_pos rfl
    have within := (recordFill_facts (Order.facts_of_isValid valid).2.2 covered).1
    refine Option.filter_eq_some_iff.mpr ⟨record, ?_⟩
    unfold Order.isValid at valid ⊢
    simp only [Bool.and_eq_true, Bool.not_eq_true', decide_eq_false_iff_not] at valid ⊢
    obtain ⟨⟨⟨⟨first, _⟩, count⟩, pool⟩, conditions⟩ := valid
    exact ⟨⟨⟨⟨first, Nat.not_lt.mpr within⟩, count⟩, pool⟩, conditions⟩

/-- The order of a candidate that was filled is gone when it is full, and crosses else. -/
theorem crossing_of_filled (walk : Walk taker matching (candidate :: remaining))
    (ran : matchCandidate takerLimit matching candidate = some next) {execution : Execution}
    (filled : executionAt takerLimit matching candidate = some execution) :
    (recordFill execution.maker execution.makerSells).id = candidate.1 ∧
      if (recordFill execution.maker execution.makerSells).isFullyFilled then
        ∀ maker, maker.id = candidate.1 → ¬Crossing next.state taker takerLimit maker
      else Crossing next.state taker takerLimit
        (recordFill execution.maker execution.makerSells) := by
  have step := matchCandidate_step ran
  rw [filled] at step
  cases step with
  | filled maker price next found otherOwner priced crosses fills =>
    have isId := walk.sound.filed _ _ (getOrder_stored found).1
    have left := getOrder_tryFill found fills
    refine ⟨isId, ?_⟩
    split
    next full =>
      intro order isOrder crossing
      have isFound := crossing.found
      rw [isOrder, ← isId, left, if_pos full] at isFound
      cases isFound
    next unfilled =>
      rw [if_neg unfilled] at left
      have written := tryFill_book fills
      rw [if_neg unfilled] at written
      obtain ⟨key, order, isCandidate⟩ := walk.rows candidate List.mem_cons_self
      refine ⟨⟨key, ?_, isCandidate.opposite⟩, left, ?_, price, ?_, ?_⟩
      · rw [written]
        exact isCandidate.listed.trans (congrArg some isId.symm)
      · rw [← walk.sameRow.owner]
        exact otherOwner
      · rw [(sameRow_recordFill maker _).canonicalPrice]
        exact priced
      · rw [← sideOf_congr walk.sameRow]
        exact crosses

/-- Where the loop stops at an order that crosses, this order stays. -/
theorem crossing_of_stop (walk : Walk taker matching (candidate :: remaining))
    (ran : matchCandidate takerLimit matching candidate = none)
    (unfilled : matching.taker.isFullyFilled = false)
    (crosses : OrderBook.crosses takerLimit candidate.2 (sideOf taker) = true) :
    ∃ maker, Crossing matching.state taker takerLimit maker := by
  obtain ⟨key, order, isCandidate⟩ := walk.rows candidate List.mem_cons_self
  unfold matchCandidate at ran
  dsimp only at ran
  rw [unfilled, if_neg (by decide), sideOf_congr walk.sameRow, crosses, if_neg (by decide)] at ran
  cases found : matching.state.getOrder candidate.1 with
  | none =>
    rw [found] at ran
    cases ran
  | some maker =>
    have isOrder := isCandidate.row.stored
    rw [isCandidate.id, (getOrder_stored found).1] at isOrder
    cases isOrder
    rw [found] at ran
    dsimp only at ran
    split at ran
    · cases ran
    · split at ran
      · cases ran
      next otherOwner =>
        refine ⟨order, ⟨key, ?_, isCandidate.opposite⟩, ?_, ?_, candidate.2,
          isCandidate.row.priced, crosses⟩
        · rw [isCandidate.id]
          exact isCandidate.listed
        · rw [isCandidate.id]
          exact found
        · rw [← walk.sameRow.owner]
          exact otherOwner

/-! ## The whole walk -/

/-- All that crosses is still to be walked, and behind an order that does not cross none does. -/
structure Covers (taker : Order) (takerLimit : Nat) (state : StateAccess)
    (remaining : List (Nat × Nat)) : Prop where
  all : ∀ maker, Crossing state taker takerLimit maker →
    ∃ candidate ∈ remaining, candidate.1 = maker.id
  sorted : BestFirst taker takerLimit remaining

/-- A candidate that crosses has a price that does. -/
theorem IsCandidate.crosses {key : BookKey} {order : Order} {state : StateAccess}
    (isCandidate : IsCandidate state taker candidate key order)
    (crossing : Crossing state taker takerLimit maker) (isMaker : candidate.1 = maker.id) :
    OrderBook.crosses takerLimit candidate.2 (sideOf taker) = true := by
  have stored := (getOrder_stored crossing.found).1
  have isOrder := isCandidate.row.stored
  rw [isCandidate.id, isMaker, stored] at isOrder
  cases isOrder
  obtain ⟨price, priced, crosses⟩ := crossing.crosses
  rw [isCandidate.row.priced] at priced
  cases priced
  exact crosses

/-- Once the walk is at an order that does not cross, nothing crosses. -/
theorem Covers.none_crossing (walk : Walk taker matching (candidate :: remaining))
    (covers : Covers taker takerLimit matching.state (candidate :: remaining))
    (apart : OrderBook.crosses takerLimit candidate.2 (sideOf taker) = false)
    (maker : Order) : ¬Crossing matching.state taker takerLimit maker := by
  intro crossing
  obtain ⟨other, member, isMaker⟩ := covers.all maker crossing
  obtain ⟨key, order, isCandidate⟩ := walk.rows other member
  have crosses := isCandidate.crosses crossing isMaker
  rcases List.mem_cons.mp member with isHead | later
  · rw [isHead, apart] at crosses
    cases crosses
  · have first := List.rel_of_pairwise_cons covers.sorted later crosses
    rw [apart] at first
    cases first

theorem Covers.step (walk : Walk taker matching (candidate :: remaining))
    (covers : Covers taker takerLimit matching.state (candidate :: remaining))
    (ran : matchCandidate takerLimit matching candidate = some next)
    (gone : ∀ maker, maker.id = candidate.1 → ¬Crossing next.state taker takerLimit maker) :
    Covers taker takerLimit next.state remaining := by
  refine ⟨fun maker crossing => ?_, covers.sorted.of_cons⟩
  have isOther : maker.id ≠ candidate.1 := fun same => gone maker same crossing
  obtain ⟨other, member, isMaker⟩ :=
    covers.all maker ((crossing_step_iff walk ran isOther).mp crossing)
  rcases List.mem_cons.mp member with isHead | later
  · rw [isHead] at isMaker
    exact absurd isMaker.symm isOther
  · exact ⟨other, later, isMaker⟩

/-- The loop leaves nothing that crosses exactly if it passes nothing by. The induction is on
the candidates; what lies behind the last one matters only where the loop does not stop. -/
theorem matchLoop_uncrossed_iff (candidates tail : List (Nat × Nat))
    (walk : Walk taker matching (candidates ++ tail))
    (covers : Covers taker takerLimit matching.state (candidates ++ tail))
    (resting : (matchLoop takerLimit candidates matching).taker.isFullyFilled = false)
    (enough : stops takerLimit candidates matching = true ∨ tail = []) :
    (∀ maker, ¬Crossing (matchLoop takerLimit candidates matching).state taker takerLimit maker) ↔
      leavesNone takerLimit candidates matching = true := by
  induction candidates generalizing matching with
  | nil =>
    have nothing : tail = [] := enough.resolve_left (by simp [stops])
    subst nothing
    refine ⟨fun _ => rfl, fun _ maker crossing => ?_⟩
    obtain ⟨_, member, _⟩ := covers.all maker crossing
    cases member
  | cons candidate rest ih =>
    unfold matchLoop at resting ⊢
    unfold stops at enough
    unfold leavesNone
    cases ran : matchCandidate takerLimit matching candidate with
    | none =>
      rw [ran] at resting
      dsimp only at resting ⊢
      rw [sideOf_congr walk.sameRow]
      cases crosses : OrderBook.crosses takerLimit candidate.2 (sideOf taker) with
      | false => exact ⟨fun _ => rfl, fun _ => covers.none_crossing walk crosses⟩
      | true =>
        obtain ⟨maker, crossing⟩ := crossing_of_stop walk ran resting crosses
        exact ⟨fun uncrossed => absurd crossing (uncrossed maker), fun impossible => by
          cases impossible⟩
    | some next =>
      rw [ran] at resting enough
      dsimp only at resting enough ⊢
      have later := walk.step ran
      have continues (gone : ∀ maker, maker.id = candidate.1 →
          ¬Crossing next.state taker takerLimit maker) :=
        ih later (covers.step walk ran gone) resting enough
      cases execution : executionAt takerLimit matching candidate with
      | none =>
        rw [continues fun maker isMaker => not_crossing_of_unfilled walk ran execution isMaker]
        simp
      | some fill =>
        obtain ⟨isId, outcome⟩ := crossing_of_filled walk ran execution
        dsimp only
        cases full : (recordFill fill.maker fill.makerSells).isFullyFilled with
        | true =>
          rw [full, if_pos rfl] at outcome
          rw [continues outcome]
          simp
        | false =>
          rw [full, if_neg (by decide)] at outcome
          -- the rest of the walk does not come back to the order
          have distinct := walk.distinct
          rw [List.cons_append, List.map_cons, List.nodup_cons] at distinct
          have stays := crossing_matchLoop rest tail later (fun other member same =>
            distinct.1 (isId ▸ same ▸ List.mem_map_of_mem
              (List.mem_append_left _ member))) outcome
          exact ⟨fun uncrossed => absurd stays (uncrossed _), fun impossible => by
            simp at impossible⟩

end

/-! ## Makers that are taken whole -/

/-- The base quantity of what is left of a maker. -/
def wholeBase (maker : Order) (price : Nat) : Nat :=
  sellAmountToBase maker.remainingAmount (sellsBase maker) price

/-- What a taker on the other side pays for it. -/
def wholeCost (maker : Order) (price : Nat) : Nat :=
  baseToSellAmount (wholeBase maker price) (!sellsBase maker) price

/-- With this remainder a taker can pay for all that is left of a maker, and the maker sells all of
it: no rounding takes a part. -/
structure SellsWhole (remaining : Nat) (maker : Order) (price : Nat) : Prop where
  covered : wholeBase maker price ≤ sellAmountToBase remaining (!sellsBase maker) price
  paid : wholeCost maker price ≠ 0
  sold : baseToSellAmount (wholeBase maker price) (sellsBase maker) price = maker.remainingAmount

instance (remaining : Nat) (maker : Order) (price : Nat) :
    Decidable (SellsWhole remaining maker price) :=
  decidable_of_iff (_ ∧ _ ∧ _) ⟨fun parts => ⟨parts.1, parts.2.1, parts.2.2⟩,
    fun whole => ⟨whole.covered, whole.paid, whole.sold⟩⟩

/-- A taker with this remainder takes makers whole one after the other. -/
def TakesAll : Nat → List (Order × Nat) → Prop
  | _, [] => True
  | remaining, level :: rest =>
    SellsWhole remaining level.1 level.2 ∧ TakesAll (remaining - wholeCost level.1 level.2) rest

instance decidableTakesAll :
    (remaining : Nat) → (levels : List (Order × Nat)) → Decidable (TakesAll remaining levels)
  | _, [] => .isTrue trivial
  | remaining, level :: rest =>
    let _ := decidableTakesAll (remaining - wholeCost level.1 level.2) rest
    inferInstanceAs (Decidable (_ ∧ _))

/-- The orders of other owners that cross a taker, with their prices, as the book lists them. -/
def crossingLevels (state : StateAccess) (taker : Order) (takerLimit : Nat)
    (candidates : List (Nat × Nat)) : List (Order × Nat) :=
  (candidates.filter fun candidate => crosses takerLimit candidate.2 (sideOf taker)).filterMap
    fun candidate => ((state.getOrder candidate.1).filter fun maker =>
      maker.owner ≠ taker.owner).map fun maker => (maker, candidate.2)

theorem sellAmount_le_of_priced {price : Nat} (priced : canonicalPrice order = some price)
    (some : price ≠ 0) : order.sellAmount ≤ UINT64_MAX := by
  unfold canonicalPrice at priced
  split at priced
  · cases priced
  · split at priced
    · dsimp only at priced
      split at priced
      · cases priced
      next fits =>
        cases priced
        have divides := (Nat.div_ne_zero_iff.mp some).2
        omega
    · dsimp only at priced
      split at priced
      · cases priced
      next fits =>
        have scale : 1 ≤ BOOK_PRICE_SCALE := by decide
        have larger := Nat.le_mul_of_pos_right order.sellAmount scale
        omega

/-- A smaller quantity than all of an order sells less than all of it. -/
theorem baseToSellAmount_lt {remaining quantity price : Nat} {orderSellsBase : Bool}
    (less : quantity < sellAmountToBase remaining orderSellsBase price) :
    baseToSellAmount quantity orderSellsBase price < remaining := by
  unfold sellAmountToBase at less
  unfold baseToSellAmount
  cases orderSellsBase with
  | true => exact less
  | false =>
    simp only [Bool.false_eq_true, if_false] at less ⊢
    split at less
    · cases less
    next priced =>
      split at less
      · cases less
      · have bound : quantity * price < remaining * BOOK_PRICE_SCALE := by
          calc quantity * price
              < (quantity + 1) * price := Nat.mul_lt_mul_of_pos_right (Nat.lt_succ_self _)
                (Nat.pos_of_ne_zero priced)
            _ ≤ remaining * BOOK_PRICE_SCALE / price * price := Nat.mul_le_mul_right _ less
            _ ≤ remaining * BOOK_PRICE_SCALE := Nat.div_mul_le_self _ _
        have below := (Nat.div_lt_iff_lt_mul (by decide : 0 < BOOK_PRICE_SCALE)).mpr bound
        split
        · omega
        · exact below

section
variable {execution : Execution}
  (sides : sellsBase execution.taker = !sellsBase execution.maker)

include sides

theorem qtyBase_of_covered (covered : wholeBase execution.maker execution.price ≤ sellAmountToBase
      execution.taker.remainingAmount (!sellsBase execution.maker) execution.price) :
    execution.qtyBase = wholeBase execution.maker execution.price := by
  rw [← sides] at covered
  exact Nat.min_eq_right covered

theorem takerSells_whole
    (whole : SellsWhole execution.taker.remainingAmount execution.maker execution.price) :
    execution.takerSells = wholeCost execution.maker execution.price := by
  unfold Execution.takerSells wholeCost
  rw [qtyBase_of_covered sides whole.covered, sides]

/-- A fill takes a maker whole exactly when the taker covers all of it and no rounding is left. -/
theorem makerSells_whole_iff (pays : execution.takerSells ≠ 0) :
    execution.makerSells = execution.maker.remainingAmount ↔
      SellsWhole execution.taker.remainingAmount execution.maker execution.price := by
  constructor
  · intro sold
    have covered : wholeBase execution.maker execution.price ≤ sellAmountToBase
        execution.taker.remainingAmount (!sellsBase execution.maker) execution.price := by
      by_contra less
      rw [← sides] at less
      have isMin : execution.qtyBase = _ := Nat.min_eq_left (Nat.le_of_not_le less)
      have part := baseToSellAmount_lt (isMin ▸ Nat.lt_of_not_le less)
      exact absurd sold part.ne
    unfold Execution.takerSells at pays
    unfold Execution.makerSells at sold
    rw [qtyBase_of_covered sides covered] at pays sold
    rw [sides] at pays
    exact ⟨covered, pays, sold⟩
  · intro whole
    unfold Execution.makerSells
    rw [qtyBase_of_covered sides whole.covered]
    exact whole.sold

end

theorem recordFill_full_iff {amount : Nat} (within : order.filledAmount ≤ order.sellAmount)
    (small : order.sellAmount ≤ UINT64_MAX) (covered : amount ≤ order.remainingAmount) :
    (recordFill order amount).isFullyFilled = true ↔ amount = order.remainingAmount := by
  unfold Order.remainingAmount sub64 at covered ⊢
  unfold recordFill Order.isFullyFilled u64
  simp only [decide_eq_true_eq]
  unfold UINT64_MAX at small
  omega

theorem baseToSellAmount_zero (orderSellsBase : Bool) (price : Nat) :
    baseToSellAmount 0 orderSellsBase price = 0 := by
  cases orderSellsBase <;> simp [baseToSellAmount]

theorem sellAmountToBase_zero (orderSellsBase : Bool) (price : Nat) :
    sellAmountToBase 0 orderSellsBase price = 0 := by
  cases orderSellsBase <;> simp [sellAmountToBase]

theorem tryFill_eq_none_iff {matching : Matching} {price : Nat} :
    tryFill matching maker price = none ↔
      Execution.qtyBase ⟨matching.taker, maker, price⟩ = 0 ∨
        Execution.takerSells ⟨matching.taker, maker, price⟩ = 0 ∨
        Execution.makerSells ⟨matching.taker, maker, price⟩ = 0 := by
  constructor
  · intro stopped
    unfold tryFill at stopped
    dsimp only at stopped
    split at stopped
    next none => exact Or.inl none
    · split at stopped
      next none => exact Or.inr none
      · cases stopped
  · intro nothing
    cases filled : tryFill matching maker price with
    | none => rfl
    | some next =>
      obtain ⟨someBase, pays, sells, _⟩ := tryFill_eq filled _ rfl
      exact absurd nothing (not_or.mpr ⟨someBase, not_or.mpr ⟨pays, sells⟩⟩)

/-- The loop stops at no maker that would be taken whole. -/
theorem not_sellsWhole_of_stop {matching : Matching} {price : Nat}
    (sides : sellsBase matching.taker = !sellsBase maker)
    (stopped : tryFill matching maker price = none) :
    ¬SellsWhole matching.taker.remainingAmount maker price := by
  intro whole
  have quantity := @qtyBase_of_covered ⟨matching.taker, maker, price⟩ sides whole.covered
  have sold : Execution.makerSells ⟨matching.taker, maker, price⟩ = maker.remainingAmount := by
    unfold Execution.makerSells
    rw [quantity]
    exact whole.sold
  have someBase : wholeBase maker price ≠ 0 := by
    intro none
    apply whole.paid
    unfold wholeCost
    rw [none, baseToSellAmount_zero]
  have someLeft : maker.remainingAmount ≠ 0 := by
    intro none
    apply someBase
    unfold wholeBase
    rw [none, sellAmountToBase_zero]
  rw [tryFill_eq_none_iff, quantity, takerSells_whole sides whole, sold] at stopped
  exact stopped.elim someBase fun later => later.elim whole.paid someLeft

section
variable {matching next : Matching} {candidate : Nat × Nat} {remaining : List (Nat × Nat)}
  {takerLimit : Nat}

/-- A maker and a taker sell different tokens of their pair. -/
theorem sellsBase_of_sides (side : sideOf maker = 1 - sideOf taker) :
    sellsBase taker = !sellsBase maker := by
  unfold sideOf at side
  unfold sellsBase
  by_cases makerSells : maker.sellToken < maker.buyToken <;>
    by_cases takerSells : taker.sellToken < taker.buyToken <;> simp [makerSells, takerSells] at side ⊢

theorem IsCandidate.sellsBase (isCandidate : IsCandidate state taker candidate key maker) :
    Core.sellsBase taker = !Core.sellsBase maker := by
  obtain ⟨sequence, _, isKey, _⟩ := isCandidate.row.sequenced
  have side := isCandidate.opposite.side
  rw [isKey] at side
  exact sellsBase_of_sides side

/-- The record of a candidate, and the side it is on. -/
theorem Walk.record (walk : Walk taker matching (candidate :: remaining))
    (found : matching.state.getOrder candidate.1 = some maker) :
    canonicalPrice maker = some candidate.2 ∧
      sellsBase matching.taker = !sellsBase maker := by
  obtain ⟨key, order, isCandidate⟩ := walk.rows candidate List.mem_cons_self
  have isOrder := isCandidate.row.stored
  rw [isCandidate.id, (getOrder_stored found).1] at isOrder
  cases isOrder
  refine ⟨isCandidate.row.priced, ?_⟩
  rw [← isCandidate.sellsBase]
  unfold sellsBase
  rw [walk.sameRow.sellToken, walk.sameRow.buyToken]

/-- What a fill leaves of the taker. -/
theorem tryFill_taker {price : Nat} (within : matching.taker.filledAmount ≤ matching.taker.sellAmount)
    (filled : tryFill matching maker price = some next) :
    next.taker.filledAmount ≤ next.taker.sellAmount ∧
      next.taker.remainingAmount = matching.taker.remainingAmount -
        Execution.takerSells ⟨matching.taker, maker, price⟩ := by
  obtain ⟨_, _, _, isNext⟩ := tryFill_eq filled _ rfl
  have covered : Execution.takerSells ⟨matching.taker, maker, price⟩ ≤
      matching.taker.remainingAmount := baseToSellAmount_le (Nat.min_le_left _ _)
  obtain ⟨nextWithin, left, _⟩ := recordFill_facts within covered
  have isTaker : next.taker = recordFill matching.taker
      (Execution.takerSells ⟨matching.taker, maker, price⟩) := by
    rw [isNext]
    rfl
  rw [isTaker]
  exact ⟨nextWithin, by omega⟩

/-- A fill leaves nothing of a maker exactly when it sells whole. -/
theorem tryFill_whole_iff {price : Nat} (valid : maker.isValid = true)
    (priced : canonicalPrice maker = some price)
    (sides : sellsBase matching.taker = !sellsBase maker)
    (filled : tryFill matching maker price = some next) :
    (recordFill maker (Execution.makerSells ⟨matching.taker, maker, price⟩)).isFullyFilled = true ↔
      SellsWhole matching.taker.remainingAmount maker price := by
  obtain ⟨someBase, pays, _, _⟩ := tryFill_eq filled _ rfl
  -- one of the two sells the quote token, and gets nothing for it at a price of zero
  have notFree : price ≠ 0 := by
    intro free
    unfold Execution.qtyBase at someBase
    dsimp only at someBase
    rw [free, sides] at someBase
    cases makerSells : sellsBase maker with
    | true =>
      rw [makerSells] at someBase
      exact someBase (Nat.zero_min _)
    | false =>
      rw [makerSells] at someBase
      exact someBase (Nat.min_zero _)
  have covered : Execution.makerSells ⟨matching.taker, maker, price⟩ ≤ maker.remainingAmount :=
    baseToSellAmount_le (Nat.min_le_right _ _)
  rw [recordFill_full_iff (Order.facts_of_isValid valid).2.2 (sellAmount_le_of_priced priced notFree)
    covered]
  exact makerSells_whole_iff sides pays

/-- A candidate that crosses: a record of the taker's owner is refunded, another one is filled. -/
theorem Walk.matchCandidate_eq (walk : Walk taker matching (candidate :: remaining))
    (unfilled : matching.taker.isFullyFilled = false)
    (isCrossing : crosses takerLimit candidate.2 (sideOf taker) = true) :
    matchCandidate takerLimit matching candidate =
      match matching.state.getOrder candidate.1 with
      | none => some matching
      | some maker =>
        if maker.owner = taker.owner then
          some { matching with state := matching.state.refundOrder maker true }
        else tryFill matching maker candidate.2 := by
  unfold matchCandidate
  dsimp only
  rw [unfilled, if_neg (by decide), sideOf_congr walk.sameRow, isCrossing, if_neg (by decide),
    walk.sameRow.owner]
  cases found : matching.state.getOrder candidate.1 with
  | none => rfl
  | some maker =>
    have owned := (Order.facts_of_isValid (getOrder_stored found).2).2.1
    dsimp only
    rw [owned, if_neg (by decide), (walk.record found).1]
    simp only [isCrossing, Bool.true_eq_false, if_false]

theorem Walk.getOrder_step (walk : Walk taker matching (candidate :: remaining))
    (ran : matchCandidate takerLimit matching candidate = some next) {other : Nat × Nat}
    (member : other ∈ remaining) :
    next.state.getOrder other.1 = matching.state.getOrder other.1 := by
  have distinct := walk.distinct
  rw [List.map_cons, List.nodup_cons] at distinct
  have kept : next.state.book.orders.find? other.1 = matching.state.book.orders.find? other.1 :=
    (matchCandidate_book ran).other_order walk.sound fun same =>
      distinct.1 (same ▸ List.mem_map_of_mem member)
  unfold getOrder
  exact congrArg (Option.filter Order.isValid) kept

theorem crossingLevels_cons {state : StateAccess}
    (isCrossing : crosses takerLimit candidate.2 (sideOf taker) = true) :
    crossingLevels state taker takerLimit (candidate :: remaining) =
      (match state.getOrder candidate.1 with
        | none => []
        | some maker => if maker.owner = taker.owner then [] else [(maker, candidate.2)]) ++
      crossingLevels state taker takerLimit remaining := by
  unfold crossingLevels
  simp only [List.filter_cons, isCrossing, if_true, List.filterMap_cons]
  cases found : state.getOrder candidate.1 with
  | none => rfl
  | some maker => by_cases same : maker.owner = taker.owner <;> simp [Option.filter, same]

/-- At an order that does not cross the loop stops, and none behind it crosses. -/
theorem Walk.matchCandidate_apart (walk : Walk taker matching (candidate :: remaining))
    (unfilled : matching.taker.isFullyFilled = false)
    (apart : crosses takerLimit candidate.2 (sideOf taker) = false) :
    matchCandidate takerLimit matching candidate = none := by
  unfold matchCandidate
  dsimp only
  rw [unfilled, if_neg (by decide), sideOf_congr walk.sameRow, if_pos apart]

theorem crossingLevels_apart {state : StateAccess}
    (sorted : BestFirst taker takerLimit (candidate :: remaining))
    (apart : crosses takerLimit candidate.2 (sideOf taker) = false) :
    crossingLevels state taker takerLimit (candidate :: remaining) = [] := by
  unfold crossingLevels
  rw [List.filter_eq_nil_iff.mpr, List.filterMap_nil]
  intro other member crossing
  rcases List.mem_cons.mp member with isHead | behind
  · exact absurd (isHead ▸ crossing) (by simp [apart])
  · exact absurd (List.rel_of_pairwise_cons sorted behind crossing) (by simp [apart])

/-- What an unfilled taker does at its next candidate, with the levels that are still to come. -/
inductive Encounter (start : StateAccess) (taker : Order) (takerLimit : Nat) (matching : Matching)
    (candidate : Nat × Nat) (rest : List (Nat × Nat)) : Prop where
  | apart (beyond : crosses takerLimit candidate.2 (sideOf matching.taker) = false)
      (stopped : matchCandidate takerLimit matching candidate = none)
      (levels : crossingLevels start taker takerLimit (candidate :: rest) = [])
  | passed (next : Matching) (ran : matchCandidate takerLimit matching candidate = some next)
      (sameTaker : next.taker = matching.taker)
      (idle : executionAt takerLimit matching candidate = none)
      (levels : crossingLevels start taker takerLimit (candidate :: rest) =
        crossingLevels start taker takerLimit rest)
  | met (maker : Order) (found : matching.state.getOrder candidate.1 = some maker)
      (crossing : crosses takerLimit candidate.2 (sideOf matching.taker) = true)
      (ran : matchCandidate takerLimit matching candidate = tryFill matching maker candidate.2)
      (traded : ∀ next, tryFill matching maker candidate.2 = some next →
        executionAt takerLimit matching candidate = some ⟨matching.taker, maker, candidate.2⟩)
      (levels : crossingLevels start taker takerLimit (candidate :: rest) =
        (maker, candidate.2) :: crossingLevels start taker takerLimit rest)

theorem Walk.encounter {start : StateAccess} (walk : Walk taker matching (candidate :: remaining))
    (record : matching.state.getOrder candidate.1 = start.getOrder candidate.1)
    (sorted : BestFirst taker takerLimit (candidate :: remaining))
    (unfilled : matching.taker.isFullyFilled = false) :
    Encounter start taker takerLimit matching candidate remaining := by
  have side := sideOf_congr walk.sameRow
  cases isCrossing : crosses takerLimit candidate.2 (sideOf taker) with
  | false =>
    exact .apart (side ▸ isCrossing) (walk.matchCandidate_apart unfilled isCrossing)
      (crossingLevels_apart sorted isCrossing)
  | true =>
    have step := walk.matchCandidate_eq unfilled isCrossing
    have levels := @crossingLevels_cons taker candidate remaining takerLimit start isCrossing
    rw [← record] at levels
    cases found : matching.state.getOrder candidate.1 with
    | none =>
      rw [found] at step levels
      exact .passed matching step rfl (by simp [executionAt, found]) levels
    | some maker =>
      have owned := (Order.facts_of_isValid (getOrder_stored found).2).2.1
      rw [found] at step levels
      dsimp only at step levels
      by_cases sameOwner : maker.owner = taker.owner
      · rw [if_pos sameOwner] at step levels
        exact .passed _ step rfl (by simp [executionAt, found, walk.sameRow.owner, sameOwner]) levels
      · rw [if_neg sameOwner] at step levels
        refine .met maker found (side ▸ isCrossing) step (fun next filled => ?_) levels
        simp [executionAt, step, filled, found, owned, walk.sameRow.owner, sameOwner,
          (walk.record found).1]

/-- The loop passes nothing by exactly when it takes whole all that crosses. The induction is on the
candidates; a step leaves the records of those behind it alone. -/
theorem leavesNone_iff_takesAll {start : StateAccess} (candidates : List (Nat × Nat))
    (walk : Walk taker matching candidates)
    (records : ∀ candidate ∈ candidates,
      matching.state.getOrder candidate.1 = start.getOrder candidate.1)
    (sorted : BestFirst taker takerLimit candidates)
    (within : matching.taker.filledAmount ≤ matching.taker.sellAmount)
    (resting : (matchLoop takerLimit candidates matching).taker.isFullyFilled = false) :
    leavesNone takerLimit candidates matching = true ↔
      TakesAll matching.taker.remainingAmount
        (crossingLevels start taker takerLimit candidates) := by
  induction candidates generalizing matching with
  | nil => exact ⟨fun _ => trivial, fun _ => rfl⟩
  | cons candidate rest ih =>
    have later {next : Matching} (ran : matchCandidate takerLimit matching candidate = some next)
        (nextWithin : next.taker.filledAmount ≤ next.taker.sellAmount) :
        leavesNone takerLimit rest next = true ↔ TakesAll next.taker.remainingAmount
          (crossingLevels start taker takerLimit rest) := by
      refine ih (walk.step ran) (fun other member => ?_) sorted.of_cons nextWithin ?_
      · rw [walk.getOrder_step ran member, records other (List.mem_cons_of_mem _ member)]
      · unfold matchLoop at resting
        rw [ran] at resting
        exact resting
    have unfilled : matching.taker.isFullyFilled = false := by
      cases full : matching.taker.isFullyFilled with
      | false => rfl
      | true =>
        have stopped : matchCandidate takerLimit matching candidate = none := if_pos full
        unfold matchLoop at resting
        rw [stopped] at resting
        exact full.symm.trans resting
    unfold leavesNone
    cases walk.encounter (records candidate List.mem_cons_self) sorted unfilled with
    | apart beyond stopped levels =>
      rw [stopped, levels]
      dsimp only
      rw [beyond]
      exact ⟨fun _ => trivial, fun _ => rfl⟩
    | passed next ran sameTaker idle levels =>
      rw [ran, idle, levels, ← sameTaker]
      exact later ran (sameTaker ▸ within)
    | met maker found crossing ran traded levels =>
      obtain ⟨priced, sides⟩ := walk.record found
      rw [ran, levels]
      cases filled : tryFill matching maker candidate.2 with
      | none =>
        have stays := not_sellsWhole_of_stop sides filled
        simp [crossing, TakesAll, stays]
      | some next =>
        obtain ⟨nextWithin, left⟩ := tryFill_taker within filled
        have isFull := tryFill_whole_iff (getOrder_stored found).2 priced sides filled
        have behind := later (ran.trans filled) nextWithin
        rw [traded next filled]
        simp only [Bool.and_eq_true, isFull, TakesAll]
        refine and_congr_right fun whole => ?_
        rw [behind, left, takerSells_whole sides whole]

end

/-! ## The start of the walk -/

/-- The price a row stands for, as the loop reads it from the key. -/
def levelPrice (side keyPrice : Nat) : Nat := if side = 0 then keyPrice else UINT64_MAX - keyPrice

theorem mem_bookLevels {tokenA tokenB side : Nat} {candidate : Nat × Nat} :
    candidate ∈ state.bookLevels tokenA tokenB side ↔
      ∃ key, state.book.rows.find? key = some candidate.1 ∧ key.baseToken = min tokenA tokenB ∧
        key.quoteToken = max tokenA tokenB ∧ key.side = side ∧
        candidate.2 = levelPrice side key.keyPrice := by
  unfold bookLevels
  dsimp only
  simp only [List.mem_map, List.mem_insertionSort, List.mem_filter, Bool.and_eq_true, beq_iff_eq]
  constructor
  · rintro ⟨⟨key, orderId⟩, ⟨inBook, ⟨isBase, isQuote⟩, isSide⟩, rfl⟩
    exact ⟨key, Table.find?_eq_some_iff.mpr inBook, isBase, isQuote, isSide, rfl⟩
  · rintro ⟨key, listed, isBase, isQuote, isSide, isPrice⟩
    refine ⟨(key, candidate.1), ⟨Table.find?_eq_some_iff.mp listed, ⟨isBase, isQuote⟩, isSide⟩, ?_⟩
    exact Prod.ext rfl isPrice.symm

section

variable (sound : state.book.Sound)

include sound

/-- A row of a sound book is a candidate at the price of its record. -/
theorem isCandidate_of_row {orderId : Nat}
    (listed : state.book.rows.find? key = some orderId) (opposite : Opposite taker key) :
    ∃ order, IsCandidate state taker (orderId, levelPrice key.side key.keyPrice) key order := by
  obtain ⟨order, price, sameId, row⟩ := sound.listed key orderId listed
  obtain ⟨sequence, _, isKey, _⟩ := row.sequenced
  have isPrice : levelPrice key.side key.keyPrice = price := by
    have bound := canonicalPrice_le row.priced
    rw [isKey]
    unfold levelPrice bookKey
    dsimp only
    split
    · rfl
    · omega
  exact ⟨order, listed, opposite, sameId, isPrice.symm ▸ row⟩

theorem key_eq_of_listed {other : BookKey} {orderId : Nat}
    (listed : state.book.rows.find? key = some orderId)
    (otherListed : state.book.rows.find? other = some orderId) : key = other := by
  obtain ⟨order, price, isId, row⟩ := sound.listed _ _ listed
  rw [← isId] at otherListed
  obtain ⟨otherPrice, otherRow⟩ := sound.row_eq row.stored otherListed
  obtain ⟨sequence, found, isKey, _⟩ := row.sequenced
  obtain ⟨otherSequence, otherFound, isOtherKey, _⟩ := otherRow.sequenced
  have samePrice := row.priced.symm.trans otherRow.priced
  have sameSequence := found.symm.trans otherFound
  cases samePrice
  cases sameSequence
  exact isKey.trans isOtherKey.symm

/-- One side of a pair is walked in the order of the prices of its keys, and rows of one price in
the order of their sequences. -/
theorem keys_bookLevels (tokenA tokenB side : Nat) :
    (state.bookLevels tokenA tokenB side).Pairwise fun earlier later =>
      ∀ key other, state.book.rows.find? key = some earlier.1 →
        state.book.rows.find? other = some later.1 →
        key.keyPrice < other.keyPrice ∨
          (key.keyPrice = other.keyPrice ∧ key.sequence < other.sequence) := by
  have total : Std.Total fun left right : BookKey × Nat =>
      left.1.keyPrice * 2 ^ 64 + left.1.sequence ≤ right.1.keyPrice * 2 ^ 64 + right.1.sequence :=
    ⟨fun left right => Nat.le_total _ _⟩
  have transitive : IsTrans (BookKey × Nat) fun left right =>
      left.1.keyPrice * 2 ^ 64 + left.1.sequence ≤ right.1.keyPrice * 2 ^ 64 + right.1.sequence :=
    ⟨fun _ _ _ => Nat.le_trans⟩
  unfold bookLevels
  dsimp only
  rw [List.pairwise_map]
  have distinct := (List.Nodup.of_map _ state.index.orderBook.distinct).filter fun row =>
    row.1.baseToken == min tokenA tokenB && row.1.quoteToken == max tokenA tokenB &&
      row.1.side == side
  refine ((List.pairwise_insertionSort _ _).and
    ((List.perm_insertionSort _ _).nodup_iff.mpr distinct)).imp_of_mem ?_
  intro earlier later inEarlier inLater sorted key other listed otherListed
  rw [List.mem_insertionSort, List.mem_filter] at inEarlier inLater
  obtain ⟨inEarlier, isEarlier⟩ := inEarlier
  obtain ⟨inLater, isLater⟩ := inLater
  have isKey := key_eq_of_listed sound (Table.find?_eq_some_iff.mpr inEarlier) listed
  have isOther := key_eq_of_listed sound (Table.find?_eq_some_iff.mpr inLater) otherListed
  subst isKey isOther
  simp only [Bool.and_eq_true, beq_iff_eq] at isEarlier isLater
  -- the sequences fit below the prices, so the keys are sorted by price first
  have small {row : BookKey × Nat} (member : row ∈ state.index.orderBook.entries) :
      row.1.sequence < 2 ^ 64 := by
    obtain ⟨order, price, _, isRow⟩ := sound.listed _ _ (Table.find?_eq_some_iff.mpr member)
    obtain ⟨sequence, _, isKey, fits⟩ := isRow.sequenced
    rw [isKey]
    exact fits
  have smallEarlier := small inEarlier
  have smallLater := small inLater
  by_contra unsorted
  have samePrice : earlier.1.keyPrice = later.1.keyPrice := by omega
  have sameSequence : earlier.1.sequence = later.1.sequence := by omega
  have sameKey : earlier.1 = later.1 := by
    rcases earlier with ⟨⟨base, quote, side, price, sequence⟩, orderId⟩
    rcases later with ⟨⟨otherBase, otherQuote, otherSide, otherPrice, otherSequence⟩, otherId⟩
    simp only [BookKey.mk.injEq]
    exact ⟨isEarlier.1.1.trans isLater.1.1.symm, isEarlier.1.2.trans isLater.1.2.symm,
      isEarlier.2.trans isLater.2.symm, samePrice, sameSequence⟩
  have sameId := listed.symm.trans (sameKey ▸ otherListed)
  exact sorted.2 (Prod.ext sameKey (Option.some.inj sameId))

theorem nodup_bookLevels (tokenA tokenB side : Nat) :
    ((state.bookLevels tokenA tokenB side).map Prod.fst).Nodup := by
  rw [List.Nodup, List.pairwise_map]
  refine (keys_bookLevels sound tokenA tokenB side).imp_of_mem ?_
  intro earlier later inEarlier _ sorted sameId
  obtain ⟨key, listed, _⟩ := mem_bookLevels.mp inEarlier
  have same := sorted key key listed (sameId ▸ listed)
  omega

/-- Along one side of a pair the prices get worse for a taker. -/
theorem sorted_bookLevels (taker : Order) (takerLimit : Nat) :
    BestFirst taker takerLimit
      (state.bookLevels taker.sellToken taker.buyToken (1 - sideOf taker)) := by
  refine (keys_bookLevels sound _ _ _).imp_of_mem ?_
  intro earlier later inEarlier inLater sorted crosses
  obtain ⟨key, listed, _, _, _, isPrice⟩ := mem_bookLevels.mp inEarlier
  obtain ⟨other, otherListed, _, _, _, isOtherPrice⟩ := mem_bookLevels.mp inLater
  have prices := sorted key other listed otherListed
  rw [isOtherPrice] at crosses
  rw [isPrice]
  unfold OrderBook.crosses levelPrice at *
  rcases Nat.lt_or_ge taker.sellToken taker.buyToken with sells | buys
  · have side : sideOf taker = 0 := if_pos sells
    rw [side] at crosses ⊢
    simp only [if_true, Nat.sub_zero, Nat.one_ne_zero, if_false, decide_eq_true_eq] at crosses ⊢
    omega
  · have side : sideOf taker = 1 := if_neg (Nat.not_lt.mpr buys)
    rw [side] at crosses ⊢
    simp only [Nat.one_ne_zero, if_false, Nat.sub_self, if_true, decide_eq_true_eq] at crosses ⊢
    omega

/-- The walk starts with everything that crosses ahead of it. -/
theorem walk_start (taker : Order) (takerLimit : Nat) :
    Walk taker { state := state, taker := taker, fills := [] }
        (state.bookLevels taker.sellToken taker.buyToken (1 - sideOf taker)) ∧
      Covers taker takerLimit state
        (state.bookLevels taker.sellToken taker.buyToken (1 - sideOf taker)) := by
  refine ⟨⟨sound, Book.SameRow.refl taker, fun candidate member => ?_, nodup_bookLevels sound _ _ _⟩,
    fun maker crossing => ?_, sorted_bookLevels sound taker takerLimit⟩
  · obtain ⟨key, listed, isBase, isQuote, isSide, isPrice⟩ := mem_bookLevels.mp member
    obtain ⟨order, isCandidate⟩ := isCandidate_of_row sound listed ⟨isBase, isQuote, isSide⟩
    rw [isSide, ← isPrice] at isCandidate
    exact ⟨key, order, isCandidate⟩
  · obtain ⟨key, listed, opposite⟩ := crossing.listed
    refine ⟨(maker.id, levelPrice (1 - sideOf taker) key.keyPrice), ?_, rfl⟩
    exact mem_bookLevels.mpr
      ⟨key, listed, opposite.baseToken, opposite.quoteToken, opposite.side, rfl⟩

theorem walk_candidates (taker : Order) :
    Walk taker ⟨state, taker, []⟩ (candidatesOf state taker) := by
  obtain ⟨walk, _⟩ := walk_start sound taker 0
  exact ⟨walk.sound, walk.sameRow, fun candidate inside =>
    walk.rows candidate (List.mem_of_mem_take inside),
    walk.distinct.sublist ((List.take_sublist _ _).map _)⟩

end

/-! ## The taker comes to rest -/

theorem rows_list_of_side {book : Book} {sequence : Nat}
    (otherSide : key.side ≠ sideOf order) :
    (book.list order sequence).rows.find? key = book.rows.find? key := by
  unfold Book.list
  split
  · rfl
  · split
    · rfl
    next price _ =>
      have other : key ≠ bookKey order price sequence :=
        fun same => otherSide (congrArg BookKey.side same)
      dsimp only
      rw [Table.find?_put, if_neg other]

theorem Opposite.otherSide (opposite : Opposite taker key) : key.side ≠ sideOf taker := by
  rw [opposite.side]
  unfold sideOf
  split <;> decide

/-- The row of the taker is on its own side, so it changes nothing on the other one. -/
theorem crossing_persistTaker {takerLimit : Nat} {matching : Matching}
    (same : Book.SameRow taker matching.taker) (unlisted : matching.state.book.Unlisted taker.id)
    (resting : matching.taker.isFullyFilled = false) (maker : Order) :
    Crossing (persistTaker matching) taker takerLimit maker ↔
      Crossing matching.state taker takerLimit maker := by
  have written := persistTaker_book matching
  rw [resting, if_neg (by decide)] at written
  have rows {key : BookKey} (opposite : Opposite taker key) :
      (persistTaker matching).book.rows.find? key = matching.state.book.rows.find? key := by
    rw [written]
    exact rows_list_of_side (sideOf_congr same ▸ opposite.otherSide)
  have orders {orderId : Nat} (other : orderId ≠ taker.id) :
      (persistTaker matching).getOrder orderId = matching.state.getOrder orderId := by
    have record : (persistTaker matching).book.orders.find? orderId =
        matching.state.book.orders.find? orderId := by
      rw [written, Book.orders_list]
      unfold Book.store
      dsimp only
      rw [Table.find?_put, if_neg (same.id ▸ other)]
    unfold getOrder
    exact congrArg (Option.filter Order.isValid) record
  constructor
  · rintro ⟨⟨key, listed, opposite⟩, found, otherOwner, crosses⟩
    rw [rows opposite] at listed
    have other : maker.id ≠ taker.id := fun isTaker => unlisted key (isTaker ▸ listed)
    exact ⟨⟨key, listed, opposite⟩, orders other ▸ found, otherOwner, crosses⟩
  · rintro ⟨⟨key, listed, opposite⟩, found, otherOwner, crosses⟩
    have other : maker.id ≠ taker.id := fun isTaker => unlisted key (isTaker ▸ listed)
    exact ⟨⟨key, (rows opposite).trans listed, opposite⟩, (orders other).trans found, otherOwner,
      crosses⟩

/-! ## Chains -/

/-- The taker is one that `matchPassiveOrder` does not turn away. -/
def Matchable (taker : Order) : Prop :=
  ¬(taker.id = INVALID_ID ∨ isNull taker.owner = true ∨ taker.isFullyFilled = true ∨
    taker.mode ≠ .passive)

instance (taker : Order) : Decidable (Matchable taker) := inferInstanceAs (Decidable (¬_))

theorem Matchable.within (matchable : Matchable taker) : taker.filledAmount ≤ taker.sellAmount := by
  simp only [Matchable, not_or, Order.isFullyFilled, decide_eq_true_eq, not_le] at matchable
  exact matchable.2.2.1.le

theorem matchPassiveOrder_state {takerLimit : Nat} (matchable : Matchable taker)
    (priced : canonicalPrice taker = some takerLimit) : (matchPassiveOrder state taker).1 =
      persistTaker (matchLoop takerLimit (candidatesOf state taker) ⟨state, taker, []⟩) := by
  unfold matchPassiveOrder
  rw [if_neg matchable, priced]
  rfl

/-- Where fewer candidates are examined than are read, the loop stops, or there are no more. -/
theorem stops_of_few {takerLimit : Nat} {matching : Matching}
    (few : examined takerLimit (candidatesOf state taker) matching < MAX_BOOK_LEVELS_PER_TAKER) :
    stops takerLimit (candidatesOf state taker) matching = true ∨
      (state.bookLevels taker.sellToken taker.buyToken (1 - sideOf taker)).drop
        MAX_BOOK_LEVELS_PER_TAKER = [] := by
  rw [or_iff_not_imp_left, Bool.not_eq_true]
  intro goesOn
  rw [examined_of_not_stops _ _ goesOn] at few
  unfold candidatesOf at few
  rw [List.length_take] at few
  rw [List.drop_eq_nil_iff]
  omega

/-- How many orders `matchPassiveOrder` looks at. -/
def examinedOrders (state : StateAccess) (taker : Order) : Nat :=
  match canonicalPrice taker with
  | none => 0
  | some takerLimit =>
    examined takerLimit (candidatesOf state taker)
      { state := state, taker := taker, fills := [] }

/-- The taker takes whole all that crosses it, as the book lists it before the call. -/
def ClearsCrossing (state : StateAccess) (taker : Order) : Prop :=
  ∀ takerLimit ∈ canonicalPrice taker, TakesAll taker.remainingAmount
    (crossingLevels state taker takerLimit (candidatesOf state taker))

instance (state : StateAccess) (taker : Order) : Decidable (ClearsCrossing state taker) :=
  inferInstanceAs (Decidable (∀ takerLimit ∈ canonicalPrice taker, _))

def Rests (state : StateAccess) (order : Order) : Prop :=
  ∃ key, state.book.rows.find? key = some order.id

/-- **The book is left uncrossed exactly when the taker takes whole all that crosses it.** The taker
is a new order whose record was stored just before, and it comes to rest. -/
theorem matchPassiveOrder_uncrossed_iff {env : ChainEnv} {config : GenesisConfig}
    {state : StateAccess} {taker : Order} (reached : Reached env config state)
    (new : state.tree.orders.find? taker.id = none)
    (rests : Rests (matchPassiveOrder (state.putOrder taker) taker).1 taker)
    (few : examinedOrders (state.putOrder taker) taker < MAX_BOOK_LEVELS_PER_TAKER) :
    Uncrossed (matchPassiveOrder (state.putOrder taker) taker).1 taker ↔
      ClearsCrossing (state.putOrder taker) taker := by
  have sound := reached.bookInvariant.sound
  have missing : state.book.Unlisted taker.id := sound.unlisted_of_missing new
  have start : BookKept taker.id state.book (state.putOrder taker).book :=
    BookKept.store ⟨.self sound, missing⟩
  generalize state.putOrder taker = opened at *
  have absent : ¬Rests opened taker := fun ⟨key, listed⟩ => start.unlisted key listed
  have matchable : Matchable taker := by
    intro turnedAway
    unfold matchPassiveOrder at rests
    rw [if_pos turnedAway] at rests
    exact absent rests
  unfold examinedOrders at few
  unfold Uncrossed ClearsCrossing
  cases priced : canonicalPrice taker with
  | none =>
    unfold matchPassiveOrder at rests
    rw [if_neg matchable, priced] at rests
    exact absurd rests absent
  | some takerLimit =>
    rw [priced] at few
    rw [matchPassiveOrder_state matchable priced] at rests ⊢
    obtain ⟨walk, covers⟩ := walk_start start.sound taker takerLimit
    have kept := @matchLoop_book takerLimit taker.id state.book (candidatesOf opened taker)
      ⟨opened, taker, []⟩ start
    have same := @matchLoop_sameRow takerLimit (candidatesOf opened taker) ⟨opened, taker, []⟩
    have unfilled : (matchLoop takerLimit (candidatesOf opened taker)
        ⟨opened, taker, []⟩).taker.isFullyFilled = false := by
      rw [Bool.eq_false_iff]
      intro full
      obtain ⟨key, listed⟩ := rests
      rw [persistTaker_book, if_pos full] at listed
      exact kept.unlisted key listed
    have levels := List.take_append_drop MAX_BOOK_LEVELS_PER_TAKER
      (opened.bookLevels taker.sellToken taker.buyToken (1 - sideOf taker))
    rw [← levels] at walk covers
    have takes := leavesNone_iff_takesAll _ (walk_candidates start.sound taker) (fun _ _ => rfl)
      ((sorted_bookLevels start.sound taker takerLimit).sublist (List.take_sublist _ _))
      matchable.within unfilled
    have one {holds : Nat → Prop} : (∀ limit ∈ some takerLimit, holds limit) ↔ holds takerLimit := by
      simp
    rw [one]
    refine Iff.trans ?_
      ((matchLoop_uncrossed_iff _ _ walk covers unfilled (stops_of_few few)).trans takes)
    constructor
    · intro uncrossed maker crossing
      exact uncrossed takerLimit maker rfl
        ((crossing_persistTaker same kept.unlisted unfilled maker).mpr crossing)
    · rintro uncrossed _ maker ⟨⟩ crossing
      exact uncrossed maker ((crossing_persistTaker same kept.unlisted unfilled maker).mp crossing)

/-- **The book holds each order once.** In every state a chain passes through, a row of the book
stands for a stored passive order at its price, and no other row stands for that order. -/
theorem reached_row_unique {env : ChainEnv} {config : GenesisConfig} {orderId : Nat}
    (reached : Reached env config state) (listed : state.book.rows.find? key = some orderId) :
    (∃ order price, order.id = orderId ∧ state.book.Row key order price) ∧
      ∀ other, state.book.rows.find? other = some orderId → other = key := by
  have sound := reached.bookInvariant.sound
  obtain ⟨order, price, rfl, row⟩ := sound.listed key orderId listed
  refine ⟨⟨order, price, rfl, row⟩, fun other again => ?_⟩
  obtain ⟨otherPrice, otherRow⟩ := sound.row_eq row.stored again
  obtain ⟨sequence, isSequence, rfl, _⟩ := row.sequenced
  obtain ⟨otherSequence, isOther, rfl, _⟩ := otherRow.sequenced
  cases row.priced.symm.trans otherRow.priced
  cases isSequence.symm.trans isOther
  rfl

namespace Regtest

/-- Owner 10 offers three native units for ten of the created token. -/
def offer : Transaction :=
  { chainId := 1
    txType := .createOrder
    sender := 10
    amount := 3
    fee := 1
    payload := putU32 1 ++ putU64 10 ++ putU8 0 ++ putU32 0 ++ putU64 0 ++ putU8 0 }

def offered : List (List Transaction) :=
  [[createCoin], [mintCoin 1 20 1000], [offer]]

def bid (sellAmount minBuyAmount : Nat) : Order :=
  { id := 2
    owner := 20
    sellToken := 1
    buyToken := 0
    sellAmount := sellAmount
    minBuyAmount := minBuyAmount }

def matchedBid (taker : Order) : StateAccess :=
  (matchPassiveOrder ((stateAfter offered).putOrder taker) taker).1

theorem offered_reached : Reached env config (stateAfter offered) :=
  .between (blocks offered) _ (chain_of_accepts (by decide +kernel))

def bidKey (limit : Nat) : BookKey :=
  { baseToken := 0, quoteToken := 1, side := 1, keyPrice := UINT64_MAX - limit, sequence := 2 }

/-- What is left of the offer, one unit of which was sold for three. -/
def offerLeft : Order :=
  { id := 1
    owner := 10
    sellToken := 0
    buyToken := 1
    sellAmount := 3
    minBuyAmount := 10
    createdAtHeight := 3
    filledAmount := 1 }

/-- A bid of five at five each takes one unit. Both orders keep two units and rest, and the offer
still crosses the bid. -/
theorem bid_leaves_crossing : Reached env config (stateAfter offered) ∧
      (stateAfter offered).tree.orders.find? 2 = none ∧
      Rests (matchedBid (bid 5 1)) (bid 5 1) ∧
      examinedOrders ((stateAfter offered).putOrder (bid 5 1)) (bid 5 1) = 1 ∧
      ¬Uncrossed (matchedBid (bid 5 1)) (bid 5 1) := by
  refine ⟨offered_reached, by decide +kernel, ⟨bidKey (5 * BOOK_PRICE_SCALE), ?_⟩,
    by decide +kernel, ?_⟩
  · decide +kernel
  · intro uncrossed
    refine uncrossed (5 * BOOK_PRICE_SCALE) offerLeft (by decide +kernel)
      ⟨⟨{ baseToken := 0, quoteToken := 1, side := 0, keyPrice := 33333333333, sequence := 1 },
        ?_, ⟨rfl, rfl, rfl⟩⟩, ?_, by decide, ⟨33333333333, ?_, ?_⟩⟩
    all_goals decide +kernel

/-- A bid that takes the whole offer leaves nothing behind. -/
theorem bid_takes_offer : Uncrossed (matchedBid (bid 20 6)) (bid 20 6) :=
  (matchPassiveOrder_uncrossed_iff offered_reached (by decide +kernel)
    ⟨bidKey 33333333334, by decide +kernel⟩ (by decide +kernel)).mpr (by decide +kernel)

/-- Owner 10 has two offers, the second one at the better price. -/
def offeredTwice : List (List Transaction) :=
  [[createCoin], [mintCoin 1 20 1000], [offer], [{ offer with
    nonce := 1
    payload := putU32 1 ++ putU64 9 ++ putU8 0 ++ putU32 0 ++ putU64 0 ++ putU8 0 }]]

theorem offeredTwice_reached : Reached env config (stateAfter offeredTwice) :=
  .between (blocks offeredTwice) _ (chain_of_accepts (by decide +kernel))

/-- Two orders of one owner, each with its row. -/
theorem offered_row_unique : ∃ key other,
    (stateAfter offeredTwice).book.rows.find? key = some 1 ∧
      (stateAfter offeredTwice).book.rows.find? other = some 2 ∧
      (∀ again, (stateAfter offeredTwice).book.rows.find? again = some 1 → again = key) ∧
      ∀ again, (stateAfter offeredTwice).book.rows.find? again = some 2 → again = other := by
  have first : (stateAfter offeredTwice).book.rows.find? ⟨0, 1, 0, 33333333333, 1⟩ = some 1 := by
    decide +kernel
  have second : (stateAfter offeredTwice).book.rows.find? ⟨0, 1, 0, 30000000000, 2⟩ = some 2 := by
    decide +kernel
  exact ⟨_, _, first, second, (reached_row_unique offeredTwice_reached first).2,
    (reached_row_unique offeredTwice_reached second).2⟩

end Regtest

end Clarity.Core
