import Clarity.Core.Uncrossed
import Clarity.Library.BigEndian

/-!
Contract: price-time priority of the matching of a taker.

Owns: `Ahead`, the order of resting orders a taker is owed; that the rows of a book are walked in
this order, which is the order of the bytes of their keys; that no order is filled while one
ahead of it, of another owner than the taker, is not; and `ServesWhole`, when none ahead of it keeps
a remainder that could have been filled.

The base quantity a seller of the quote token offers is rounded down, and so is the quote amount of
that quantity, so a maker that is taken whole keeps a rest of both roundings.
-/

namespace Clarity.Core

open Common Crypto Library State State.StateAccess OrderBook

variable {state : StateAccess} {taker : Order} {maker : Order} {price sequence takerLimit : Nat}

/-- A resting order on the other side of a taker's pair, with its price and the number under which
it was inserted into the book. -/
structure Resting (state : StateAccess) (taker maker : Order) (price sequence : Nat) : Prop where
  listed : state.book.rows.find? (bookKey maker price sequence) = some maker.id
  opposite : Opposite taker (bookKey maker price sequence)
  found : state.getOrder maker.id = some maker
  priced : canonicalPrice maker = some price

/-- The price is better for the taker, or it is the same and was inserted earlier. A taker that
sells the base token wants the higher price. -/
def Ahead (taker : Order) (price sequence otherPrice otherSequence : Nat) : Prop :=
  (if sideOf taker = 0 then otherPrice < price else price < otherPrice) ∨
    (price = otherPrice ∧ sequence < otherSequence)

/-- The end of the bytes of `encodeBookKey`, behind the pair and the side. -/
def sortBytes (key : BookKey) : Bytes := bigEndian 8 key.keyPrice ++ bigEndian 8 key.sequence

/-- The rows on the other side of a taker's pair, as `forEachBookLevel` visits them. -/
def oppositeLevels (state : StateAccess) (taker : Order) : List (Nat × Nat) :=
  state.bookLevels taker.sellToken taker.buyToken (1 - sideOf taker)

/-- Price-time priority: the rows are visited in the order of their bytes, which is the order of
price and insertion, and no order is filled before one that is ahead of it. -/
structure Priority (state : StateAccess) (taker : Order) : Prop where
  scanned : (oppositeLevels state taker).Pairwise fun earlier later =>
    ∀ key other, state.book.rows.find? key = some earlier.1 →
      state.book.rows.find? other = some later.1 → sortBytes key < sortBytes other
  ranked : (oppositeLevels state taker).Pairwise fun earlier later =>
    ∀ first price sequence second otherPrice otherSequence,
      Resting state taker first price sequence → first.id = earlier.1 →
      Resting state taker second otherPrice otherSequence → second.id = later.1 →
      Ahead taker price sequence otherPrice otherSequence
  served : ∀ fill ∈ (matchPassiveOrder state taker).2, ∃ maker price sequence,
    maker.id = fill.makerOrderId ∧ Resting state taker maker price sequence ∧
      ∀ better betterPrice betterSequence, Resting state taker better betterPrice betterSequence →
        better.owner ≠ taker.owner → Ahead taker betterPrice betterSequence price sequence →
        ∃ earlier ∈ (matchPassiveOrder state taker).2, earlier.makerOrderId = better.id

/-! ## Remainders -/

/-- What is left of an order is worth a unit of either token at its price. -/
def Fillable (order : Order) (price : Nat) : Prop :=
  if sellsBase order then BOOK_PRICE_SCALE ≤ order.remainingAmount * price
  else price ≤ order.remainingAmount * BOOK_PRICE_SCALE ∧
    BOOK_PRICE_SCALE ≤ order.remainingAmount * BOOK_PRICE_SCALE / price * price

/-- The two roundings of a seller of the quote token that is taken whole. -/
def wholeRest (maker : Order) : Nat :=
  maker.remainingAmount * BOOK_PRICE_SCALE % limitOf maker +
    maker.remainingAmount * BOOK_PRICE_SCALE / limitOf maker * limitOf maker % BOOK_PRICE_SCALE

/-- A fill leaves nothing of the maker that could be filled: the taker has enough left for a seller
of the base token, or the roundings are less than a unit. -/
def TakenWhole (remaining : Nat) (maker : Order) : Prop :=
  if sellsBase maker then
    (maker.remainingAmount - remaining * BOOK_PRICE_SCALE / limitOf maker) *
      limitOf maker < BOOK_PRICE_SCALE
  else wholeRest maker < limitOf maker ∨
    wholeRest maker / limitOf maker * limitOf maker < BOOK_PRICE_SCALE

instance (remaining : Nat) (maker : Order) : Decidable (TakenWhole remaining maker) := by
  unfold TakenWhole
  infer_instance

/-- The base quantity a taker with this remainder trades with a maker. -/
def fillBase (remaining : Nat) (maker : Order) (price : Nat) : Nat :=
  min (sellAmountToBase remaining (!sellsBase maker) price) (wholeBase maker price)

/-- What the taker pays. -/
def fillCost (remaining : Nat) (maker : Order) (price : Nat) : Nat :=
  baseToSellAmount (fillBase remaining maker price) (!sellsBase maker) price

/-- The makers that are filled one after the other, each with what the taker has left for it. The
first that cannot be filled ends the run. -/
def fillsAlong : Nat → List (Order × Nat) → List (Nat × Order)
  | _, [] => []
  | remaining, level :: rest =>
    if fillBase remaining level.1 level.2 = 0 ∨ fillCost remaining level.1 level.2 = 0 ∨
        baseToSellAmount (fillBase remaining level.1 level.2) (sellsBase level.1) level.2 = 0 then []
    else (remaining, level.1) ::
      fillsAlong (remaining - fillCost remaining level.1 level.2) rest

/-- Of the makers that cross a taker, as the book lists them before the call, every one that is
filled before another one is taken whole. -/
def ServesWhole (state : StateAccess) (taker : Order) : Prop :=
  Matchable taker → ∀ takerLimit ∈ canonicalPrice taker, ∀ fill ∈ (fillsAlong taker.remainingAmount
    (crossingLevels state taker takerLimit (candidatesOf state taker))).dropLast,
      TakenWhole fill.1 fill.2

instance (state : StateAccess) (taker : Order) : Decidable (ServesWhole state taker) :=
  inferInstanceAs (Decidable (Matchable taker → ∀ takerLimit ∈ canonicalPrice taker, _))

/-- No order is filled while one ahead of it, of another owner than the taker, is left with a
remainder that could be filled. -/
def NoneLeft (state : StateAccess) (taker : Order) : Prop :=
  ∀ fill ∈ (matchPassiveOrder state taker).2, ∀ maker price sequence,
    maker.id = fill.makerOrderId → Resting state taker maker price sequence →
    ∀ better betterPrice betterSequence, Resting state taker better betterPrice betterSequence →
      better.owner ≠ taker.owner → Ahead taker betterPrice betterSequence price sequence →
      ∀ left, (matchPassiveOrder state taker).1.getOrder better.id = some left →
        ¬Fillable left betterPrice

/-- A maker that is taken whole keeps the roundings. A taker that sells the base token and has some
left took the whole maker. -/
theorem not_fillable_iff {execution : Execution} {limit : Nat}
    (executed : Executed limit taker execution)
    (opposite : sellsBase execution.taker = !sellsBase execution.maker)
    (within : execution.maker.filledAmount ≤ execution.maker.sellAmount)
    (goesOn : sellsBase execution.taker = true →
      execution.qtyBase < execution.taker.remainingAmount) :
    ¬Fillable (recordFill execution.maker execution.makerSells) execution.price ↔
      TakenWhole execution.taker.remainingAmount execution.maker := by
  have covered : execution.makerSells ≤ execution.maker.remainingAmount :=
    baseToSellAmount_le (Nat.min_le_right _ _)
  have left := (recordFill_facts within covered).2.1
  have isPrice := limitOf_of_priced executed.priced
  have isBase := executed.qtyBase_eq
  have someSold := executed.makerSells
  have sameSide : sellsBase (recordFill execution.maker execution.makerSells) =
      sellsBase execution.maker := rfl
  unfold Fillable TakenWhole
  rw [sameSide]
  unfold Execution.makerSells at someSold left ⊢
  rw [isPrice] at isBase ⊢
  unfold offeredBase at isBase
  cases side : sellsBase execution.maker with
  | true =>
    rw [side, Bool.not_true] at opposite
    rw [side] at left
    rw [opposite, side, if_neg (by decide), if_pos rfl] at isBase
    simp only [baseToSellAmount, if_true] at left ⊢
    rw [Nat.not_le]
    have isLeft : (recordFill execution.maker execution.qtyBase).remainingAmount =
        execution.maker.remainingAmount -
          execution.taker.remainingAmount * BOOK_PRICE_SCALE / execution.price := by
      omega
    rw [isLeft]
  | false =>
    rw [side, Bool.not_false] at opposite
    rw [side] at left someSold
    rw [opposite, side, if_pos rfl, if_neg (by decide)] at isBase
    have isWhole : execution.qtyBase =
        execution.maker.remainingAmount * BOOK_PRICE_SCALE / execution.price := by
      have goesOn := goesOn opposite
      omega
    rw [baseToSellAmount_quote someSold] at left ⊢
    have isRest : (recordFill execution.maker (execution.qtyBase * execution.price /
        BOOK_PRICE_SCALE)).remainingAmount * BOOK_PRICE_SCALE = wholeRest execution.maker := by
      unfold wholeRest
      rw [isPrice, ← isWhole]
      have quoted := Nat.div_add_mod (execution.qtyBase * execution.price) BOOK_PRICE_SCALE
      have offered := Nat.div_add_mod (execution.maker.remainingAmount * BOOK_PRICE_SCALE)
        execution.price
      rw [← isWhole, Nat.mul_comm] at offered
      have scaled := congrArg (· * BOOK_PRICE_SCALE) left
      rw [Nat.add_mul] at scaled
      rw [Nat.mul_comm BOOK_PRICE_SCALE] at quoted
      omega
    simp only [Bool.false_eq_true, if_false]
    rw [isRest, not_and_or, Nat.not_le, Nat.not_le]

/-! ## The rows -/

/-- The key of a row of a sound book fits its bytes. -/
theorem key_fits {key : BookKey} {orderId : Nat} (sound : state.book.Sound)
    (listed : state.book.rows.find? key = some orderId) :
    key.keyPrice < 256 ^ 8 ∧ key.sequence < 256 ^ 8 := by
  obtain ⟨order, price, _, row⟩ := sound.listed key orderId listed
  obtain ⟨sequence, _, isKey, fits⟩ := row.sequenced
  have bound : price ≤ 2 ^ 64 - 1 := canonicalPrice_le row.priced
  rw [isKey]
  refine ⟨?_, fits⟩
  unfold bookKey
  dsimp only
  split
  · omega
  · exact Nat.lt_of_le_of_lt (Nat.sub_le _ _) (by decide)

theorem ranked_oppositeLevels (sound : state.book.Sound) (taker : Order) :
    (oppositeLevels state taker).Pairwise fun earlier later =>
      ∀ first price sequence second otherPrice otherSequence,
        Resting state taker first price sequence → first.id = earlier.1 →
        Resting state taker second otherPrice otherSequence → second.id = later.1 →
        Ahead taker price sequence otherPrice otherSequence := by
  refine (keys_bookLevels sound _ _ _).imp ?_
  intro earlier later sorted first price sequence second otherPrice otherSequence resting isFirst
    otherResting isSecond
  -- on the side opposite to a taker, the order of the keys is that of price and insertion
  have keys := sorted _ _ (isFirst ▸ resting.listed) (isSecond ▸ otherResting.listed)
  have bound := canonicalPrice_le resting.priced
  have otherBound := canonicalPrice_le otherResting.priced
  have side : sideOf first = 1 - sideOf taker := resting.opposite.side
  have otherSide : sideOf second = 1 - sideOf taker := otherResting.opposite.side
  unfold bookKey at keys
  dsimp only at keys
  rw [side, otherSide] at keys
  unfold Ahead
  by_cases sells : sideOf taker = 0
  · rw [sells] at keys ⊢
    simp only [Nat.sub_zero, Nat.one_ne_zero, if_false, if_true] at keys ⊢
    omega
  · have buys : 1 - sideOf taker = 0 := by omega
    rw [buys] at keys
    rw [if_neg sells]
    simp only [if_true] at keys
    omega

/-! ## The fills -/

/-- Every execution is with an order of the walk, and of those before it none of another owner is
left out. The induction is on the walk; a step does not touch the orders that are still to come. -/
theorem executions_served {matching : Matching} (candidates : List (Nat × Nat))
    (walk : Walk taker matching candidates) :
    ∀ execution ∈ executions takerLimit candidates matching, ∃ front candidate back,
      candidates = front ++ candidate :: back ∧
      matching.state.getOrder candidate.1 = some execution.maker ∧
      ∀ other ∈ front, ∀ better price, matching.state.getOrder other.1 = some better →
        canonicalPrice better = some price → better.owner ≠ taker.owner →
        ∃ earlier ∈ executions takerLimit candidates matching, earlier.maker = better := by
  induction candidates generalizing matching with
  | nil =>
    intro execution member
    cases member
  | cons head rest ih =>
    intro execution member
    unfold executions at member ⊢
    cases ran : matchCandidate takerLimit matching head with
    | none =>
      rw [ran] at member
      cases member
    | some next =>
      rw [ran] at member
      rw [List.mem_append, Option.mem_toList] at member
      rcases member with here | later
      · refine ⟨[], head, rest, rfl, ?_, fun other inFront => by cases inFront⟩
        have step := matchCandidate_step ran
        rw [here] at step
        cases step with
        | filled maker price next found => exact found
      · obtain ⟨front, candidate, back, isRest, found, served⟩ := ih (walk.step ran) execution later
        have same : ∀ other ∈ rest, next.state.getOrder other.1 = matching.state.getOrder other.1 :=
          fun other inRest => walk.getOrder_step ran inRest
        have inRest : ∀ other ∈ front, other ∈ rest := by
          intro other inFront
          rw [isRest]
          exact List.mem_append_left _ inFront
        refine ⟨head :: front, candidate, back, by rw [isRest, List.cons_append], ?_, ?_⟩
        · rw [← same candidate (by simp [isRest])]
          exact found
        · intro other inFront better price isBetter priced otherOwner
          rcases List.mem_cons.mp inFront with isHead | inFront
          · subst isHead
            refine ⟨⟨matching.taker, better, price⟩, List.mem_append_left _
              (Option.mem_toList.mpr ?_), rfl⟩
            have owned : isNull better.owner = false := by
              have valid := (getOrder_stored isBetter).2
              unfold Order.isValid at valid
              simp only [Bool.and_eq_true, Bool.not_eq_true'] at valid
              exact valid.1.1.1.1.1.1.1.2
            rw [← walk.sameRow.owner] at otherOwner
            unfold executionAt
            rw [ran, isBetter]
            simp [owned, otherOwner, priced]
          · rw [← same other (inRest other inFront)] at isBetter
            obtain ⟨earlier, isExecution, isMaker⟩ :=
              served other inFront better price isBetter priced otherOwner
            exact ⟨earlier, List.mem_append_right _ isExecution, isMaker⟩

theorem matchLoop_fills (candidates : List (Nat × Nat)) (matching : Matching) :
    (matchLoop takerLimit candidates matching).fills =
      matching.fills ++ (executions takerLimit candidates matching).map Execution.fill := by
  induction candidates generalizing matching with
  | nil => exact (List.append_nil _).symm
  | cons candidate rest ih =>
    unfold matchLoop executions
    cases ran : matchCandidate takerLimit matching candidate with
    | none => exact (List.append_nil _).symm
    | some next =>
      have step := matchCandidate_step ran
      dsimp only
      rw [ih next, List.map_append]
      generalize executionAt takerLimit matching candidate = execution at step
      cases step with
      | filled maker price next found otherOwner priced crosses filled =>
        obtain ⟨_, _, _, isNext⟩ := tryFill_eq filled _ rfl
        rw [isNext, ← List.append_assoc]
        rfl
      | _ => rfl

/-- A run that was not refused walks the candidates of the book. -/
theorem passive_run (state : StateAccess) (taker : Order) :
    (passiveExecutions state taker = [] ∧ matchPassiveOrder state taker = (state, [])) ∨
      ∃ takerLimit, passiveExecutions state taker =
          executions takerLimit (candidatesOf state taker) ⟨state, taker, []⟩ ∧
        matchPassiveOrder state taker =
          (persistTaker (matchLoop takerLimit (candidatesOf state taker) ⟨state, taker, []⟩),
            (matchLoop takerLimit (candidatesOf state taker) ⟨state, taker, []⟩).fills) := by
  unfold matchPassiveOrder passiveExecutions
  split
  · exact Or.inl ⟨rfl, rfl⟩
  · cases canonicalPrice taker with
    | none => exact Or.inl ⟨rfl, rfl⟩
    | some takerLimit => exact Or.inr ⟨takerLimit, rfl, rfl⟩

/-- The fills of a run are those of its executions. -/
theorem matchPassiveOrder_fills (state : StateAccess) (taker : Order) :
    (matchPassiveOrder state taker).2 = (passiveExecutions state taker).map Execution.fill := by
  rcases passive_run state taker with ⟨none, ran⟩ | ⟨takerLimit, isRun, ran⟩
  · rw [none, ran]
    rfl
  · rw [isRun, ran]
    exact matchLoop_fills _ _

/-- A valid record of a visited row is a resting order. -/
theorem resting_of_mem {level : Nat × Nat} (sound : state.book.Sound)
    (member : level ∈ oppositeLevels state taker)
    (found : state.getOrder level.1 = some maker) :
    ∃ price sequence, Resting state taker maker price sequence ∧ maker.id = level.1 := by
  obtain ⟨key, listed, isBase, isQuote, isSide, _⟩ := mem_bookLevels.mp member
  obtain ⟨order, price, isId, row⟩ := sound.listed key level.1 listed
  have stored := row.stored
  rw [isId, (getOrder_stored found).1] at stored
  cases stored
  obtain ⟨sequence, _, isKey, _⟩ := row.sequenced
  refine ⟨price, sequence, ⟨?_, ?_, ?_, row.priced⟩, isId⟩
  · rw [← isKey, isId]
    exact listed
  · rw [← isKey]
    exact ⟨isBase, isQuote, isSide⟩
  · rw [isId]
    exact found

theorem served_of_fill (sound : state.book.Sound) (taker : Order) :
    ∀ execution ∈ passiveExecutions state taker,
      (∃ price sequence, Resting state taker execution.maker price sequence) ∧
        ∀ price sequence better betterPrice betterSequence,
          Resting state taker execution.maker price sequence →
          Resting state taker better betterPrice betterSequence → better.owner ≠ taker.owner →
          Ahead taker betterPrice betterSequence price sequence →
          ∃ earlier ∈ passiveExecutions state taker, earlier.maker = better := by
  intro execution member
  rcases passive_run state taker with ⟨none, _⟩ | ⟨takerLimit, isRun, _⟩
  · rw [none] at member
    cases member
  rw [isRun] at member ⊢
  have levels := List.take_append_drop MAX_BOOK_LEVELS_PER_TAKER (oppositeLevels state taker)
  obtain ⟨front, candidate, back, isWalk, found, served⟩ :=
    executions_served _ (walk_candidates sound taker) execution member
  have isLevels : oppositeLevels state taker = front ++ candidate :: (back ++
      (oppositeLevels state taker).drop MAX_BOOK_LEVELS_PER_TAKER) := by
    calc oppositeLevels state taker
        = candidatesOf state taker ++
            (oppositeLevels state taker).drop MAX_BOOK_LEVELS_PER_TAKER := levels.symm
      _ = _ := by rw [isWalk, List.append_assoc, List.cons_append]
  have isLevel : candidate ∈ oppositeLevels state taker := by
    rw [isLevels]
    exact List.mem_append_right _ List.mem_cons_self
  obtain ⟨ownPrice, ownSequence, own, isMaker⟩ := resting_of_mem sound isLevel found
  refine ⟨⟨ownPrice, ownSequence, own⟩, ?_⟩
  intro price sequence better betterPrice betterSequence resting isResting otherOwner ahead
  obtain ⟨level, inside, isBetter⟩ :
      ∃ level ∈ oppositeLevels state taker, level.1 = better.id :=
    ⟨(better.id, levelPrice (1 - sideOf taker)
        (bookKey better betterPrice betterSequence).keyPrice),
      mem_bookLevels.mpr ⟨_, isResting.listed, isResting.opposite.baseToken,
        isResting.opposite.quoteToken, isResting.opposite.side, rfl⟩, rfl⟩
  have ranked := ranked_oppositeLevels sound taker
  rw [isLevels, List.mem_append, List.mem_cons] at inside
  rw [isLevels, List.pairwise_append] at ranked
  rcases inside with inFront | isCandidate | behind
  · exact served level inFront better betterPrice (isBetter ▸ isResting.found) isResting.priced
      otherOwner
  · subst isCandidate
    have isExecution : better = execution.maker :=
      Option.some.inj (isResting.found.symm.trans (isBetter ▸ found))
    exact ⟨execution, member, isExecution.symm⟩
  · have later := List.rel_of_pairwise_cons ranked.2.1 behind
    have behind := later _ _ _ _ _ _ resting isMaker isResting isBetter.symm
    unfold Ahead at ahead behind
    split at ahead <;> split at behind <;> omega

/-! ## What the run leaves -/

section Run
variable {matching : Matching}

/-- The executions are in the order of the walk. -/
theorem executions_sublist (candidates : List (Nat × Nat)) (walk : Walk taker matching candidates) :
    ((executions takerLimit candidates matching).map fun execution => execution.maker.id).Sublist
      (candidates.map Prod.fst) := by
  induction candidates generalizing matching with
  | nil => exact List.Sublist.refl _
  | cons candidate rest ih =>
    unfold executions
    cases ran : matchCandidate takerLimit matching candidate with
    | none => exact List.nil_sublist _
    | some next =>
      have later := ih (walk.step ran)
      have step := matchCandidate_step ran
      dsimp only
      cases made : executionAt takerLimit matching candidate with
      | none => exact later.cons _
      | some execution =>
        rw [made] at step
        cases step with
        | filled maker price next found =>
          rw [List.map_cons, ← walk.sound.filed _ _ (getOrder_stored found).1]
          exact later.cons_cons _

/-- A taker that is full makes no execution, so every execution but the last leaves some of it. -/
theorem executions_goOn (candidates : List (Nat × Nat)) (matching : Matching) :
    (executions takerLimit candidates matching).Pairwise fun execution _ =>
      (recordFill execution.taker execution.takerSells).isFullyFilled = false := by
  induction candidates generalizing matching with
  | nil => exact List.Pairwise.nil
  | cons candidate rest ih =>
    unfold executions
    cases ran : matchCandidate takerLimit matching candidate with
    | none => exact List.Pairwise.nil
    | some next =>
      dsimp only
      have step := matchCandidate_step ran
      cases made : executionAt takerLimit matching candidate with
      | none => exact ih next
      | some execution =>
        rw [made] at step
        cases step with
        | filled maker price next found otherOwner priced crosses filled =>
          refine List.Pairwise.cons (fun later member => ?_) (ih next)
          obtain ⟨_, _, _, isNext⟩ := tryFill_eq filled _ rfl
          rw [Bool.eq_false_iff]
          intro full
          have isTaker : next.taker.isFullyFilled = true := by
            rw [isNext]
            exact full
          cases rest with
          | nil => cases member
          | cons other others =>
            unfold executions matchCandidate at member
            rw [if_pos isTaker] at member
            cases member

theorem getOrder_matchLoop {orderId : Nat} (candidates tail : List (Nat × Nat))
    (walk : Walk taker matching (candidates ++ tail))
    (isOther : ∀ candidate ∈ candidates, orderId ≠ candidate.1) :
    (matchLoop takerLimit candidates matching).state.getOrder orderId =
      matching.state.getOrder orderId := by
  induction candidates generalizing matching with
  | nil => rfl
  | cons candidate rest ih =>
    unfold matchLoop
    cases ran : matchCandidate takerLimit matching candidate with
    | none => rfl
    | some next =>
      refine (ih (walk.step ran) fun other member =>
        isOther other (List.mem_cons_of_mem _ member)).trans ?_
      unfold getOrder
      exact congrArg (Option.filter Order.isValid)
        ((matchCandidate_book ran).other_order walk.sound (isOther candidate List.mem_cons_self))

/-- What the loop leaves of a maker: nothing where it is full, else the rest of its one fill. -/
theorem getOrder_executed (candidates : List (Nat × Nat)) (walk : Walk taker matching candidates) :
    ∀ execution ∈ executions takerLimit candidates matching,
      (matchLoop takerLimit candidates matching).state.getOrder execution.maker.id =
        if (recordFill execution.maker execution.makerSells).isFullyFilled then none
        else some (recordFill execution.maker execution.makerSells) := by
  induction candidates generalizing matching with
  | nil =>
    intro execution member
    cases member
  | cons candidate rest ih =>
    intro execution member
    unfold executions at member
    unfold matchLoop
    cases ran : matchCandidate takerLimit matching candidate with
    | none =>
      rw [ran] at member
      cases member
    | some next =>
      rw [ran] at member
      rw [List.mem_append, Option.mem_toList] at member
      rcases member with here | later
      · have step := matchCandidate_step ran
        rw [here] at step
        have distinct := walk.distinct
        rw [List.map_cons, List.nodup_cons] at distinct
        cases step with
        | filled maker price next found otherOwner priced crosses filled =>
          have isId := walk.sound.filed _ _ (getOrder_stored found).1
          have untouched : ∀ other ∈ rest, maker.id ≠ other.1 := by
            intro other inRest same
            exact distinct.1 (isId ▸ same ▸ List.mem_map_of_mem inRest)
          have later := walk.step ran
          rw [← List.append_nil rest] at later
          exact (getOrder_matchLoop rest [] later untouched).trans (getOrder_tryFill found filled)
      · exact ih (walk.step ran) execution later

end Run

theorem getOrder_persistTaker {matching : Matching} {orderId : Nat}
    (isOther : orderId ≠ matching.taker.id) :
    (persistTaker matching).getOrder orderId = matching.state.getOrder orderId := by
  have record : (persistTaker matching).book.orders.find? orderId =
      matching.state.book.orders.find? orderId := by
    rw [persistTaker_book]
    split
    · unfold Book.delete
      dsimp only
      rw [Table.find?_erase, if_neg isOther]
    · rw [Book.orders_list, Book.orders_store, if_neg isOther]
  unfold getOrder
  exact congrArg (Option.filter Order.isValid) record

/-- An execution that is not the last one leaves something of a taker that sells the base token. -/
theorem qtyBase_lt_of_front (small : taker.sellAmount < 2 ^ 64) {execution : Execution}
    (member : execution ∈ (passiveExecutions state taker).dropLast)
    (base : sellsBase execution.taker = true) :
    execution.qtyBase < execution.taker.remainingAmount := by
  have inRun := List.mem_of_mem_dropLast member
  obtain ⟨limit, _, executed⟩ := passive_executed inRun
  rcases passive_run state taker with ⟨none, _⟩ | ⟨takerLimit, isRun, _⟩
  · rw [none] at inRun
    cases inRun
  have pairwise := @executions_goOn takerLimit (candidatesOf state taker) ⟨state, taker, []⟩
  rw [← isRun, ← List.dropLast_append_getLast (List.ne_nil_of_mem inRun),
    List.pairwise_append] at pairwise
  have unfilled := pairwise.2.2 execution member _ (List.mem_singleton_self _)
  have sold : execution.takerSells = execution.qtyBase := by
    unfold Execution.takerSells baseToSellAmount
    rw [base, if_pos rfl]
  have available : execution.takerSells ≤ execution.taker.remainingAmount :=
    baseToSellAmount_le (Nat.min_le_left _ _)
  have unfull := executed.unfilled
  have smallTaker : execution.taker.sellAmount < 2 ^ 64 := executed.sameTaker.sellAmount ▸ small
  rw [sold] at unfilled available
  unfold recordFill Order.isFullyFilled u64 at unfilled
  unfold Order.remainingAmount sub64 at available ⊢
  simp only [decide_eq_false_iff_not, Nat.not_le] at unfilled
  omega

/-- What is left of a maker cannot be filled exactly when it was taken whole. The last execution is
not asked about: nothing is filled behind it. -/
theorem left_iff (sound : state.book.Sound) (unlisted : state.book.Unlisted taker.id)
    (small : taker.sellAmount < 2 ^ 64) {execution : Execution}
    (member : execution ∈ (passiveExecutions state taker).dropLast)
    (resting : Resting state taker execution.maker price sequence) :
    (∀ left, (matchPassiveOrder state taker).1.getOrder execution.maker.id = some left →
        ¬Fillable left price) ↔ TakenWhole execution.taker.remainingAmount execution.maker := by
  have inRun := List.mem_of_mem_dropLast member
  obtain ⟨limit, _, executed⟩ := passive_executed inRun
  have isPrice : execution.price = price := by
    have priced := executed.priced.symm.trans resting.priced
    exact Option.some.inj priced
  have within := (Order.facts_of_isValid (getOrder_isValid resting.found)).2.2
  have covered : execution.makerSells ≤ execution.maker.remainingAmount :=
    baseToSellAmount_le (Nat.min_le_right _ _)
  rcases passive_run state taker with ⟨none, _⟩ | ⟨takerLimit, isRun, ran⟩
  · rw [none] at inRun
    cases inRun
  have walk := walk_candidates sound taker
  have otherId : execution.maker.id ≠ taker.id :=
    fun same => unlisted _ (same ▸ resting.listed)
  have sameTaker := @matchLoop_sameRow takerLimit (candidatesOf state taker) ⟨state, taker, []⟩
  have left : (matchPassiveOrder state taker).1.getOrder execution.maker.id =
      if (recordFill execution.maker execution.makerSells).isFullyFilled then none
      else some (recordFill execution.maker execution.makerSells) := by
    rw [ran]
    dsimp only
    rw [getOrder_persistTaker (sameTaker.id ▸ otherId)]
    exact getOrder_executed _ walk execution (isRun ▸ inRun)
  have opposite : sellsBase execution.taker = !sellsBase execution.maker := by
    rw [← sellsBase_of_sides resting.opposite.side]
    unfold sellsBase
    rw [executed.sameTaker.sellToken, executed.sameTaker.buyToken]
  rw [← not_fillable_iff executed opposite within (qtyBase_lt_of_front small member), left, isPrice]
  split
  next full =>
    have none := (recordFill_facts within covered).2.2 full
    have someSold := executed.makerSells
    refine iff_of_true (fun _ found => by cases found) ?_
    unfold Fillable
    rw [none, Nat.zero_mul, Nat.zero_mul, Nat.zero_div, Nat.zero_mul]
    split
    · decide
    · exact fun fillable => absurd fillable.2 (by decide)
  next => simp

/-- The makers of a run are in the order of price and insertion. -/
theorem makers_ahead (sound : state.book.Sound) (taker : Order) :
    (passiveExecutions state taker).Pairwise fun earlier later =>
      ∀ price sequence otherPrice otherSequence, Resting state taker earlier.maker price sequence →
        Resting state taker later.maker otherPrice otherSequence →
        Ahead taker price sequence otherPrice otherSequence := by
  rcases passive_run state taker with ⟨none, _⟩ | ⟨takerLimit, isRun, _⟩
  · rw [none]
    exact List.Pairwise.nil
  have ranked := (ranked_oppositeLevels sound taker).sublist
    (List.take_sublist MAX_BOOK_LEVELS_PER_TAKER _)
  have byId : ((candidatesOf state taker).map Prod.fst).Pairwise fun earlier later =>
      ∀ first price sequence second otherPrice otherSequence,
        Resting state taker first price sequence → first.id = earlier →
        Resting state taker second otherPrice otherSequence → second.id = later →
        Ahead taker price sequence otherPrice otherSequence :=
    List.pairwise_map.mpr ranked
  have made := List.pairwise_map.mp (byId.sublist (@executions_sublist taker takerLimit _
    (candidatesOf state taker) (walk_candidates sound taker)))
  rw [isRun]
  refine made.imp ?_
  intro earlier later ahead price sequence otherPrice otherSequence resting otherResting
  exact ahead _ _ _ _ _ _ resting rfl otherResting rfl

/-- An execution whose maker is ahead of that of another one is not the last. -/
theorem mem_dropLast_of_ahead (sound : state.book.Sound) {earlier later : Execution}
    {otherPrice otherSequence : Nat}
    (isEarlier : earlier ∈ passiveExecutions state taker)
    (isLater : later ∈ passiveExecutions state taker)
    (resting : Resting state taker earlier.maker price sequence)
    (otherResting : Resting state taker later.maker otherPrice otherSequence)
    (ahead : Ahead taker price sequence otherPrice otherSequence) :
    earlier ∈ (passiveExecutions state taker).dropLast := by
  have pairwise := makers_ahead sound taker
  have isList := List.dropLast_append_getLast (List.ne_nil_of_mem isEarlier)
  rw [← isList, List.pairwise_append] at pairwise
  rw [← isList, List.mem_append, List.mem_singleton] at isEarlier isLater
  rcases isEarlier with front | isLast
  · exact front
  exfalso
  rcases isLater with inFront | same
  · have behind := pairwise.2.2 later inFront earlier (List.mem_singleton.mpr isLast) _ _ _ _
      otherResting resting
    unfold Ahead at ahead behind
    split at ahead <;> split at behind <;> omega
  · rw [same, ← isLast] at otherResting
    have sameKey := key_eq_of_listed sound resting.listed otherResting.listed
    have samePrice := resting.priced.symm.trans otherResting.priced
    have sameSequence : sequence = otherSequence := congrArg BookKey.sequence sameKey
    cases samePrice
    unfold Ahead at ahead
    split at ahead <;> omega

/-- No better maker is left exactly when every maker but the last one was taken whole. -/
theorem noneLeft_iff_executions (sound : state.book.Sound) (unlisted : state.book.Unlisted taker.id)
    (small : taker.sellAmount < 2 ^ 64) :
    NoneLeft state taker ↔ ∀ execution ∈ (passiveExecutions state taker).dropLast,
      TakenWhole execution.taker.remainingAmount execution.maker := by
  have isFills := matchPassiveOrder_fills state taker
  have servedAll := served_of_fill sound taker
  constructor
  · intro noneLeft execution member
    have inRun := List.mem_of_mem_dropLast member
    have isList := List.dropLast_append_getLast (List.ne_nil_of_mem inRun)
    have isLast := List.getLast_mem (List.ne_nil_of_mem inRun)
    obtain ⟨⟨price, sequence, resting⟩, _⟩ := servedAll execution inRun
    obtain ⟨⟨lastPrice, lastSequence, lastResting⟩, _⟩ := servedAll _ isLast
    obtain ⟨_, _, executed⟩ := passive_executed inRun
    have pairwise := makers_ahead sound taker
    rw [← isList, List.pairwise_append] at pairwise
    have ahead := pairwise.2.2 execution member _ (List.mem_singleton_self _) _ _ _ _ resting
      lastResting
    apply (left_iff sound unlisted small member resting).mp
    exact noneLeft _ (isFills ▸ List.mem_map_of_mem isLast) _ lastPrice lastSequence rfl lastResting
      _ price sequence resting executed.otherOwner ahead
  · intro whole fill member maker price sequence isMaker resting better betterPrice betterSequence
      isResting otherOwner ahead
    rw [isFills] at member
    obtain ⟨execution, isExecution, isFill⟩ := List.mem_map.mp member
    obtain ⟨⟨_, _, own⟩, served⟩ := servedAll execution isExecution
    have sameMaker : execution.maker = maker := by
      have sameId : execution.maker.id = maker.id := by
        rw [isMaker, ← isFill]
        rfl
      exact Option.some.inj (own.found.symm.trans (sameId ▸ resting.found))
    rw [← sameMaker] at resting
    obtain ⟨earlier, isEarlier, isBetter⟩ :=
      served price sequence better betterPrice betterSequence resting isResting otherOwner ahead
    rw [← isBetter] at isResting ⊢
    have front := mem_dropLast_of_ahead sound isEarlier isExecution isResting resting ahead
    exact (left_iff sound unlisted small front isResting).mpr (whole earlier front)

theorem fillsAlong_zero (levels : List (Order × Nat)) : fillsAlong 0 levels = [] := by
  cases levels with
  | nil => rfl
  | cons level rest =>
    have nothing : fillBase 0 level.1 level.2 = 0 := by
      unfold fillBase
      rw [sellAmountToBase_zero, Nat.zero_min]
    unfold fillsAlong
    rw [if_pos (Or.inl nothing)]

/-- A maker is filled as `tryFill` says. -/
theorem fillsAlong_met {matching : Matching} (sides : sellsBase matching.taker = !sellsBase maker)
    (rest : List (Order × Nat)) :
    fillsAlong matching.taker.remainingAmount ((maker, price) :: rest) =
      if tryFill matching maker price = none then []
      else (matching.taker.remainingAmount, maker) :: fillsAlong (matching.taker.remainingAmount -
        Execution.takerSells ⟨matching.taker, maker, price⟩) rest := by
  have quantity : Execution.qtyBase ⟨matching.taker, maker, price⟩ =
      fillBase matching.taker.remainingAmount maker price := by
    unfold Execution.qtyBase fillBase wholeBase
    dsimp only
    rw [sides]
  have cost : Execution.takerSells ⟨matching.taker, maker, price⟩ =
      fillCost matching.taker.remainingAmount maker price := by
    unfold Execution.takerSells fillCost
    rw [quantity, sides]
  rw [fillsAlong, cost]
  refine if_congr ?_ rfl rfl
  rw [tryFill_eq_none_iff, cost, quantity, Execution.makerSells, quantity]

/-- The executions of a walk are the fills of the makers that cross, as they were before it. The
induction is on the candidates. -/
theorem executions_eq_fillsAlong {start : StateAccess} {matching : Matching}
    (candidates : List (Nat × Nat)) (walk : Walk taker matching candidates)
    (records : ∀ candidate ∈ candidates,
      matching.state.getOrder candidate.1 = start.getOrder candidate.1)
    (sorted : BestFirst taker takerLimit candidates)
    (within : matching.taker.filledAmount ≤ matching.taker.sellAmount) :
    ((executions takerLimit candidates matching).map fun execution =>
        (execution.taker.remainingAmount, execution.maker)) =
      fillsAlong matching.taker.remainingAmount
        (crossingLevels start taker takerLimit candidates) := by
  induction candidates generalizing matching with
  | nil => rfl
  | cons candidate rest ih =>
    have later {next : Matching} (ran : matchCandidate takerLimit matching candidate = some next)
        (nextWithin : next.taker.filledAmount ≤ next.taker.sellAmount) :=
      ih (walk.step ran) (fun other member => (walk.getOrder_step ran member).trans
        (records other (List.mem_cons_of_mem _ member))) sorted.of_cons nextWithin
    unfold executions
    cases full : matching.taker.isFullyFilled with
    | true =>
      have stopped : matchCandidate takerLimit matching candidate = none := if_pos full
      have spent : matching.taker.remainingAmount = 0 := by
        simp only [Order.isFullyFilled, decide_eq_true_eq] at full
        unfold Order.remainingAmount sub64
        omega
      rw [stopped, spent, fillsAlong_zero]
      rfl
    | false =>
      cases walk.encounter (records candidate List.mem_cons_self) sorted full with
      | apart _ stopped levels =>
        rw [stopped, levels]
        rfl
      | passed next ran sameTaker idle levels =>
        rw [ran, idle, levels, ← sameTaker]
        exact later ran (sameTaker ▸ within)
      | met maker found _ ran traded levels =>
        rw [ran, levels, fillsAlong_met (walk.record found).2]
        cases filled : tryFill matching maker candidate.2 with
        | none =>
          rfl
        | some next =>
          obtain ⟨nextWithin, left⟩ := tryFill_taker within filled
          rw [traded next filled, ← left, ← later (ran.trans filled) nextWithin]
          rfl

/-- **Matching keeps price-time priority**, for every sound book and every new taker: the orders are
walked in the order they are owed, and no order is filled while one ahead of it keeps a remainder
that could be filled exactly when every maker that is filled before another one is taken whole. -/
theorem matchPassiveOrder_priority {state : StateAccess} {taker : Order} (sound : state.book.Sound)
    (unlisted : state.book.Unlisted taker.id) (small : taker.sellAmount < 2 ^ 64) :
    Priority state taker ∧ (NoneLeft state taker ↔ ServesWhole state taker) := by
  have isFills := matchPassiveOrder_fills state taker
  have servedAll := served_of_fill sound taker
  refine ⟨⟨?_, ranked_oppositeLevels sound taker, ?_⟩, ?_⟩
  · refine (keys_bookLevels sound _ _ _).imp ?_
    intro earlier later sorted key other listed otherListed
    obtain ⟨fits, sequenceFits⟩ := key_fits sound listed
    obtain ⟨otherFits, otherSequenceFits⟩ := key_fits sound otherListed
    have sequences := bigEndian_append_lt_iff sequenceFits otherSequenceFits [] []
    rw [List.append_nil, List.append_nil] at sequences
    unfold sortBytes
    rw [bigEndian_append_lt_iff fits otherFits, sequences]
    simpa using sorted key other listed otherListed
  · intro fill member
    rw [isFills] at member ⊢
    obtain ⟨execution, isExecution, isFill⟩ := List.mem_map.mp member
    obtain ⟨⟨price, sequence, resting⟩, served⟩ := servedAll execution isExecution
    refine ⟨execution.maker, price, sequence, isFill ▸ rfl, resting, ?_⟩
    intro better betterPrice betterSequence isResting otherOwner ahead
    obtain ⟨earlier, isEarlier, isMaker⟩ :=
      served price sequence better betterPrice betterSequence resting isResting otherOwner ahead
    exact ⟨earlier.fill, List.mem_map_of_mem isEarlier, congrArg Order.id isMaker⟩
  · rw [noneLeft_iff_executions sound unlisted small]
    unfold ServesWhole passiveExecutions
    by_cases matchable : Matchable taker
    · rw [if_neg matchable]
      cases priced : canonicalPrice taker with
      | none => simp
      | some takerLimit =>
        have fills := @executions_eq_fillsAlong taker takerLimit state ⟨state, taker, []⟩ _
          (walk_candidates sound taker) (fun _ _ => rfl)
          ((sorted_bookLevels sound taker takerLimit).sublist (List.take_sublist _ _))
          matchable.within
        simp only [Option.mem_some_iff, forall_eq', matchable, forall_const]
        rw [← fills, ← List.map_dropLast]
        rw [List.forall_mem_map]
        rfl
    · rw [if_pos (not_not.mp matchable)]
      simp [matchable]

namespace Regtest

/-- A bid for all that is offered is filled from the second offer first, and takes it whole. -/
theorem bid_takes_better_first :
    (matchPassiveOrder (stateAfter offeredTwice) { bid 30 6 with id := 3 }).2.map
        Fill.makerOrderId = [2, 1] ∧
      Priority (stateAfter offeredTwice) { bid 30 6 with id := 3 } ∧
      NoneLeft (stateAfter offeredTwice) { bid 30 6 with id := 3 } := by
  have sound := offeredTwice_reached.bookInvariant.sound
  have unlisted := sound.unlisted_of_missing
    (show (stateAfter offeredTwice).book.orders.find? 3 = none by decide +kernel)
  obtain ⟨priority, noneLeft⟩ := @matchPassiveOrder_priority _ { bid 30 6 with id := 3 } sound
    unlisted (by decide)
  exact ⟨by decide +kernel, priority, noneLeft.mpr (by decide +kernel)⟩

/-- Owner 20 sells units of the created token for native ones. -/
def sellCoin (nonce amount minBuy : Nat) : Transaction :=
  { chainId := 1
    txType := .createOrder
    nonce := nonce
    sender := 20
    tokenId := 1
    amount := amount
    fee := 1
    payload := putU32 0 ++ putU64 minBuy ++ putU8 0 ++ putU32 0 ++ putU64 0 ++ putU8 0 }

def coinsOffered : List (List Transaction) :=
  [[createCoin], [mintCoin 1 20 1000], [sellCoin 2 5 3], [sellCoin 3 8 8]]

def coinOffer (id sellAmount minBuyAmount height : Nat) : Order :=
  { id := id, owner := 20, sellToken := 1, buyToken := 0, sellAmount := sellAmount
    minBuyAmount := minBuyAmount, createdAtHeight := height }

def coinTaker : Order :=
  { id := 3, owner := 10, sellToken := 0, buyToken := 1, sellAmount := 10, minBuyAmount := 10 }

/-- The better order sells three of its five units and keeps two, which are worth one unit at its
price; the rest of the taker goes to the worse one. -/
theorem coinTaker_leaves_better : Reached env config (stateAfter coinsOffered) ∧
      (matchPassiveOrder (stateAfter coinsOffered) coinTaker).2.map
        (fun fill => (fill.makerOrderId, fill.qtyBase, fill.qtyQuote)) = [(1, 2, 3), (2, 8, 8)] ∧
      ¬NoneLeft (stateAfter coinsOffered) coinTaker := by
  refine ⟨.between (blocks coinsOffered) _ (chain_of_accepts (by decide +kernel)),
    by decide +kernel, ?_⟩
  intro noneLeft
  have better : Resting (stateAfter coinsOffered) coinTaker (coinOffer 1 5 3 3) 16666666667 1 :=
    ⟨by decide +kernel, ⟨rfl, rfl, rfl⟩, by decide +kernel, by decide +kernel⟩
  have worse : Resting (stateAfter coinsOffered) coinTaker (coinOffer 2 8 8 4) BOOK_PRICE_SCALE 2 :=
    ⟨by decide +kernel, ⟨rfl, rfl, rfl⟩, by decide +kernel, by decide +kernel⟩
  have filled : (matchPassiveOrder (stateAfter coinsOffered) coinTaker).2.any
      (fun fill => fill.makerOrderId == 2) = true := by
    decide +kernel
  obtain ⟨fill, member, isMaker⟩ := List.any_eq_true.mp filled
  refine noneLeft fill member _ _ _ (beq_iff_eq.mp isMaker).symm worse _ _ _ better (by decide)
    (Or.inl (by decide)) { coinOffer 1 5 3 3 with filledAmount := 3 } (by decide +kernel) ?_
  exact ⟨by decide, by decide⟩

end Regtest

end Clarity.Core
