import Clarity.Core.PassiveFills
import Clarity.Core.Chain

/-!
Contract: the order book over whole chains.

Owns: what the matching loop, the routing and the removal of orders do to the book; and
`BookInvariant`, that in every state a chain passes through each row of the book belongs to the
record it names, and that the next order gets an id no record has.
-/

namespace Clarity.Core

open Common Crypto Library State State.StateAccess TransactionExecutor

variable {state : StateAccess} {takerLimit other : Nat} {order : Order} {tx : Transaction}

/-! ## One candidate of the matching loop -/

/-- What a candidate does to the book: nothing, or its own order is closed or filled. -/
inductive BookStep (book : Book) (orderId : Nat) : Book → Prop
  | same : BookStep book orderId book
  | close (order : Order) (found : book.orders.find? orderId = some order)
      (valid : order.isValid = true) : BookStep book orderId (book.close order)
  | fill (order : Order) (amount : Nat) (found : book.orders.find? orderId = some order) :
      BookStep book orderId (book.store (recordFill order amount))

@[simp] theorem book_credit (owner : Address) (tokenId amount : Nat) :
    (credit state owner tokenId amount).book = state.book :=
  book_of_within (by simp)

/-- The maker of a fill is closed when it is full, else its record is rewritten. -/
theorem tryFill_book {matching next : Matching} {maker : Order} {price : Nat}
    (filled : tryFill matching maker price = some next) :
    next.state.book =
      if (recordFill maker (Execution.makerSells ⟨matching.taker, maker, price⟩)).isFullyFilled then
        matching.state.book.close maker
      else matching.state.book.store
        (recordFill maker (Execution.makerSells ⟨matching.taker, maker, price⟩)) := by
  obtain ⟨_, _, _, isNext⟩ := tryFill_eq filled _ rfl
  rw [isNext]
  unfold executeFill persistMaker
  dsimp only
  split
  · have same := sameRow_recordFill maker (Execution.makerSells ⟨matching.taker, maker, price⟩)
    rw [book_deleteOrder, book_removeFromOrderBook, book_credit, book_credit]
    unfold Book.close Book.unlist
    simp only [same.id, same.canonicalPrice, same.bookKey]
  · rw [book_putOrder, book_credit, book_credit]

theorem matchCandidate_book {matching next : Matching} {candidate : Nat × Nat}
    (ran : matchCandidate takerLimit matching candidate = some next) :
    BookStep matching.state.book candidate.1 next.state.book := by
  have step := matchCandidate_step ran
  generalize executionAt takerLimit matching candidate = execution at step
  cases step with
  | missing found => exact .same
  | unpriced maker found noPrice => exact .same
  | orphaned maker found =>
    obtain ⟨stored, valid⟩ := getOrder_stored found
    rw [book_deleteOrder, book_removeFromOrderBook]
    exact .close maker stored valid
  | own maker found sameOwner =>
    obtain ⟨stored, valid⟩ := getOrder_stored found
    rcases @book_refundOrder matching.state maker true with same | closed
    · rw [same]
      exact .same
    · rw [closed]
      exact .close maker stored valid
  | filled maker price next found otherOwner priced crosses filled =>
    obtain ⟨stored, valid⟩ := getOrder_stored found
    rw [tryFill_book filled]
    split
    · exact .close maker stored valid
    · exact .fill maker _ stored

section
variable {book next : Book} {orderId : Nat} (step : BookStep book orderId next)
include step

theorem BookStep.sound (sound : book.Sound) : next.Sound := by
  cases step with
  | same => exact sound
  | close order found valid =>
    have isId := sound.filed orderId order found
    exact sound.close (isId.symm ▸ found) (Order.facts_of_isValid valid).1
  | fill order amount found =>
    have isId := sound.filed orderId order found
    exact sound.store_same (isId.symm ▸ found) (sameRow_recordFill order amount)

theorem BookStep.rows {key : BookKey} (listed : next.rows.find? key = some other) :
    book.rows.find? key = some other := by
  cases step with
  | same => exact listed
  | close order found valid => exact Book.rows_unlist listed
  | fill order amount found => exact listed

theorem BookStep.other_order (sound : book.Sound) (isOther : other ≠ orderId) :
    next.orders.find? other = book.orders.find? other := by
  cases step with
  | same => rfl
  | close order found valid =>
    rw [Book.orders_close, if_neg (sound.filed orderId order found ▸ isOther)]
  | fill order amount found =>
    have isId : (recordFill order amount).id = orderId := sound.filed orderId order found
    rw [Book.orders_store, if_neg (isId ▸ isOther)]

theorem BookStep.other_row (sound : book.Sound) {key own : BookKey}
    (isListed : book.rows.find? own = some orderId) (isOther : other ≠ orderId)
    (listed : book.rows.find? key = some other) : next.rows.find? key = some other := by
  cases step with
  | same => exact listed
  | fill order amount found => exact listed
  | close order found valid =>
    have isId := sound.filed orderId order found
    obtain ⟨price, row⟩ := sound.row_eq (isId.symm ▸ found) (isId.symm ▸ isListed)
    obtain ⟨sequence, isSequence, isKey, _⟩ := row.sequenced
    have isOwn : ∀ otherSequence otherPrice, book.sequences.find? order.id = some otherSequence →
        OrderBook.canonicalPrice order = some otherPrice →
        StateAccess.bookKey order otherPrice otherSequence = own := by
      intro otherSequence otherPrice found priced
      rw [isSequence] at found
      rw [row.priced] at priced
      cases found
      cases priced
      exact isKey.symm
    refine Book.rows_unlist_of_ne isOwn ?_ listed
    · rintro rfl
      rw [isListed] at listed
      cases listed
      exact isOther rfl

theorem BookStep.unlisted (unlisted : book.Unlisted other) : next.Unlisted other :=
  fun key listed => unlisted key (step.rows listed)

end

theorem nextOrderId_step {book next : Book} {orderId : Nat} (step : BookStep book orderId next) :
    next.nextOrderId = book.nextOrderId := by
  cases step with
  | same => rfl
  | close order found valid => exact Book.nextOrderId_unlist order
  | fill order amount found => rfl

/-! ## Whole runs -/

/-- A run keeps the book sound and the counter as it is, and has no records but the ones there
were and the one of its own order. -/
structure BookGrows (own : Nat) (before after : Book) : Prop where
  sound : after.Sound
  counter : after.nextOrderId = before.nextOrderId
  known : ∀ orderId order, after.orders.find? orderId = some order →
    orderId = own ∨ ∃ old, before.orders.find? orderId = some old

/-- Moreover its own order has no row yet. -/
structure BookKept (own : Nat) (before after : Book) : Prop extends BookGrows own before after where
  unlisted : after.Unlisted own

theorem BookGrows.self {own : Nat} {book : Book} (sound : book.Sound) : BookGrows own book book :=
  ⟨sound, rfl, fun _ order found => Or.inr ⟨order, found⟩⟩

theorem BookKept.step {own orderId : Nat} {before book next : Book}
    (kept : BookKept own before book) (step : BookStep book orderId next) :
    BookKept own before next := by
  refine ⟨⟨step.sound kept.sound, (nextOrderId_step step).trans kept.counter,
    fun other order found => ?_⟩, step.unlisted kept.unlisted⟩
  by_cases same : other = orderId
  · subst same
    cases step with
    | same => exact kept.known other order found
    | close old stored valid => exact kept.known other old stored
    | fill old amount stored => exact kept.known other old stored
  · rw [step.other_order kept.sound same] at found
    exact kept.known other order found

theorem BookGrows.delete_unlisted {own removed : Nat} {before book : Book}
    (grows : BookGrows own before book) (unlisted : book.Unlisted removed) :
    BookGrows own before (book.delete removed) := by
  exact ⟨grows.sound.delete_unlisted unlisted, grows.counter, Table.forall_erase grows.known⟩

theorem BookKept.store {before book : Book} (kept : BookKept order.id before book) :
    BookKept order.id before (book.store order) := by
  exact ⟨⟨kept.sound.store_unlisted kept.unlisted, kept.counter,
    Table.forall_put kept.known (Or.inl rfl)⟩, kept.unlisted⟩

theorem matchLoop_book {own : Nat} {before : Book} (candidates : List (Nat × Nat))
    (matching : Matching) (kept : BookKept own before matching.state.book) :
    BookKept own before (matchLoop takerLimit candidates matching).state.book :=
  @matchLoop_keeps (BookKept own before ·.state.book) _ candidates
    (fun _ _ kept _ ran => kept.step (matchCandidate_book ran)) _ kept

theorem matchLoop_sameRow (candidates : List (Nat × Nat)) (matching : Matching) :
    Book.SameRow matching.taker (matchLoop takerLimit candidates matching).taker :=
  @matchLoop_keeps (Book.SameRow matching.taker ·.taker) _ candidates
    (fun _ _ same _ ran => same.trans (matchCandidate_step ran).sameRow) _ (Book.SameRow.refl _)

/-- The book after a taker is persisted. -/
theorem persistTaker_book (matching : Matching) : (persistTaker matching).book =
      if matching.taker.isFullyFilled then matching.state.book.delete matching.taker.id
      else (matching.state.book.store matching.taker).list matching.taker
        (matching.state.putOrder matching.taker).nextOrderSequence.1 := by
  unfold persistTaker
  split
  · rw [book_deleteOrder]
  · dsimp only
    rw [book_addToOrderBook, book_nextOrderSequence, book_putOrder]

theorem matchPassiveOrder_book {taker : Order} {before : Book}
    (kept : BookKept taker.id before state.book) :
    BookGrows taker.id before (matchPassiveOrder state taker).1.book := by
  unfold matchPassiveOrder
  split
  · exact kept.toBookGrows
  next usable =>
    simp only [not_or, ne_eq, not_not] at usable
    split
    · exact kept.toBookGrows
    next takerLimit _ =>
      dsimp only
      generalize (List.take OrderBook.MAX_BOOK_LEVELS_PER_TAKER _) = candidates
      have matched := @matchLoop_book takerLimit taker.id before candidates
        { state := state, taker := taker, fills := [] } kept
      have same := @matchLoop_sameRow takerLimit candidates
        { state := state, taker := taker, fills := [] }
      generalize matchLoop takerLimit candidates { state := state, taker := taker, fills := [] } =
        done at matched same
      have isId : done.taker.id = taker.id := same.id
      rw [persistTaker_book]
      rw [← isId] at matched ⊢
      split
      · exact matched.toBookGrows.delete_unlisted matched.unlisted
      · have stored := matched.store
        have small : (done.state.putOrder done.taker).nextOrderSequence.1 < 2 ^ 64 :=
          Nat.mod_lt _ (by decide)
        refine ⟨stored.sound.list ?_ (same.mode.trans usable.2.2.2) stored.unlisted small, ?_, ?_⟩
        · rw [Book.orders_store, if_pos rfl]
        · rw [Book.nextOrderId_list]
          exact stored.counter
        · rw [Book.orders_list]
          exact stored.known

/-! ## Active orders -/

theorem executeActiveOrder_book {after : StateAccess} {height : Nat} {fill : Fill}
    {own : Nat} {before : Book} (grows : BookGrows own before state.book)
    (stored : state.book.orders.find? order.id = some order)
    (ran : executeActiveOrder state order height = .filled after fill) :
    BookGrows own before after.book := by
  unfold executeActiveOrder at ran
  split at ran
  · cases ran
  · cases ran
  next pool amountIn amountOut price quoted =>
    cases ran
    have active : order.mode = .active := by
      by_contra passive
      unfold quoteRoute at quoted
      rw [if_pos (Or.inl passive)] at quoted
      cases quoted
    unfold routeFill persistRouted
    dsimp only
    split
    · rw [book_deleteOrder, book_addBalance, book_putAmmPool]
      have unlisted : state.book.Unlisted order.id := grows.sound.unlisted_of_active stored active
      exact grows.delete_unlisted unlisted
    · rw [book_putOrder, book_addBalance, book_putAmmPool]
      have step : BookStep state.book order.id (state.book.store (recordFill order amountIn)) :=
        .fill order amountIn stored
      refine ⟨step.sound grows.sound, grows.counter, fun other record found => ?_⟩
      by_cases same : other = order.id
      · subst same
        exact grows.known order.id order stored
      · rw [step.other_order grows.sound same] at found
        exact grows.known other record found

/-! ## Orders that are closed -/

theorem closeOrder_book {own orderId refund : Nat} {before : Book}
    (grows : BookGrows own before state.book) (found : state.getOrder orderId = some order) :
    BookGrows own before ((if refund > 0 then state.addBalance order.owner order.sellToken refund
      else state).deleteRestingOrder order).book := by
  obtain ⟨stored, valid⟩ := getOrder_stored found
  have same : (if refund > 0 then state.addBalance order.owner order.sellToken refund
      else state).book = state.book := by
    split
    · exact book_addBalance _ _ _
    · rfl
  rw [book_deleteRestingOrder (Order.facts_of_isValid valid).1, same]
  have step : BookStep state.book orderId (state.book.close order) := .close order stored valid
  refine ⟨step.sound grows.sound, (nextOrderId_step step).trans grows.counter, ?_⟩
  intro other record found
  by_cases same : other = orderId
  · subst same
    exact grows.known other order stored
  · rw [step.other_order grows.sound same] at found
    exact grows.known other record found

/-! ## Handlers -/

namespace TransactionExecutor

theorem placeOrder_book {height : Nat} {before : Book} (kept : BookKept order.id before state.book)
    (stored : state.book.orders.find? order.id = some order) :
    Ensures (fun placed => BookGrows order.id before placed.1.book)
      (placeOrder state order height) := by
  unfold placeOrder
  split
  · simpa using matchPassiveOrder_book kept
  · split
    · split
      next routed => simpa using executeActiveOrder_book kept.toBookGrows stored routed
      · simpa using kept.toBookGrows
      · simp
    · simpa using kept.toBookGrows

@[simp] theorem book_indexExpiry (order : Order) : (indexExpiry state order).book = state.book :=
  book_of_within (by simp)

end TransactionExecutor

/-! ## The invariant -/

/-- The id the next order gets. -/
def nextOrderIdOf (state : StateAccess) : Nat := state.book.nextOrderId.getD 1

/-- The book is sound, and the next id is free; it is zero once the counter has run out, and then
no order is accepted. -/
structure BookInvariant (state : StateAccess) : Prop where
  sound : state.book.Sound
  fresh : ∀ orderId order, state.book.orders.find? orderId = some order →
    nextOrderIdOf state ≠ 0 → orderId < nextOrderIdOf state
  small : nextOrderIdOf state < 2 ^ 64

theorem BookInvariant.of_book {before after : StateAccess} (invariant : BookInvariant before)
    (same : after.book = before.book) : BookInvariant after := by
  have next : nextOrderIdOf after = nextOrderIdOf before := by
    unfold nextOrderIdOf
    rw [same]
  constructor
  · rw [same]
    exact invariant.sound
  · rw [same, next]
    exact invariant.fresh
  · rw [next]
    exact invariant.small

/-- Steps without an order of their own. -/
theorem BookInvariant.of_grows {before after : StateAccess} (invariant : BookInvariant before)
    (grows : BookGrows INVALID_ID before.book after.book) : BookInvariant after := by
  have next : nextOrderIdOf after = nextOrderIdOf before := by
    unfold nextOrderIdOf
    rw [grows.counter]
  refine ⟨grows.sound, fun orderId order found some => ?_, next ▸ invariant.small⟩
  rw [next] at some ⊢
  rcases grows.known orderId order found with isNull | ⟨old, stored⟩
  · rw [isNull]
    exact Nat.pos_of_ne_zero some
  · exact invariant.fresh orderId old stored some

/-- The order a `CreateOrder` stores. -/
def newOrder (state : StateAccess) (tx : Transaction) (ctx : TxExecutionContext) (parsed : Order) :
    Order :=
  { parsed with
    id := (state.getGlobal .nextOrderId).getD 1
    owner := tx.sender
    createdAtHeight := ctx.currentHeight }

theorem BookInvariant.createOrder {ctx : TxExecutionContext} (invariant : BookInvariant state) :
    Ensures (fun done => BookInvariant done.1)
      (executeCreateOrder state tx ctx) := by
  simp only [executeCreateOrder, Ensures.do_iff, Ensures.guard_eq_some_iff,
    Ensures.pure_iff]
  intro parsed _ _ valid _ _ _ _ placed ran
  change BookInvariant ((indexExpiry placed.1
    (newOrder state tx ctx parsed)).putGlobal .nextOrderId
      ((newOrder state tx ctx parsed).id + 1))
  change (newOrder state tx ctx parsed).isValid = true at valid
  change placeOrder ((state.subBalance tx.sender tx.tokenId tx.amount).putOrder
    (newOrder state tx ctx parsed))
    (newOrder state tx ctx parsed) ctx.currentHeight = some placed at ran
  have isNext : (newOrder state tx ctx parsed).id = nextOrderIdOf state := rfl
  generalize newOrder state tx ctx parsed = order at valid ran isNext ⊢
  have some : nextOrderIdOf state ≠ 0 := isNext ▸ (Order.facts_of_isValid valid).1
  -- no record has the new id
  have missing : state.book.orders.find? order.id = none := by
    cases found : state.book.orders.find? order.id with
    | none => rfl
    | some old =>
      have less := invariant.fresh order.id old found some
      rw [isNext] at less
      exact absurd less (Nat.lt_irrefl _)
  have start : BookKept order.id state.book state.book :=
    ⟨.self invariant.sound, invariant.sound.unlisted_of_missing missing⟩
  have locked : ((state.subBalance tx.sender tx.tokenId tx.amount).putOrder order).book =
      state.book.store order := by
    rw [book_putOrder, book_subBalance]
  have grows := placeOrder_book (locked.symm ▸ start.store) (by
    rw [locked]
    unfold Book.store
    dsimp only
    rw [Table.find?_put, if_pos rfl]) placed ran
  have orders : ((indexExpiry placed.1 order).putGlobal .nextOrderId
      (order.id + 1)).book =
        { placed.1.book with nextOrderId := .some (u64 (order.id + 1)) } := by
    have indexed := @book_indexExpiry placed.1 order
    generalize indexExpiry placed.1 order = done at indexed ⊢
    rw [← indexed]
    unfold book
    rw [getGlobal_putGlobal, if_pos rfl]
    rfl
  have counter : nextOrderIdOf ((indexExpiry placed.1 order).putGlobal
      .nextOrderId (order.id + 1)) = u64 (order.id + 1) := by
    unfold nextOrderIdOf
    rw [orders]
    rfl
  have small := invariant.small
  refine ⟨?_, ?_, ?_⟩
  · rw [orders]
    exact ⟨grows.sound.filed, fun key orderId listed => by
      obtain ⟨record, price, sameId, row⟩ := grows.sound.listed key orderId listed
      exact ⟨record, price, sameId, row.stored, row.passive, row.priced, row.sequenced⟩⟩
  · rw [counter, orders]
    intro orderId record found positive
    have isSum : u64 (order.id + 1) = order.id + 1 := by
      unfold u64 at positive ⊢
      omega
    rw [isSum]
    rcases grows.known orderId record found with isOwn | ⟨old, stored⟩
    · omega
    · have less := invariant.fresh orderId old stored some
      omega
  · rw [counter]
    exact Nat.mod_lt _ (by decide)

theorem BookInvariant.cancelOrder (invariant : BookInvariant state) :
    Ensures BookInvariant (executeCancelOrder state tx) := by
  simp only [executeCancelOrder, Ensures.do_iff, Ensures.guard_eq_some_iff,
    Ensures.pure_iff]
  intro _ _ order found _ own
  rw [← own]
  exact invariant.of_grows (closeOrder_book (.self invariant.sound) found)

/-! ## Chains -/

theorem genesis_bookInvariant (config : GenesisConfig) : BookInvariant (applyGenesis config) := by
  have small : nextOrderIdOf (applyGenesis config) < 2 ^ 64 := by
    refine @applyGenesis_induction (fun state => nextOrderIdOf state < 2 ^ 64) config
      (by decide) ?_ (fun _ kept => kept) ?_ (fun _ _ kept => kept) (fun _ _ kept => kept)
    · intro state name value kept
      unfold nextOrderIdOf book
      rw [getGlobal_putGlobal]
      split
      · exact Nat.mod_lt _ (by decide)
      · exact kept
    · intro state entry kept
      have within := putAccount_within state entry.address (genesisAccount entry)
      have same := within.same .book (by decide)
      unfold nextOrderIdOf at kept ⊢
      rw [same]
      exact kept
  have orders : (applyGenesis config).book.orders = .empty := (genesis_unused config).orders
  have rows : (applyGenesis config).book.rows = .empty := (genesis_unused config).levels
  refine ⟨⟨fun orderId order found => ?_, fun key orderId found => ?_⟩,
    fun orderId order found => ?_, small⟩
  · rw [orders] at found
    cases found
  · rw [rows] at found
    cases found
  · rw [orders] at found
    cases found

/-- The states chains pass through: between blocks, and before each event of a block. -/
inductive Reached (env : ChainEnv) (config : GenesisConfig) : StateAccess → Prop
  | between (blocks : List Block) (state : StateAccess) (chain : Chain env config blocks state) :
      Reached env config state
  | within (blocks : List Block) (final : StateAccess) (chain : Chain env config blocks final)
      (event : Event) (member : event ∈ chainEvents env config blocks) :
      Reached env config event.before

theorem chain_bookInvariant {env : ChainEnv} {config : GenesisConfig} {blocks : List Block}
    (chain : Chain env config blocks state) :
    BookInvariant state ∧ ∀ event ∈ chainEvents env config blocks, BookInvariant event.before := by
  refine @Chain.keeps env config blocks state (fun _ => True) BookInvariant chain
    (fun _ _ => trivial) ?_ ?_ ?_ (genesis_bookInvariant config)
  · exact fun _ _ within invariant => invariant.of_book (within.same .book (by decide))
  · intro _ _ tx _ _ done _ _ _ ran invariant
    unfold dispatch at ran
    by_cases creates : tx.txType = .createOrder
    · rw [creates] at ran
      exact invariant.createOrder done ran
    · by_cases cancels : tx.txType = .cancelOrder
      · rw [cancels] at ran
        obtain ⟨closed, isClosed, rfl⟩ := Option.map_eq_some_iff.mp ran
        exact invariant.cancelOrder closed isClosed
      · have within := dispatch_within done ran
        refine invariant.of_book (within.same .book ?_)
        cases kind : tx.txType <;> first | contradiction | simp [handlerParts]
  · intro current block committedSet activeSet kind change state isPass isOrders _ invariant
    refine orderPasses_keep isPass isOrders (fun _ kept => kept.of_book rfl) ?_ ?_ invariant
    · exact fun _ _ _ _ found kept => kept.of_grows (closeOrder_book (.self kept.sound) found)
    · intro state orderId order after fill found filled kept
      have stored := (getOrder_stored found).1
      have isId := kept.sound.filed orderId order stored
      exact kept.of_grows
        (executeActiveOrder_book (.self kept.sound) (isId.symm ▸ stored) filled)

theorem Reached.bookInvariant {env : ChainEnv} {config : GenesisConfig}
    (reached : Reached env config state) : BookInvariant state := by
  cases reached with
  | between blocks state chain => exact (chain_bookInvariant chain).1
  | within blocks final chain event member => exact (chain_bookInvariant chain).2 event member

end Clarity.Core
