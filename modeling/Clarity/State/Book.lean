import Clarity.State.Frame

/-!
Contract: the order book as a part of the chain state.

Owns: what the writes of orders do to the book; and `Book.Sound`, that every row belongs to the
record it names.

A row is stored under a key made from the order's tokens, side and price. The removal of a row
computes that key again from the record, so a row that no longer fits its record could never be
removed. `Sound` says that there is none.
-/

namespace Clarity.State

open Common Crypto Clarity.Core Library

namespace Book

variable {book : Book} {order : Order} {orderId : Nat} {key : BookKey}

def store (book : Book) (order : Order) : Book :=
  { book with orders := book.orders.put order.id order }

def delete (book : Book) (orderId : Nat) : Book :=
  { book with orders := book.orders.erase orderId }

def list (book : Book) (order : Order) (sequence : Nat) : Book :=
  if order.id = INVALID_ID ∨ order.isFullyFilled = true then book
  else match OrderBook.canonicalPrice order with
  | none => book
  | some price =>
    { book with
      rows := book.rows.put (StateAccess.bookKey order price sequence) order.id
      sequences := book.sequences.put order.id sequence }

def unlist (book : Book) (order : Order) : Book :=
  if order.id = INVALID_ID then book
  else match book.sequences.find? order.id with
  | none => book
  | some sequence =>
    match OrderBook.canonicalPrice order with
    | none => book
    | some price =>
      { book with
        rows := book.rows.erase (StateAccess.bookKey order price sequence)
        sequences := book.sequences.erase order.id }

/-- An order leaves the book and its record goes. -/
def close (book : Book) (order : Order) : Book := (book.unlist order).delete order.id

@[simp] theorem orders_unlist (order : Order) : (book.unlist order).orders = book.orders := by
  unfold unlist
  split
  · rfl
  · split
    · rfl
    · split <;> rfl

@[simp] theorem orders_list (order : Order) (sequence : Nat) :
    (book.list order sequence).orders = book.orders := by
  unfold list
  split
  · rfl
  · split <;> rfl

theorem orders_close (book : Book) (order : Order) (orderId : Nat) :
    (book.close order).orders.find? orderId =
      if orderId = order.id then none else book.orders.find? orderId := by
  unfold close delete
  dsimp only
  rw [orders_unlist, Table.find?_erase]

theorem orders_store (book : Book) (order : Order) (orderId : Nat) :
    (book.store order).orders.find? orderId =
      if orderId = order.id then some order else book.orders.find? orderId := by
  unfold store
  dsimp only
  rw [Table.find?_put]

@[simp] theorem nextOrderId_unlist (order : Order) :
    (book.unlist order).nextOrderId = book.nextOrderId := by
  unfold unlist
  split
  · rfl
  · split
    · rfl
    · split <;> rfl

@[simp] theorem nextOrderId_list (order : Order) (sequence : Nat) :
    (book.list order sequence).nextOrderId = book.nextOrderId := by
  unfold list
  split
  · rfl
  · split <;> rfl

/-- The removal of an order removes rows only. -/
theorem rows_unlist (kept : (book.unlist order).rows.find? key = some orderId) :
    book.rows.find? key = some orderId := by
  unfold unlist at kept
  split at kept
  · exact kept
  · split at kept
    · exact kept
    · split at kept
      · exact kept
      · dsimp only at kept
        rw [Table.find?_erase] at kept
        split at kept
        · cases kept
        · exact kept

theorem rows_unlist_of_ne {own : BookKey}
    (isOwn : ∀ sequence price, book.sequences.find? order.id = some sequence →
      OrderBook.canonicalPrice order = some price →
      StateAccess.bookKey order price sequence = own) (other : key ≠ own)
    (listed : book.rows.find? key = some orderId) :
    (book.unlist order).rows.find? key = some orderId := by
  unfold unlist
  split
  · exact listed
  · split
    · exact listed
    next sequence found =>
      split
      · exact listed
      next price priced =>
        dsimp only
        rw [Table.find?_erase, isOwn sequence price found priced, if_neg other]
        exact listed

theorem sequences_unlist (other : orderId ≠ order.id) :
    (book.unlist order).sequences.find? orderId = book.sequences.find? orderId := by
  unfold unlist
  split
  · rfl
  · split
    · rfl
    · split
      · rfl
      · dsimp only
        rw [Table.find?_erase, if_neg other]

/-! ## Soundness -/

/-- The order a row stands for, at the price it stands for. -/
structure Row (book : Book) (key : BookKey) (order : Order) (price : Nat) : Prop where
  stored : book.orders.find? order.id = some order
  passive : order.mode = .passive
  priced : OrderBook.canonicalPrice order = some price
  sequenced : ∃ sequence, book.sequences.find? order.id = some sequence ∧
    key = StateAccess.bookKey order price sequence ∧ sequence < 2 ^ 64

/-- Every record is stored under its id, and every row belongs to a record. -/
structure Sound (book : Book) : Prop where
  filed : ∀ orderId order, book.orders.find? orderId = some order → order.id = orderId
  listed : ∀ key orderId, book.rows.find? key = some orderId →
    ∃ order price, order.id = orderId ∧ book.Row key order price

def Unlisted (book : Book) (orderId : Nat) : Prop := ∀ key, book.rows.find? key ≠ some orderId

/-- Two records of one order, which stand for the same row. -/
structure SameRow (before after : Order) : Prop where
  id : after.id = before.id
  owner : after.owner = before.owner
  mode : after.mode = before.mode
  sellToken : after.sellToken = before.sellToken
  buyToken : after.buyToken = before.buyToken
  sellAmount : after.sellAmount = before.sellAmount
  minBuyAmount : after.minBuyAmount = before.minBuyAmount

theorem SameRow.refl (order : Order) : SameRow order order := ⟨rfl, rfl, rfl, rfl, rfl, rfl, rfl⟩

theorem SameRow.trans {first second third : Order} (left : SameRow first second)
    (right : SameRow second third) : SameRow first third :=
  ⟨right.id.trans left.id, right.owner.trans left.owner, right.mode.trans left.mode,
    right.sellToken.trans left.sellToken, right.buyToken.trans left.buyToken,
    right.sellAmount.trans left.sellAmount, right.minBuyAmount.trans left.minBuyAmount⟩

theorem SameRow.canonicalPrice {before after : Order} (same : SameRow before after) :
    OrderBook.canonicalPrice after = OrderBook.canonicalPrice before := by
  unfold OrderBook.canonicalPrice
  rw [same.sellAmount, same.minBuyAmount, same.sellToken, same.buyToken]

theorem SameRow.bookKey {before after : Order} (same : SameRow before after) (price sequence : Nat) :
    StateAccess.bookKey after price sequence = StateAccess.bookKey before price sequence := by
  unfold StateAccess.bookKey OrderBook.sideOf
  rw [same.sellToken, same.buyToken]

section

variable (sound : book.Sound)

include sound

/-- An order has no row but the one its record and its sequence number give. -/
theorem Sound.row_eq (stored : book.orders.find? order.id = some order)
    (listed : book.rows.find? key = some order.id) : ∃ price, book.Row key order price := by
  obtain ⟨other, price, sameId, row⟩ := sound.listed key order.id listed
  have isOther := row.stored
  rw [sameId, stored] at isOther
  cases isOther
  exact ⟨price, row⟩

theorem Sound.unlisted_of_active
    (stored : book.orders.find? order.id = some order) (active : order.mode = .active) :
    book.Unlisted order.id := by
  intro key listed
  obtain ⟨_, row⟩ := sound.row_eq stored listed
  rw [row.passive] at active
  cases active

theorem Sound.unlisted_of_missing
    (missing : book.orders.find? orderId = none) : book.Unlisted orderId := by
  intro key listed
  obtain ⟨order, price, sameId, row⟩ := sound.listed key orderId listed
  have stored := row.stored
  rw [sameId, missing] at stored
  cases stored

/-- A record is replaced by one that stands for the same row. -/
theorem Sound.store_same {old : Order}
    (stored : book.orders.find? order.id = some old) (same : SameRow old order) :
    (book.store order).Sound := by
  refine ⟨Table.forall_put sound.filed rfl, ?_⟩
  · intro key orderId listed
    obtain ⟨found, price, sameId, row⟩ := sound.listed key orderId listed
    obtain ⟨sequence, isSequence, isKey, small⟩ := row.sequenced
    by_cases isId : orderId = order.id
    · have isOld := row.stored
      rw [sameId, isId, stored] at isOld
      cases isOld
      refine ⟨order, price, isId.symm, ?_, ?_, ?_, sequence, ?_, ?_, small⟩
      · unfold store
        dsimp only
        rw [Table.find?_put, if_pos rfl]
      · rw [same.mode]
        exact row.passive
      · rw [same.canonicalPrice]
        exact row.priced
      · rw [same.id]
        exact isSequence
      · rw [same.bookKey]
        exact isKey
    · refine ⟨found, price, sameId, ?_, row.passive, row.priced, row.sequenced⟩
      unfold store
      dsimp only
      rw [Table.find?_put, if_neg (by rw [sameId]; exact isId)]
      exact row.stored

/-- The records of other orders than those with rows may change. -/
theorem Sound.of_orders {changed : Book}
    (filed : ∀ orderId order, changed.orders.find? orderId = some order → order.id = orderId)
    (rows : ∀ key orderId, changed.rows.find? key = some orderId →
      book.rows.find? key = some orderId ∧
        changed.orders.find? orderId = book.orders.find? orderId ∧
        changed.sequences.find? orderId = book.sequences.find? orderId) :
    changed.Sound := by
  refine ⟨filed, fun key orderId listed => ?_⟩
  obtain ⟨before, sameOrder, sameSequence⟩ := rows key orderId listed
  obtain ⟨order, price, sameId, row⟩ := sound.listed key orderId before
  obtain ⟨sequence, isSequence, isKey, small⟩ := row.sequenced
  refine ⟨order, price, sameId, ?_, row.passive, row.priced, sequence, ?_, isKey, small⟩
  · rw [sameId, sameOrder, ← sameId]
    exact row.stored
  · rw [sameId, sameSequence, ← sameId]
    exact isSequence

theorem Sound.store_unlisted (unlisted : book.Unlisted order.id) : (book.store order).Sound := by
  refine sound.of_orders (Table.forall_put sound.filed rfl) fun key orderId listed =>
    ⟨listed, ?_, rfl⟩
  have other : orderId ≠ order.id := by
    intro isId
    rw [isId] at listed
    exact unlisted key listed
  unfold store
  dsimp only
  rw [Table.find?_put, if_neg other]

theorem Sound.delete_unlisted {removed : Nat} (unlisted : book.Unlisted removed) :
    (book.delete removed).Sound := by
  refine sound.of_orders (Table.forall_erase sound.filed) fun key orderId listed => ⟨listed, ?_, rfl⟩
  have other : orderId ≠ removed := by
    intro isId
    rw [isId] at listed
    exact unlisted key listed
  unfold delete
  dsimp only
  rw [Table.find?_erase, if_neg other]

theorem Sound.unlisted_unlist
    (stored : book.orders.find? order.id = some order) (valid : order.id ≠ INVALID_ID) :
    (book.unlist order).Unlisted order.id := by
  intro key listed
  obtain ⟨price, row⟩ := sound.row_eq stored (rows_unlist listed)
  obtain ⟨sequence, isSequence, isKey, _⟩ := row.sequenced
  unfold unlist at listed
  rw [if_neg valid, isSequence] at listed
  dsimp only at listed
  rw [row.priced] at listed
  dsimp only at listed
  rw [Table.find?_erase, if_pos isKey] at listed
  cases listed

theorem Sound.close (stored : book.orders.find? order.id = some order)
    (valid : order.id ≠ INVALID_ID) : (book.close order).Sound := by
  have gone := sound.unlisted_unlist stored valid
  refine sound.of_orders ?_ fun key orderId listed => ?_
  · unfold Book.close delete
    rw [orders_unlist]
    exact Table.forall_erase sound.filed
  · change (book.unlist order).rows.find? key = some orderId at listed
    have other : orderId ≠ order.id := by
      intro isId
      rw [isId] at listed
      exact gone key listed
    refine ⟨rows_unlist listed, ?_, ?_⟩
    · unfold Book.close delete
      dsimp only
      rw [orders_unlist, Table.find?_erase, if_neg other]
    · exact sequences_unlist other

theorem Sound.list (stored : book.orders.find? order.id = some order)
    (passive : order.mode = .passive) (unlisted : book.Unlisted order.id) {sequence : Nat}
    (small : sequence < 2 ^ 64) : (book.list order sequence).Sound := by
  unfold Book.list
  split
  · exact sound
  · split
    · exact sound
    next price priced =>
      refine ⟨sound.filed, fun key orderId listed => ?_⟩
      dsimp only at listed
      rw [Table.find?_put] at listed
      split at listed
      next isKey =>
        cases listed
        refine ⟨order, price, rfl, stored, passive, priced, sequence, ?_, isKey, small⟩
        dsimp only
        rw [Table.find?_put, if_pos rfl]
      · obtain ⟨other, otherPrice, sameId, row⟩ := sound.listed key orderId listed
        obtain ⟨otherSequence, isSequence, isKey⟩ := row.sequenced
        refine ⟨other, otherPrice, sameId, row.stored, row.passive, row.priced, otherSequence, ?_,
          isKey⟩
        have notOrder : other.id ≠ order.id := by
          intro isId
          rw [← sameId, isId] at listed
          exact unlisted key listed
        dsimp only
        rw [Table.find?_put, if_neg notOrder]
        exact isSequence

end

end Book

/-! ## The book of a state -/

namespace StateAccess

variable {state : StateAccess}

theorem getOrder_stored {orderId : Nat} {order : Order} (found : state.getOrder orderId = some order) :
    state.book.orders.find? orderId = some order ∧ order.isValid = true :=
  Option.filter_eq_some_iff.mp found

/-! ### Writes to the book -/

@[simp] theorem book_putOrder (order : Order) : (state.putOrder order).book = state.book.store order :=
  rfl

@[simp] theorem book_deleteOrder (orderId : Nat) :
    (state.deleteOrder orderId).book = state.book.delete orderId := rfl

@[simp] theorem book_addToOrderBook (order : Order) (sequence : Nat) :
    (state.addToOrderBook order sequence).book = state.book.list order sequence := by
  unfold addToOrderBook Book.list
  split
  · rfl
  · cases OrderBook.canonicalPrice order <;> rfl

@[simp] theorem book_removeFromOrderBook (order : Order) :
    (state.removeFromOrderBook order).book = state.book.unlist order := by
  have sequences : state.book.sequences = state.tree.orderSequences := rfl
  unfold removeFromOrderBook Book.unlist
  rw [sequences]
  split
  · rfl
  · cases state.tree.orderSequences.find? order.id with
    | none => rfl
    | some sequence => cases OrderBook.canonicalPrice order <;> rfl

/-! ### Writes outside the book -/

theorem book_of_within {other : StateAccess}
    (within : Within [.accounts, .balances, .pools] state other) : other.book = state.book :=
  within.same .book (by decide)

@[simp] theorem book_addBalance (address : Address) (tokenId amount : Nat) :
    (state.addBalance address tokenId amount).book = state.book :=
  book_of_within (by simp)

@[simp] theorem book_subBalance (address : Address) (tokenId amount : Nat) :
    (state.subBalance address tokenId amount).book = state.book :=
  book_of_within (by simp)

@[simp] theorem book_putAmmPool (pool : AmmPool) : (state.putAmmPool pool).book = state.book := rfl

@[simp] theorem book_nextOrderSequence : state.nextOrderSequence.2.book = state.book :=
  book_of_within (by simp)

@[simp] theorem book_dropExpiry (order : Order) : (state.dropExpiry order).book = state.book :=
  book_of_within (by simp)

/-! ### Orders that leave -/

theorem book_deleteRestingOrder {order : Order} (valid : order.id ≠ INVALID_ID) :
    (state.deleteRestingOrder order).book = state.book.close order := by
  unfold deleteRestingOrder
  rw [if_neg valid, book_deleteOrder, book_dropExpiry, book_removeFromOrderBook]
  rfl

theorem book_refundOrder (order : Order) (chargeFee : Bool) :
    (state.refundOrder order chargeFee).book = state.book ∨
      (state.refundOrder order chargeFee).book = state.book.close order := by
  unfold refundOrder
  dsimp only
  split
  · exact Or.inl rfl
  · split
    · exact Or.inl rfl
    · right
      rw [book_deleteOrder, book_removeFromOrderBook, book_dropExpiry, book_addBalance]
      rfl

end StateAccess

end Clarity.State
