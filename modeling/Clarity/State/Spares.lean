import Clarity.State.Frame

/-!
Contract: states that differ from another one outside a given token.

Owns: `Unlisted`, that no pool and no order names a token; `Spares`, that moreover every balance
and the supply of the token are those of another state; and for every write of the state access
when it keeps `Spares`.
-/

namespace Clarity.State

open Common Crypto Clarity.Core Library

variable {order : Order} {tokenId : Nat}

/-- No pool and no order names the token. -/
structure Unlisted (token : Nat) (state : StateAccess) : Prop where
  pools : ∀ id pool, state.tree.ammPools.find? id = some pool →
    u32 pool.tokenA ≠ token ∧ u32 pool.tokenB ≠ token
  orders : ∀ id order, state.tree.orders.find? id = some order →
    u32 order.sellToken ≠ token ∧ u32 order.buyToken ≠ token

/-- The balances and the supply of a token are those of `before`, and nothing names it. -/
structure Spares (token : Nat) (before state : StateAccess) : Prop extends Unlisted token state where
  rows : ∀ address, state.tree.tokenBalances.find? (address, token) =
    before.tree.tokenBalances.find? (address, token)
  supply : state.tree.tokenSupplies.find? token = before.tree.tokenSupplies.find? token

open StateAccess

variable {token : Nat} {before state : StateAccess}

theorem Unlisted.getAmmPool (unlisted : Unlisted token state) {id : Nat} {pool : AmmPool}
    (found : state.getAmmPool id = some pool) : u32 pool.tokenA ≠ token ∧ u32 pool.tokenB ≠ token :=
  unlisted.pools id pool (Option.filter_eq_some_iff.mp found).1

theorem Unlisted.getOrder (unlisted : Unlisted token state) {id : Nat}
    (found : state.getOrder id = some order) :
    u32 order.sellToken ≠ token ∧ u32 order.buyToken ≠ token :=
  unlisted.orders id order (Option.filter_eq_some_iff.mp found).1

theorem spares_self (unlisted : Unlisted token state) : Spares token state state :=
  ⟨unlisted, fun _ => rfl, rfl⟩

/-- Only the tables of balances, pools, orders and supplies count. -/
theorem spares_of_tables {other : StateAccess}
    (rows : other.tree.tokenBalances = state.tree.tokenBalances)
    (pools : other.tree.ammPools = state.tree.ammPools)
    (orders : other.tree.orders = state.tree.orders)
    (supplies : other.tree.tokenSupplies = state.tree.tokenSupplies) :
    Spares token before other ↔ Spares token before state := by
  constructor
  · rintro ⟨⟨listedPools, listedOrders⟩, sameRows, sameSupply⟩
    rw [pools] at listedPools
    rw [orders] at listedOrders
    rw [rows] at sameRows
    rw [supplies] at sameSupply
    exact ⟨⟨listedPools, listedOrders⟩, sameRows, sameSupply⟩
  · rintro ⟨⟨listedPools, listedOrders⟩, sameRows, sameSupply⟩
    rw [← pools] at listedPools
    rw [← orders] at listedOrders
    rw [← rows] at sameRows
    rw [← supplies] at sameSupply
    exact ⟨⟨listedPools, listedOrders⟩, sameRows, sameSupply⟩

/-- The parts of the state that no balance, supply, pool or order lies in. -/
abbrev sparedParts : List Part :=
  [.version, .nonces, .accounts, .nfts, .collections, .positions, .registry, .counters, .supply]

theorem spares_congr {other : StateAccess} (within : Within sparedParts state other) :
    Spares token before other ↔ Spares token before state :=
  spares_of_tables (within.same .balances (by decide)) (within.same .pools (by decide))
    (congrArg Book.orders (within.same .book (by decide)))
    (congrArg Coinage.supplies (within.same .tokens (by decide)))

/-! ## Writes outside the tables -/

@[simp] theorem spares_putGlobal {name : GlobalName} {value : Nat} :
    Spares token before (state.putGlobal name value) ↔ Spares token before state :=
  spares_of_tables rfl rfl rfl rfl

@[simp] theorem spares_putAccount {address : Address} {account : Account} :
    Spares token before (state.putAccount address account) ↔ Spares token before state :=
  spares_congr ((putAccount_within state address account).mono (by decide))

@[simp] theorem spares_putToken {info : TokenInfo} :
    Spares token before (state.putToken info) ↔ Spares token before state :=
  spares_of_tables rfl rfl rfl rfl

@[simp] theorem spares_putNft {nft : NftInfo} :
    Spares token before (state.putNft nft) ↔ Spares token before state :=
  spares_congr (by simp)

@[simp] theorem spares_unindexNft {nft : NftInfo} :
    Spares token before (state.unindexNft nft) ↔ Spares token before state :=
  spares_congr (by simp)

@[simp] theorem spares_putNftCollection {collection : NftCollection} :
    Spares token before (state.putNftCollection collection) ↔ Spares token before state :=
  spares_congr (by simp)

@[simp] theorem spares_addToOrderBook {sequence : Nat} :
    Spares token before (state.addToOrderBook order sequence) ↔ Spares token before state := by
  unfold addToOrderBook
  split
  · rfl
  · split <;> exact spares_of_tables rfl rfl rfl rfl

@[simp] theorem spares_removeFromOrderBook :
    Spares token before (state.removeFromOrderBook order) ↔ Spares token before state := by
  unfold removeFromOrderBook
  split
  · rfl
  · split
    · rfl
    · split <;> exact spares_of_tables rfl rfl rfl rfl

@[simp] theorem spares_dropExpiry :
    Spares token before (state.dropExpiry order) ↔ Spares token before state :=
  spares_congr (by simp)

/-! ## Balances and supplies of other tokens -/

section

variable (kept : Spares token before state)

include kept

theorem Spares.putTokenBalance (other : u32 tokenId ≠ token) (address : Address) (balance : Nat) :
    Spares token before (state.putTokenBalance address tokenId balance) := by
  refine ⟨⟨kept.pools, kept.orders⟩, ?_, kept.supply⟩
  intro holder
  have different : (holder, token) ≠ (address, u32 tokenId) := fun same =>
    other (congrArg Prod.snd same).symm
  rw [← kept.rows holder]
  unfold StateAccess.putTokenBalance
  dsimp only
  split
  · rw [Table.find?_erase, if_neg different]
  · rw [Table.find?_put, if_neg different]

theorem Spares.putTokenSupply (other : u32 tokenId ≠ token)
    (supply : Nat) : Spares token before (state.putTokenSupply tokenId supply) := by
  refine ⟨⟨kept.pools, kept.orders⟩, kept.rows, ?_⟩
  rw [← kept.supply]
  unfold StateAccess.putTokenSupply
  dsimp only
  split
  · rw [Table.find?_erase, if_neg other.symm]
  · rw [Table.find?_put, if_neg other.symm]

theorem Spares.addBalance (other : u32 tokenId ≠ token) (address : Address) (amount : Nat) :
    Spares token before (state.addBalance address tokenId amount) := by
  unfold StateAccess.addBalance
  split
  · exact spares_putAccount.mpr kept
  · exact kept.putTokenBalance other address _

theorem Spares.subBalance (other : u32 tokenId ≠ token) (address : Address) (amount : Nat) :
    Spares token before (state.subBalance address tokenId amount) := by
  unfold StateAccess.subBalance
  split
  · exact spares_putAccount.mpr kept
  · exact kept.putTokenBalance other address _

/-! ## Pools and orders -/

theorem Spares.putAmmPool {pool : AmmPool}
    (other : u32 pool.tokenA ≠ token ∧ u32 pool.tokenB ≠ token) :
    Spares token before (state.putAmmPool pool) :=
  ⟨⟨Table.forall_put kept.pools other, kept.orders⟩, kept.rows, kept.supply⟩

theorem Spares.deleteAmmPool (poolId : Nat) : Spares token before (state.deleteAmmPool poolId) :=
  ⟨⟨Table.forall_erase kept.pools, kept.orders⟩, kept.rows, kept.supply⟩

theorem Spares.putOrder (other : u32 order.sellToken ≠ token ∧ u32 order.buyToken ≠ token) :
    Spares token before (state.putOrder order) :=
  ⟨⟨kept.pools, Table.forall_put kept.orders other⟩, kept.rows, kept.supply⟩

theorem Spares.deleteOrder (orderId : Nat) : Spares token before (state.deleteOrder orderId) :=
  ⟨⟨kept.pools, Table.forall_erase kept.orders⟩, kept.rows, kept.supply⟩

theorem Spares.deleteRestingOrder (order : Order) :
    Spares token before (state.deleteRestingOrder order) := by
  unfold StateAccess.deleteRestingOrder
  split
  · exact kept
  · apply Spares.deleteOrder
    rw [spares_dropExpiry, spares_removeFromOrderBook]
    exact kept

theorem Spares.refundOrder (other : u32 order.sellToken ≠ token)
    (chargeFee : Bool) : Spares token before (state.refundOrder order chargeFee) := by
  unfold StateAccess.refundOrder
  split
  · exact kept
  · dsimp only
    split
    · exact kept
    · apply Spares.deleteOrder
      rw [spares_removeFromOrderBook, spares_dropExpiry]
      exact kept.addBalance other order.owner _

end

end Clarity.State
