import Clarity.Library.Table
import Clarity.Core.EquivocationProof
import Clarity.Core.LedgerTypes
import Clarity.Core.MarketTypes

/-!
Contract: the chain state behind `State/StateAccess.cpp`.

Owns:
- `Tree`, the key-value map under the state root, one table for each key family of
  `State/Keys.h`;
- the index tables the modelled code reads, and the meta counters, neither under the root;
- the reads and writes of `StateAccess`, under their own names.

Does not own: the sparse Merkle tree itself. Keys of different families or different
arguments are different keys. Index tables that only the RPC server reads are left out.
-/

namespace Clarity.State

open Common Crypto Clarity.Core Library

inductive GlobalName
  | chainId
  | totalSupply
  | totalStaked
  | pot
  | epochNumber
  | stakerCount
  | nextValidatorId
  | nextTokenId
  | nextOrderId
  | nextPoolId
  | nextPositionId
  | nextCollectionId
  | lastRotationHeight
  | apyActivityBps
  | apyPotBps
  | activeSetSize
  | orderNextSequence
deriving DecidableEq, Repr

inductive MetaName
  | txCounter
  | txCounterAtEpochStart
  | totalFeesLifetime
  | totalToPot
  | totalPotDistributed
  | lastEffectiveApyBps
deriving DecidableEq, Repr

/-- The key of an order book row: the pair in canonical order, the side, and the price in
the form the rows of this side are sorted by. -/
structure BookKey where
  baseToken : Nat
  quoteToken : Nat
  side : Nat
  keyPrice : Nat
  sequence : Nat
deriving DecidableEq, Repr

/-- What the sparse Merkle tree holds. -/
structure Tree where
  accounts : Table Address Account := .empty
  tokenBalances : Table (Address × Nat) Nat := .empty
  tokens : Table Nat TokenInfo := .empty
  tokenSupplies : Table Nat Nat := .empty
  validators : Table Nat ValidatorInfo := .empty
  validatorsByAddress : Table Address Nat := .empty
  keyHistories : Table Nat (List KeyRotation) := .empty
  nfts : Table Nat NftInfo := .empty
  nftCollections : Table Nat NftCollection := .empty
  orders : Table Nat Order := .empty
  orderSequences : Table Nat Nat := .empty
  orderExpiries : Table Nat (List Nat) := .empty
  ammPools : Table Nat AmmPool := .empty
  ammPositions : Table Nat AmmPosition := .empty
  ammPositionIndex : Table (Address × Nat) Nat := .empty
  globals : Table GlobalName Nat := .empty
  activeSet : List Nat := []
deriving DecidableEq

/-- The index tables: rows the tree does not hold. -/
structure Indexes where
  stakers : Table Address Unit := .empty
  orderRows : Table Nat Order := .empty
  orderBook : Table BookKey Nat := .empty
  nftsByOwner : Table (Address × Nat) Unit := .empty
deriving DecidableEq

/-- `StateAccess`: the state one block works on. `version` is the height it was opened at. -/
structure StateAccess where
  version : Nat := 0
  tree : Tree := {}
  index : Indexes := {}
  metaTable : Table MetaName Nat := .empty
deriving DecidableEq

/-- Keys are visited in the order of their bytes. -/
def keyRank (key : Bytes) : Nat := getUInt key.reverse

/-- The order in which rows are visited. -/
def inKeyOrder {α : Type} (key : α → Bytes) (rows : List α) : List α :=
  rows.insertionSort fun left right => keyRank (key left) ≤ keyRank (key right)

namespace StateAccess

variable (state : StateAccess)

/-! ## Globals and counters -/

def getGlobal (name : GlobalName) : Option Nat := state.tree.globals.find? name

def getGlobalU64 (name : GlobalName) : Nat := (state.getGlobal name).getD 0

def putGlobal (name : GlobalName) (value : Nat) : StateAccess :=
  { state with tree.globals := state.tree.globals.put name (u64 value) }

def getMetaU64 (name : MetaName) : Nat :=
  (state.metaTable.find? name).getD 0

def putMetaU64 (name : MetaName) (value : Nat) : StateAccess :=
  { state with metaTable := state.metaTable.put name (u64 value) }

/-- `loadActiveSet`: the global `active_set`, empty where it was never written. -/
def loadActiveSet : List Nat := state.tree.activeSet

def saveActiveSet (activeSet : List Nat) : StateAccess :=
  { state with tree.activeSet := activeSet.map u64 }

/-! ## Accounts -/

def getAccount (address : Address) : Account :=
  (state.tree.accounts.find? address).getD {}

/-- The record `putAccount` writes: the stake and the height it began are recomputed. -/
def stakedCopy (old account : Account) : Account :=
  let copy := account.recalculateStaked GlobalConfig.AUTO_STAKE_THRESHOLD
  { copy with
    stakerSinceHeight :=
      if copy.staked > 0 then (if old.staked > 0 then old.stakerSinceHeight else state.version)
      else 0 }

/-- `putAccount` on the global `total_staked`. -/
def adjustTotalStaked (before after : Nat) : StateAccess :=
  if after = before then state
  else
    let total := state.getGlobalU64 .totalStaked
    if after ≥ before then state.putGlobal .totalStaked (total + (after - before))
    else state.putGlobal .totalStaked (sub64 total (before - after))

/-- `putAccount` on the staker index and the global `staker_count`. -/
def adjustStakers (address : Address) (before after : Nat) : StateAccess :=
  if after > 0 ∧ before = 0 then
    ({ state with index.stakers := state.index.stakers.put address () }).putGlobal .stakerCount
      (state.getGlobalU64 .stakerCount + 1)
  else if after = 0 ∧ before > 0 then
    ({ state with index.stakers := state.index.stakers.erase address }).putGlobal .stakerCount
      (state.getGlobalU64 .stakerCount - 1)
  else state

def putAccount (address : Address) (account : Account) : StateAccess :=
  let old := state.getAccount address
  let copy := state.stakedCopy old account
  (({ state with tree.accounts := state.tree.accounts.put address copy }).adjustTotalStaked
    old.staked copy.staked).adjustStakers address old.staked copy.staked

def stakers : List Address := inKeyOrder bytes32 state.index.stakers.keys

/-! ## Tokens -/

/-- Token ids are cut to 32 bits in the keys. -/
def getTokenBalance (address : Address) (tokenId : Nat) : Nat :=
  (state.tree.tokenBalances.find? (address, u32 tokenId)).getD 0

def putTokenBalance (address : Address) (tokenId balance : Nat) : StateAccess :=
  { state with
    tree.tokenBalances :=
      if u64 balance = 0 then state.tree.tokenBalances.erase (address, u32 tokenId)
      else state.tree.tokenBalances.put (address, u32 tokenId) (u64 balance) }

def getToken (tokenId : Nat) : Option TokenInfo :=
  state.tree.tokens.find? (u32 tokenId)

def putToken (token : TokenInfo) : StateAccess :=
  { state with tree.tokens := state.tree.tokens.put (u32 token.id) { token with id := u32 token.id } }

def getTokenSupply (tokenId : Nat) : Nat :=
  (state.tree.tokenSupplies.find? (u32 tokenId)).getD 0

def putTokenSupply (tokenId supply : Nat) : StateAccess :=
  { state with
    tree.tokenSupplies :=
      if u64 supply = 0 then state.tree.tokenSupplies.erase (u32 tokenId)
      else state.tree.tokenSupplies.put (u32 tokenId) (u64 supply) }

/-- An owner's balance of a token, native or custom. -/
def balanceOf (address : Address) (tokenId : Nat) : Nat :=
  if tokenId = NATIVE_TOKEN_ID then (state.getAccount address).balance
  else state.getTokenBalance address tokenId

/-- The write of one native balance back into the account that was read. -/
def putBalance (address : Address) (balance : Nat) : StateAccess :=
  state.putAccount address { state.getAccount address with balance := balance }

/-- The pattern the handlers repeat for a payment out of a balance that was checked. -/
def subBalance (address : Address) (tokenId amount : Nat) : StateAccess :=
  if tokenId = NATIVE_TOKEN_ID then
    state.putBalance address (sub64 (state.getAccount address).balance amount)
  else state.putTokenBalance address tokenId (sub64 (state.getTokenBalance address tokenId) amount)

/-- The pattern the handlers repeat for a payment into a balance. -/
def addBalance (address : Address) (tokenId amount : Nat) : StateAccess :=
  if tokenId = NATIVE_TOKEN_ID then
    state.putBalance address (u64 ((state.getAccount address).balance + amount))
  else state.putTokenBalance address tokenId (u64 (state.getTokenBalance address tokenId + amount))

/-! ## Validators -/

def getValidator (validatorId : Nat) : Option ValidatorInfo :=
  state.tree.validators.find? validatorId

def putValidator (validator : ValidatorInfo) : StateAccess :=
  { state with tree.validators := state.tree.validators.put validator.id validator }

def deleteValidator (validatorId : Nat) : StateAccess :=
  { state with tree.validators := state.tree.validators.erase validatorId }

/-- `forEachValidator`; the rows are keyed by the eight bytes of the id. -/
def validators : List ValidatorInfo :=
  (inKeyOrder (fun row => putU64 row.1) state.tree.validators.entries).map Prod.snd

def getValidatorByAddress (address : Address) : Option Nat :=
  state.tree.validatorsByAddress.find? address

def putValidatorByAddress (address : Address) (validatorId : Nat) : StateAccess :=
  { state with tree.validatorsByAddress := state.tree.validatorsByAddress.put address validatorId }

def deleteValidatorByAddress (address : Address) : StateAccess :=
  { state with tree.validatorsByAddress := state.tree.validatorsByAddress.erase address }

def getValidatorKeyHistory (validatorId : Nat) : Option (List KeyRotation) :=
  (state.tree.keyHistories.find? validatorId).bind decodeKeyHistory

def putValidatorKeyHistory (validatorId : Nat) (history : List KeyRotation) : StateAccess :=
  { state with
    tree.keyHistories :=
      if history.isEmpty then state.tree.keyHistories.erase validatorId
      else state.tree.keyHistories.put validatorId history }

/-- The entry of a history that covers a height. -/
def coversHeight (height : Nat) (entry : KeyRotation) : Bool :=
  entry.validFromHeight ≤ height &&
    (entry.validUntilHeight == 0 || height < entry.validUntilHeight)

/-- The scan of a decoded history. The source returns the only entry of a history that was
never rotated before it scans; the scan finds the same entry. -/
def keyInHistory (history : List KeyRotation) (height : Nat) : Option PublicKey :=
  match history with
  | [only] =>
    if only.validUntilHeight = 0 ∧ height ≥ only.validFromHeight then some only.key
    else (history.find? (coversHeight height)).map KeyRotation.key
  | _ => (history.find? (coversHeight height)).map KeyRotation.key

/-- `validatorKeyAtHeight`. -/
def validatorKeyAtHeight (validatorId height : Nat) : Option PublicKey :=
  match state.getValidatorKeyHistory validatorId with
  | none => (state.getValidator validatorId).map ValidatorInfo.effectiveConsensusKey
  | some history => keyInHistory history height

/-- What the verifiers of signatures read. -/
def view : StateView where
  getValidator := state.getValidator
  validatorKeyAtHeight := state.validatorKeyAtHeight

/-! ## NFTs -/

def getNft (nftId : Nat) : Option NftInfo :=
  (state.tree.nfts.find? nftId).filter NftInfo.isValid

def putNft (nft : NftInfo) : StateAccess :=
  { state with
    tree.nfts := state.tree.nfts.put nft.id
      { nft with
        shadowTokenId := u32 nft.shadowTokenId
        underlyingTokenId := u32 nft.underlyingTokenId }
    index.nftsByOwner := state.index.nftsByOwner.put (nft.owner, nft.id) () }

def unindexNft (old : NftInfo) : StateAccess :=
  if isNull old.owner then state
  else { state with index.nftsByOwner := state.index.nftsByOwner.erase (old.owner, old.id) }

def deleteNft (nftId : Nat) : StateAccess :=
  let removed : StateAccess := { state with tree.nfts := state.tree.nfts.erase nftId }
  match state.getNft nftId with
  | none => removed
  | some nft => removed.unindexNft { nft with id := nftId }

/-- `forEachNftForOwner`: the ids the index has for the owner; each record is read when it
is visited. -/
def nftIdsForOwner (owner : Address) : List Nat :=
  inKeyOrder putU64 ((state.index.nftsByOwner.keys.filter fun key => key.1 == owner).map Prod.snd)

def getNftCollection (collectionId : Nat) : Option NftCollection :=
  (state.tree.nftCollections.find? collectionId).filter NftCollection.isValid

def putNftCollection (collection : NftCollection) : StateAccess :=
  { state with
    tree.nftCollections := state.tree.nftCollections.put collection.id
      { collection with rewardTokenId := u32 collection.rewardTokenId } }

def nftCollections : List NftCollection :=
  ((inKeyOrder (fun row => putU64 row.1) state.tree.nftCollections.entries).map Prod.snd).filter
    NftCollection.isValid

/-- `Keys::nftAddress`: the custody address of an NFT. -/
def nftAddress (crypto : Primitives) (nftId : Nat) : Address :=
  crypto.hashDomain (putText "nfa ".toList) (putU64 nftId)

/-- `Keys::nftCollectionAddress`: the escrow address of a collection. -/
def nftCollectionAddress (crypto : Primitives) (collectionId : Nat) : Address :=
  crypto.hashDomain (putText "nca ".toList) (putU64 collectionId)

/-! ## Orders -/

def getOrder (orderId : Nat) : Option Order :=
  (state.tree.orders.find? orderId).filter Order.isValid

/-- `putOrder`; the row of the order table is written from the record as it reads back. -/
def putOrder (order : Order) : StateAccess :=
  { state with
    tree.orders := state.tree.orders.put order.id order
    index.orderRows :=
      if order.isValid then state.index.orderRows.put order.id order else state.index.orderRows }

def deleteOrder (orderId : Nat) : StateAccess :=
  { state with
    tree.orders := state.tree.orders.erase orderId
    index.orderRows :=
      if (state.getOrder orderId).isSome then state.index.orderRows.erase orderId
      else state.index.orderRows }

def orders : List Order :=
  ((inKeyOrder (fun row => putU64 row.1) state.index.orderRows.entries).map Prod.snd).filter
    Order.isValid

/-- `encodeBookKey`: quote sellers are sorted by the complement of their price. -/
def bookKey (order : Order) (canonicalPrice sequence : Nat) : BookKey :=
  let side := OrderBook.sideOf order
  { baseToken := min order.sellToken order.buyToken
    quoteToken := max order.sellToken order.buyToken
    side := side
    keyPrice := if side = 0 then canonicalPrice else UINT64_MAX - canonicalPrice
    sequence := sequence }

def addToOrderBook (order : Order) (sequence : Nat) : StateAccess :=
  if order.id = INVALID_ID ∨ order.isFullyFilled = true then state
  else match OrderBook.canonicalPrice order with
  | none => state
  | some price =>
    { state with
      index.orderBook := state.index.orderBook.put (bookKey order price sequence) order.id
      tree.orderSequences := state.tree.orderSequences.put order.id sequence }

def removeFromOrderBook (order : Order) : StateAccess :=
  if order.id = INVALID_ID then state
  else match state.tree.orderSequences.find? order.id with
  | none => state
  | some sequence =>
    match OrderBook.canonicalPrice order with
    | none => state
    | some price =>
      { state with
        index.orderBook := state.index.orderBook.erase (bookKey order price sequence)
        tree.orderSequences := state.tree.orderSequences.erase order.id }

/-- `forEachBookLevel` on one side of a pair: order ids with their prices, best price first,
then by sequence. -/
def bookLevels (tokenA tokenB side : Nat) : List (Nat × Nat) :=
  let rows := state.index.orderBook.entries.filter fun row =>
    row.1.baseToken == min tokenA tokenB && row.1.quoteToken == max tokenA tokenB &&
      row.1.side == side
  let sorted := rows.insertionSort fun left right =>
    left.1.keyPrice * 2 ^ 64 + left.1.sequence ≤ right.1.keyPrice * 2 ^ 64 + right.1.sequence
  sorted.map fun row =>
    (row.2, if side = 0 then row.1.keyPrice else UINT64_MAX - row.1.keyPrice)

def nextOrderSequence : Nat × StateAccess :=
  let next := u64 (state.getGlobalU64 .orderNextSequence + 1)
  (next, state.putGlobal .orderNextSequence next)

def getOrdersExpiringAt (height : Nat) : List Nat :=
  (state.tree.orderExpiries.find? height).getD []

def addOrderExpiry (height orderId : Nat) : StateAccess :=
  let ids := state.getOrdersExpiringAt height
  if orderId ∈ ids then state
  else { state with tree.orderExpiries := state.tree.orderExpiries.put height (ids ++ [orderId]) }

def removeOrderExpiry (height orderId : Nat) : StateAccess :=
  let ids := state.getOrdersExpiringAt height
  if orderId ∉ ids then state
  else
    let left := ids.erase orderId
    { state with
      tree.orderExpiries :=
        if left.isEmpty then state.tree.orderExpiries.erase height
        else state.tree.orderExpiries.put height left }

def clearOrderExpiry (height : Nat) : StateAccess :=
  { state with tree.orderExpiries := state.tree.orderExpiries.erase height }

/-- The removal of an order from the expiry list it asked for. -/
def dropExpiry (order : Order) : StateAccess :=
  if order.orderExpiresAtHeight ≠ 0 then
    state.removeOrderExpiry order.orderExpiresAtHeight order.id
  else state

def deleteRestingOrder (order : Order) : StateAccess :=
  if order.id = INVALID_ID then state
  else ((state.removeFromOrderBook order).dropExpiry order).deleteOrder order.id

def refundOrder (order : Order) (chargeFee : Bool) : StateAccess :=
  if order.id = INVALID_ID ∨ isNull order.owner = true then state
  else
    let remaining := order.remainingAmount
    if remaining = 0 then state
    else
      let refund := if chargeFee then remaining - ORDER_CANCEL_FEE_ATOMIC else remaining
      (((state.addBalance order.owner order.sellToken refund).dropExpiry order).removeFromOrderBook
        order).deleteOrder order.id

/-! ## Pools and positions -/

def getAmmPool (poolId : Nat) : Option AmmPool :=
  (state.tree.ammPools.find? poolId).filter AmmPool.isValid

def putAmmPool (pool : AmmPool) : StateAccess :=
  { state with tree.ammPools := state.tree.ammPools.put pool.id pool }

def deleteAmmPool (poolId : Nat) : StateAccess :=
  { state with tree.ammPools := state.tree.ammPools.erase poolId }

def getAmmPosition (positionId : Nat) : Option AmmPosition :=
  (state.tree.ammPositions.find? positionId).filter AmmPosition.isValid

def putAmmPosition (position : AmmPosition) : StateAccess :=
  { state with tree.ammPositions := state.tree.ammPositions.put position.id position }

def getPositionIndex (owner : Address) (poolId : Nat) : Option Nat :=
  state.tree.ammPositionIndex.find? (owner, poolId)

def putPositionIndex (owner : Address) (poolId positionId : Nat) : StateAccess :=
  { state with
    tree.ammPositionIndex := state.tree.ammPositionIndex.put (owner, poolId) positionId }

def deletePositionIndex (owner : Address) (poolId : Nat) : StateAccess :=
  { state with tree.ammPositionIndex := state.tree.ammPositionIndex.erase (owner, poolId) }

end StateAccess

end Clarity.State
