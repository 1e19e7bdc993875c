import Clarity.Core.Spares

/-!
Contract: the owner of an NFT and the holder of its shadow token.

Owns: `ShadowWithOwner`, that the one unit of the shadow token of an NFT lies with the recorded
owner; the invariant that carries it over transactions and passes; and that a chain keeps it for
all NFTs as long as no transaction but the NFT's own moves its shadow token (`LeavesShadows`).
-/

namespace Clarity.Core

open Common Crypto Library State State.StateAccess
open Clarity.Core.TransactionExecutor Clarity.Core.BlockProcessor Relation

variable {before state after : StateAccess} {tx : Transaction} {id : Nat} {owner : Address}
  {nfts : Table Nat NftInfo} {nft : NftInfo}

/-! ## Ownership -/

def poolHolding (token : Nat) (pool : AmmPool) : Nat :=
  (if u32 pool.tokenA = token then pool.reserveA else 0) +
    if u32 pool.tokenB = token then pool.reserveB else 0

/-- The unfilled remainder of an order. -/
def orderHolding (token : Nat) (order : Order) : Nat :=
  if u32 order.sellToken = token then order.remainingAmount else 0

/-- The one unit of the shadow token of an NFT lies with its owner: no other address, no pool and
no order holds any. -/
structure ShadowWithOwner (state : StateAccess) (nft : NftInfo) : Prop where
  owner : state.getTokenBalance nft.owner nft.shadowTokenId = 1
  others : ∀ address, address ≠ nft.owner → state.getTokenBalance address nft.shadowTokenId = 0
  pools : ∀ poolId pool, state.tree.ammPools.find? poolId = some pool →
    poolHolding (u32 nft.shadowTokenId) pool = 0
  orders : ∀ orderId order, state.tree.orders.find? orderId = some order →
    orderHolding (u32 nft.shadowTokenId) order = 0
  supply : state.getTokenSupply nft.shadowTokenId = 1

def OwnershipAgrees (state : StateAccess) : Prop :=
  ∀ id nft, state.getNft id = some nft → ShadowWithOwner state nft

/-! ## Balances of a spared token -/

theorem Spares.getTokenBalance (kept : Spares (u32 id) before state) (address : Address) :
    state.getTokenBalance address id = before.getTokenBalance address id := by
  unfold StateAccess.getTokenBalance
  rw [kept.rows]

theorem Spares.getTokenSupply (kept : Spares (u32 id) before state) :
    state.getTokenSupply id = before.getTokenSupply id := by
  unfold StateAccess.getTokenSupply
  rw [kept.supply]

theorem getTokenBalance_u32 (state : StateAccess) (address : Address) (tokenId : Nat) :
    state.getTokenBalance address (u32 tokenId) = state.getTokenBalance address tokenId := by
  unfold StateAccess.getTokenBalance
  rw [u32_u32]

theorem getTokenBalance_putTokenBalance (state : StateAccess) (address other : Address)
    (tokenId balance : Nat) :
    (state.putTokenBalance address tokenId balance).getTokenBalance other tokenId =
      if other = address then u64 balance else state.getTokenBalance other tokenId := by
  unfold StateAccess.getTokenBalance StateAccess.putTokenBalance
  dsimp only
  have sameKey : (other, u32 tokenId) = (address, u32 tokenId) ↔ other = address := by
    rw [Prod.mk.injEq]
    exact and_iff_left rfl
  by_cases nothing : u64 balance = 0
  · rw [if_pos nothing, Table.find?_erase]
    simp only [sameKey]
    split
    · exact nothing.symm
    · rfl
  · rw [if_neg nothing, Table.find?_put]
    simp only [sameKey]
    split <;> rfl

/-! ## The invariant -/

/-- The owner of an NFT has the unit of its shadow token, and no pool or order names it. -/
structure Owned (id : Nat) (owner : Address) (state : StateAccess) : Prop
    extends Unlisted (u32 id) state where
  one : state.getTokenBalance owner id = 1
  none : ∀ address, address ≠ owner → state.getTokenBalance address id = 0
  supply : state.getTokenSupply id = 1

theorem Owned.spares (owned : Owned id owner before) (kept : Spares (u32 id) before after) :
    Owned id owner after := by
  refine ⟨kept.toUnlisted, ?_, ?_, ?_⟩
  · rw [Core.Spares.getTokenBalance kept]
    exact owned.one
  · intro address other
    rw [Core.Spares.getTokenBalance kept]
    exact owned.none address other
  · rw [Core.Spares.getTokenSupply kept]
    exact owned.supply

/-- The records of NFTs lie under their ids, with the shadow token of the same number. -/
def NumberedNfts (nfts : Table Nat NftInfo) : Prop :=
  ∀ id nft, nfts.find? id = some nft → nft.id = id ∧ nft.shadowTokenId = u32 id

def liveNft (nfts : Table Nat NftInfo) (id : Nat) : Option NftInfo :=
  (nfts.find? id).filter NftInfo.isValid

structure OwnershipInvariant (state : StateAccess) : Prop where
  numbered : NumberedNfts state.tree.nfts
  owned : ∀ id nft, state.getNft id = some nft → Owned id nft.owner state
  distinct : ∀ first second firstNft secondNft, state.getNft first = some firstNft →
    state.getNft second = some secondNft → u32 first = u32 second → first = second

theorem OwnershipInvariant.agrees (invariant : OwnershipInvariant state) : OwnershipAgrees state := by
  intro id nft found
  obtain ⟨_, isShadow⟩ := invariant.numbered id nft (Option.filter_eq_some_iff.mp found).1
  have owned := invariant.owned id nft found
  constructor
  · rw [isShadow, getTokenBalance_u32]
    exact owned.one
  · intro address other
    rw [isShadow, getTokenBalance_u32]
    exact owned.none address other
  · intro poolId pool stored
    obtain ⟨otherA, otherB⟩ := owned.pools poolId pool stored
    unfold poolHolding
    rw [isShadow, u32_u32, if_neg otherA, if_neg otherB]
  · intro orderId order stored
    unfold orderHolding
    rw [isShadow, u32_u32, if_neg (owned.orders orderId order stored).1]
  · unfold StateAccess.getTokenSupply
    rw [isShadow, u32_u32]
    exact owned.supply

/-! ## Records -/

/-- The NFTs in use afterwards were in use before, under the same owner. -/
def SameOwners (before after : Table Nat NftInfo) : Prop :=
  ∀ id nft, liveNft after id = some nft → ∃ old, liveNft before id = some old ∧ old.owner = nft.owner

theorem NftRewrite.sameOwners {rewritten : Table Nat NftInfo} (numbered : NumberedNfts nfts)
    (rewrite : NftRewrite nfts rewritten) : NumberedNfts rewritten ∧ SameOwners nfts rewritten := by
  cases rewrite with
  | put id old new found valid sameId sameOwner sameShadow =>
    obtain ⟨isId, isShadow⟩ := numbered id old found
    have newId : new.id = id := sameId.trans isId
    have newShadow : new.shadowTokenId = u32 id := by
      rw [sameShadow, isShadow, u32_u32]
    rw [newId]
    refine ⟨Table.forall_put numbered ⟨newId, newShadow⟩, ?_⟩
    · intro other nft isLive
      unfold liveNft at isLive ⊢
      rw [Table.find?_put] at isLive
      split at isLive
      next same =>
        obtain ⟨isNew, _⟩ := Option.filter_eq_some_iff.mp isLive
        cases isNew
        rw [same, found]
        exact ⟨old, Option.filter_eq_some_iff.mpr ⟨rfl, valid⟩, sameOwner.symm⟩
      · exact ⟨nft, isLive, rfl⟩

theorem sameOwners_of_rewrites {rewritten : Table Nat NftInfo} (numbered : NumberedNfts nfts)
    (rewrites : ReflTransGen NftRewrite nfts rewritten) :
    NumberedNfts rewritten ∧ SameOwners nfts rewritten := by
  induction rewrites with
  | refl => exact ⟨numbered, fun _ nft live => ⟨nft, live, rfl⟩⟩
  | tail _ step ih =>
    obtain ⟨numberedMiddle, toMiddle⟩ := ih
    obtain ⟨numberedLast, toLast⟩ := step.sameOwners numberedMiddle
    refine ⟨numberedLast, ?_⟩
    intro id nft live
    obtain ⟨middle, liveMiddle, sameMiddle⟩ := toLast id nft live
    obtain ⟨old, liveOld, sameOld⟩ := toMiddle id middle liveMiddle
    exact ⟨old, liveOld, sameOld.trans sameMiddle⟩

/-- Where NFTs keep their owners and their tokens are spared, the invariant stays. -/
theorem OwnershipInvariant.of_sameOwners (invariant : OwnershipInvariant state)
    (numbered : NumberedNfts after.tree.nfts) (same : SameOwners state.tree.nfts after.tree.nfts)
    (spared : ∀ id nft, state.getNft id = some nft → Spares (u32 id) state after) :
    OwnershipInvariant after := by
  refine ⟨numbered, ?_, ?_⟩
  · intro id nft found
    obtain ⟨old, isOld, sameOwner⟩ := same id nft found
    rw [← sameOwner]
    exact (invariant.owned id old isOld).spares (spared id old isOld)
  · intro first second firstNft secondNft firstFound secondFound sameNumber
    obtain ⟨firstOld, isFirst, _⟩ := same first firstNft firstFound
    obtain ⟨secondOld, isSecond, _⟩ := same second secondNft secondFound
    exact invariant.distinct first second firstOld secondOld isFirst isSecond sameNumber

theorem OwnershipInvariant.of_nfts (invariant : OwnershipInvariant state)
    (nfts : after.tree.nfts = state.tree.nfts)
    (spared : ∀ id nft, state.getNft id = some nft → Spares (u32 id) state after) :
    OwnershipInvariant after := by
  refine invariant.of_sameOwners (nfts ▸ invariant.numbered) ?_ spared
  rw [nfts]
  exact fun _ nft live => ⟨nft, live, rfl⟩

/-! ## Transactions -/

/-- A transaction leaves the shadow tokens of NFTs in use alone, its own NFT apart, and what it
mints was not in use. -/
structure LeavesShadows (state : StateAccess) (tx : Transaction) : Prop where
  unnamed : ∀ id nft, state.getNft id = some nft →
    u32 nft.shadowTokenId ∈ namedTokens state tx →
    (tx.txType = .transferNft ∨ tx.txType = .burnNft) ∧ readU64At tx.payload 0 = id
  unused : tx.txType = .mintNft ∨ tx.txType = .wrapNft →
    Unlisted (u32 (nextIdOf state .nextTokenId)) state ∧
      ∀ address, state.getTokenBalance address (nextIdOf state .nextTokenId) = 0

theorem LeavesShadows.congr (within : Within [.accounts] before after)
    (leaves : LeavesShadows before tx) : LeavesShadows after tx := by
  have nfts : after.tree.nfts = before.tree.nfts := within.same .nfts (by decide)
  have counter : after.getGlobal .nextTokenId = before.getGlobal .nextTokenId :=
    congrArg Coinage.nextTokenId (within.same .tokens (by decide))
  have nextId : nextIdOf after .nextTokenId = nextIdOf before .nextTokenId := by
    unfold nextIdOf getGlobalU64
    rw [counter]
  have rows : after.tree.tokenBalances = before.tree.tokenBalances :=
    within.same .balances (by decide)
  constructor
  · rw [namedTokens_congr within]
    unfold getNft
    rw [nfts]
    exact leaves.unnamed
  · intro mints
    obtain ⟨unlisted, nobody⟩ := leaves.unused mints
    rw [nextId]
    have spared := (spares_congr (within.mono (by decide))).mpr (spares_self unlisted)
    refine ⟨spared.toUnlisted, ?_⟩
    unfold StateAccess.getTokenBalance
    rw [rows]
    exact nobody

/-- The only unit of a token lies with an address. -/
def SoleUnit (id : Nat) (owner : Address) (state : StateAccess) : Prop :=
  Unlisted (u32 id) state ∧ state.getTokenBalance owner id = 1 ∧
    ∀ address, address ≠ owner → state.getTokenBalance address id = 0

/-- A minted unit is the only one, if there was none. -/
theorem mint_minted {shadow : TokenInfo} {nft : NftInfo} {collection : Option NftCollection}
    (unlisted : Unlisted (u32 shadow.id) state)
    (nobody : ∀ address, state.getTokenBalance address shadow.id = 0) :
    Ensures (SoleUnit shadow.id nft.owner) (mint state shadow nft collection) := by
  intro after ran
  have tables : Ensures (fun after => after.tree.tokenBalances =
        (state.putTokenBalance nft.owner shadow.id 1).tree.tokenBalances ∧
      after.tree.ammPools = state.tree.ammPools ∧ after.tree.orders = state.tree.orders)
      (mint state shadow nft collection) := by
    simp only [mint, Ensures.do_iff, Ensures.pure_iff]
    intro _ _
    cases collection <;> exact ⟨rfl, rfl, rfl⟩
  obtain ⟨rows, pools, orders⟩ := tables after ran
  have balance (address : Address) : after.getTokenBalance address shadow.id =
      if address = nft.owner then 1 else 0 := by
    have written := getTokenBalance_putTokenBalance state nft.owner address shadow.id 1
    rw [nobody] at written
    rw [← show u64 1 = 1 from rfl, ← written]
    unfold StateAccess.getTokenBalance
    rw [rows]
  refine ⟨⟨?_, ?_⟩, ?_, ?_⟩
  · rw [pools]
    exact unlisted.pools
  · rw [orders]
    exact unlisted.orders
  · rw [balance, if_pos rfl]
  · intro address other
    rw [balance, if_neg other]

section Handlers

variable {crypto : Primitives} {ctx : TxExecutionContext}
  (unlisted : Unlisted (u32 (nextIdOf state .nextTokenId)) state)
  (nobody : ∀ address, state.getTokenBalance address (nextIdOf state .nextTokenId) = 0)

include unlisted nobody

theorem executeMintNft_minted :
    Ensures (SoleUnit (nextIdOf state .nextTokenId) tx.sender) (executeMintNft state tx ctx) := by
  simp only [executeMintNft, Ensures.do_iff]
  intro _ _ metadata _ collection _ _ _
  exact @mint_minted state (shadowToken collection tx.sender (nextIdOf state .nextTokenId))
    (newNft tx.sender (nextIdOf state .nextTokenId) 0 0 (readU64At tx.payload 0) ctx.currentHeight
      metadata) collection unlisted nobody

theorem executeWrapNft_minted : Ensures (SoleUnit (nextIdOf state .nextTokenId) tx.sender)
      (executeWrapNft crypto state tx ctx) := by
  simp only [executeWrapNft, Ensures.do_iff, Ensures.guard_eq_some_iff]
  intro _ _ metadata _ _ custom _ positive collection _ _ _ _ _ debited ran
  -- nobody can wrap a token that nobody has
  have other : u32 (readU32At tx.payload 0) ≠ u32 (nextIdOf state .nextTokenId) := by
    intro same
    have nothing := nobody tx.sender
    unfold StateAccess.getTokenBalance at nothing
    rw [← same] at nothing
    unfold debitToken balanceOf at ran
    rw [if_neg (show _ ≠ NATIVE_TOKEN_ID from custom), StateAccess.getTokenBalance, nothing,
      if_pos (Nat.pos_of_ne_zero positive)] at ran
    cases ran
  have paid := @creditToken_spares (u32 (nextIdOf state .nextTokenId)) state debited _
    (readU64At tx.payload 4) (nftAddress crypto (nextIdOf state .nextTokenId))
    (debitToken_spares (spares_self unlisted) other debited ran) other
  refine @mint_minted _ (shadowToken collection tx.sender (nextIdOf state .nextTokenId))
    (newNft tx.sender (nextIdOf state .nextTokenId) (readU32At tx.payload 0)
      (readU64At tx.payload 4) (readU64At tx.payload 12) ctx.currentHeight metadata) collection
    paid.toUnlisted ?_
  intro address
  exact (Core.Spares.getTokenBalance paid address).trans (nobody address)

end Handlers

theorem executeTransferNft_owned {ctx : TxExecutionContext}
    (found : state.getNft (readU64At tx.payload 0) = some nft)
    (isShadow : nft.shadowTokenId = u32 id) (owned : Owned id nft.owner state) :
    Ensures (Owned id (read32At tx.payload 8)) (executeTransferNft state tx ctx) := by
  simp only [executeTransferNft, Ensures.do_iff, Ensures.guard_eq_some_iff, Ensures.pure_iff]
  intro _ _ _ _ other isOther _ _ _ moves _ _
  cases found.symm.trans isOther
  have settled : Owned id nft.owner (settleAccrued state nft ctx.currentHeight) :=
    owned.spares (spares_settleAccrued.mpr (spares_self owned.toUnlisted))
  generalize settleAccrued state nft ctx.currentHeight = start at settled ⊢
  have ownerBalance : start.getTokenBalance nft.owner nft.shadowTokenId = 1 := by
    rw [isShadow, getTokenBalance_u32]
    exact settled.one
  have sold (address : Address) :
      (start.putTokenBalance nft.owner nft.shadowTokenId 0).getTokenBalance address
        nft.shadowTokenId = 0 := by
    rw [getTokenBalance_putTokenBalance]
    split
    · rfl
    next notOwner =>
      rw [isShadow, getTokenBalance_u32]
      exact settled.none address notOwner
  rw [ownerBalance, show 1 - 1 = 0 from rfl, sold]
  generalize moved : (start.putTokenBalance nft.owner nft.shadowTokenId 0).putTokenBalance
    (read32At tx.payload 8) nft.shadowTokenId (u64 (0 + 1)) = final
  have balance (address : Address) : final.getTokenBalance address id =
      if address = read32At tx.payload 8 then 1 else 0 := by
    rw [← getTokenBalance_u32, ← isShadow, ← moved, getTokenBalance_putTokenBalance, sold]
    rfl
  have pools : final.tree.ammPools = start.tree.ammPools := by
    rw [← moved]
    rfl
  have orders : final.tree.orders = start.tree.orders := by
    rw [← moved]
    rfl
  have supplies : final.tree.tokenSupplies = start.tree.tokenSupplies := by
    rw [← moved]
    rfl
  have arrived : Owned id (read32At tx.payload 8) final := by
    refine ⟨⟨pools ▸ settled.pools, orders ▸ settled.orders⟩, ?_, ?_, ?_⟩
    · rw [balance, if_pos rfl]
    · intro address notOwner
      rw [balance, if_neg notOwner]
    · unfold StateAccess.getTokenSupply
      rw [supplies]
      exact settled.supply
  refine arrived.spares ?_
  rw [spares_putNft, spares_unindexNft]
  exact spares_self arrived.toUnlisted

/-- One NFT is minted, moved or burnt, and the tokens of all others are spared. -/
theorem OwnershipInvariant.of_one (invariant : OwnershipInvariant state)
    (numbered : NumberedNfts after.tree.nfts)
    (others : ∀ other, other ≠ id → liveNft after.tree.nfts other = liveNft state.tree.nfts other)
    (spared : ∀ other nft, other ≠ id → state.getNft other = some nft →
      Spares (u32 other) state after)
    (own : ∀ nft, after.getNft id = some nft → Owned id nft.owner after ∧
      ∀ other otherNft, other ≠ id → state.getNft other = some otherNft → u32 other ≠ u32 id) :
    OwnershipInvariant after := by
  have live (other : Nat) (nft : NftInfo) (isOther : other ≠ id)
      (found : after.getNft other = some nft) : state.getNft other = some nft :=
    (others other isOther).symm.trans found
  refine ⟨numbered, ?_, ?_⟩
  · intro other nft found
    by_cases same : other = id
    · rw [same] at found ⊢
      exact (own nft found).1
    · have before := live other nft same found
      exact (invariant.owned other nft before).spares (spared other nft same before)
  · intro first second firstNft secondNft firstFound secondFound sameNumber
    by_cases isFirst : first = id
    · by_cases isSecond : second = id
      · rw [isFirst, isSecond]
      · rw [isFirst] at firstFound sameNumber
        have before := live second secondNft isSecond secondFound
        exact absurd sameNumber.symm ((own firstNft firstFound).2 second secondNft isSecond before)
    · have firstBefore := live first firstNft isFirst firstFound
      by_cases isSecond : second = id
      · rw [isSecond] at secondFound sameNumber
        exact absurd sameNumber ((own secondNft secondFound).2 first firstNft isFirst firstBefore)
      · have secondBefore := live second secondNft isSecond secondFound
        exact invariant.distinct first second firstNft secondNft firstBefore secondBefore sameNumber

theorem OwnershipInvariant.of_put {new : NftInfo} (invariant : OwnershipInvariant state)
    (isShadow : u32 new.shadowTokenId = u32 new.id)
    (nfts : after.tree.nfts = (state.putNft new).tree.nfts)
    (spared : ∀ other nft, other ≠ new.id → state.getNft other = some nft →
      Spares (u32 other) state after)
    (owned : Owned new.id new.owner after)
    (apart : ∀ other nft, other ≠ new.id → state.getNft other = some nft → u32 other ≠ u32 new.id) :
    OwnershipInvariant after := by
  refine @OwnershipInvariant.of_one state after new.id invariant ?_ ?_ spared ?_
  · rw [nfts]
    exact Table.forall_put invariant.numbered ⟨rfl, isShadow⟩
  · intro other isOther
    unfold liveNft
    rw [nfts]
    exact congrArg _ ((Table.find?_put _ _ _ _).trans (if_neg isOther))
  · intro found isFound
    unfold getNft at isFound
    rw [nfts] at isFound
    have stored := ((Table.find?_put _ _ _ _).trans (if_pos rfl)).symm.trans
      (Option.filter_eq_some_iff.mp isFound).1
    cases stored
    exact ⟨owned, apart⟩

section Dispatch

variable {crypto : Primitives} {ctx : TxExecutionContext} {fills : List Fill}
  (invariant : OwnershipInvariant state) (leaves : LeavesShadows state tx)
  (ran : dispatch crypto state tx ctx = some (after, fills))

include invariant leaves ran

/-- An NFT is spared by every transaction that is not its own. -/
theorem OwnershipInvariant.spared (id : Nat) (nft : NftInfo) (found : state.getNft id = some nft)
    (notOwn : ¬((tx.txType = .transferNft ∨ tx.txType = .burnNft) ∧
      readU64At tx.payload 0 = id)) : Spares (u32 id) state after := by
  obtain ⟨_, isShadow⟩ := invariant.numbered id nft (Option.filter_eq_some_iff.mp found).1
  refine dispatch_spares (invariant.owned id nft found).toUnlisted ?_ (after, fills) ran
  intro named
  refine notOwn (leaves.unnamed id nft found ?_)
  rw [isShadow, u32_u32]
  exact named

theorem OwnershipInvariant.minted {nft : NftInfo}
    (kind : tx.txType = .mintNft ∨ tx.txType = .wrapNft)
    (nftId : nft.id = nextIdOf state .nextTokenId)
    (nftShadow : nft.shadowTokenId = nextIdOf state .nextTokenId) (isOwner : nft.owner = tx.sender)
    (supplies : after.tree.tokenSupplies =
      (state.putTokenSupply (nextIdOf state .nextTokenId) 1).tree.tokenSupplies)
    (nfts : after.tree.nfts = (state.putNft nft).tree.nfts) : OwnershipInvariant after := by
  obtain ⟨unlisted, nobody⟩ := leaves.unused kind
  have notOwn (other : Nat) : ¬((tx.txType = .transferNft ∨ tx.txType = .burnNft) ∧
      readU64At tx.payload 0 = other) := by
    rcases kind with kind | kind
    · simp [kind]
    · simp [kind]
  have named : u32 (nextIdOf state .nextTokenId) ∈ namedTokens state tx := by
    unfold namedTokens
    rcases kind with kind | kind
    · simp [kind]
    · simp [kind]
  have unit : SoleUnit (nextIdOf state .nextTokenId) tx.sender after := by
    unfold dispatch at ran
    rcases kind with kind | kind
    · rw [kind] at ran
      obtain ⟨minted, isMinted, same⟩ := Option.map_eq_some_iff.mp ran
      cases same
      exact executeMintNft_minted unlisted nobody after isMinted
    · rw [kind] at ran
      obtain ⟨minted, isMinted, same⟩ := Option.map_eq_some_iff.mp ran
      cases same
      exact executeWrapNft_minted unlisted nobody after isMinted
  have supply : after.getTokenSupply (nextIdOf state .nextTokenId) = 1 := by
    unfold StateAccess.getTokenSupply
    rw [supplies]
    unfold StateAccess.putTokenSupply
    dsimp only
    rw [if_neg (by decide), Table.find?_put, if_pos rfl]
    rfl
  refine invariant.of_put (by rw [nftShadow, nftId]) nfts ?_ ?_ ?_
  · exact fun other nft _ found => invariant.spared leaves ran other nft found (notOwn other)
  · rw [nftId, isOwner]
    exact ⟨unit.1, unit.2.1, unit.2.2, supply⟩
  · intro other otherNft _ otherFound sameNumber
    obtain ⟨_, isShadow⟩ := invariant.numbered other otherNft
      (Option.filter_eq_some_iff.mp otherFound).1
    refine notOwn other (leaves.unnamed other otherNft otherFound ?_)
    rw [isShadow, u32_u32, sameNumber, nftId]
    exact named

theorem OwnershipInvariant.burnt
    (nfts : after.tree.nfts = state.tree.nfts.erase (readU64At tx.payload 0)) :
    OwnershipInvariant after := by
  refine @OwnershipInvariant.of_one state after (readU64At tx.payload 0) invariant ?_ ?_ ?_ ?_
  · rw [nfts]
    exact Table.forall_erase invariant.numbered
  · intro other isOther
    unfold liveNft
    rw [nfts, Table.find?_erase, if_neg isOther]
  · intro other otherNft isOther otherFound
    exact invariant.spared leaves ran other otherNft otherFound fun own => isOther own.2.symm
  · intro gone isGone
    unfold getNft at isGone
    rw [nfts, Table.find?_erase, if_pos rfl] at isGone
    cases isGone

/-- A handler that leaves the shadows alone keeps the invariant. -/
theorem OwnershipInvariant.handler : OwnershipInvariant after := by
  have effect : TokenEffect state tx after := dispatch_tokenEffect (after, fills) ran
  have spared (notOwn : ¬(tx.txType = .transferNft ∨ tx.txType = .burnNft)) (id : Nat) (nft : NftInfo)
      (found : state.getNft id = some nft) : Spares (u32 id) state after :=
    invariant.spared leaves ran id nft found fun own => notOwn own.1
  cases effect with
  | none kind _ _ nfts _ =>
    obtain ⟨numbered, same⟩ := sameOwners_of_rewrites invariant.numbered nfts
    refine invariant.of_sameOwners numbered same (spared ?_)
    rintro (transfers | burns)
    · rw [transfers] at kind
      cases kind
    · rw [burns] at kind
      cases kind
  | createsToken kind _ _ _ _ nfts _ => exact invariant.of_nfts nfts (spared (by rw [kind]; decide))
  | mintsToken kind _ _ _ _ _ nfts _ => exact invariant.of_nfts nfts (spared (by rw [kind]; decide))
  | burnsToken kind _ _ _ nfts _ => exact invariant.of_nfts nfts (spared (by rw [kind]; decide))
  | renamesToken kind _ _ _ _ _ _ _ nfts _ =>
    exact invariant.of_nfts nfts (spared (by rw [kind]; decide))
  | mintsNft kind shadow nft shadowId _ nftId nftShadow isOwner _ supplies nfts _ =>
    rw [shadowId] at supplies
    exact invariant.minted leaves ran kind nftId nftShadow isOwner supplies nfts
  | transfersNft kind nft moved found sameId newOwner sameShadow _ _ nfts _ =>
    obtain ⟨isId, isShadow⟩ := invariant.numbered _ nft (Option.filter_eq_some_iff.mp found).1
    have movedId : moved.id = readU64At tx.payload 0 := sameId.trans isId
    refine invariant.of_put (by rw [sameShadow, isShadow, u32_u32, movedId]) nfts ?_ ?_ ?_
    · intro other otherNft isOther otherFound
      exact invariant.spared leaves ran other otherNft otherFound fun own =>
        isOther (own.2.symm.trans movedId.symm)
    · rw [movedId, newOwner]
      unfold dispatch at ran
      rw [kind] at ran
      obtain ⟨done, isDone, same⟩ := Option.map_eq_some_iff.mp ran
      cases same
      exact executeTransferNft_owned found isShadow (invariant.owned _ nft found) after isDone
    · intro other otherNft isOther otherFound sameNumber
      rw [movedId] at isOther sameNumber
      exact isOther (invariant.distinct other _ otherNft nft otherFound found sameNumber)
  | burnsNft kind nft found _ _ _ nfts _ => exact invariant.burnt leaves ran nfts

end Dispatch

/-! ## Chains -/

/-- The transactions of users leave the shadow tokens alone; passes always do. -/
def LeavesShadowsAlone : Event → Prop
  | .tx _ before tx _ => tx.txType.isSystemTx = false → LeavesShadows before tx
  | .pass .. => True

theorem genesis_ownership (config : GenesisConfig) : OwnershipInvariant (applyGenesis config) := by
  have unknown (id : Nat) (nft : NftInfo) :
      ¬(applyGenesis config).tree.nfts.find? id = some nft := by
    rw [(genesis_unused config).nfts]
    intro found
    cases found
  constructor
  · exact fun id nft found => absurd found (unknown id nft)
  · exact fun id nft found => absurd (Option.filter_eq_some_iff.mp found).1 (unknown id nft)
  · intro first _ firstNft _ found
    exact absurd (Option.filter_eq_some_iff.mp found).1 (unknown first firstNft)

/-- Along a chain whose transactions leave the shadow tokens alone, the owner of every NFT has its
shadow unit, and nobody else has any. -/
theorem chain_ownershipAgrees {env : ChainEnv} {config : GenesisConfig} {blocks : List Block}
    (chain : Chain env config blocks state)
    (alone : ∀ event ∈ chainEvents env config blocks, LeavesShadowsAlone event) :
    OwnershipAgrees state := by
  have kept := @Chain.keeps env config blocks state LeavesShadowsAlone OwnershipInvariant chain
    alone ?_ ?_ ?_ (genesis_ownership config)
  · exact kept.1.agrees
  · intro _ _ within invariant
    refine invariant.of_nfts (within.same .nfts (by decide)) fun id nft found => ?_
    exact (spares_congr (within.mono (by decide))).mpr
      (spares_self (invariant.owned id nft found).toUnlisted)
  · intro _ before tx _ charged done allowed system ranFee ran invariant
    exact invariant.handler ((allowed system).congr (chargeFee_within charged ranFee)) ran
  · intro _ _ _ _ kind change state isPass _ _ invariant
    have nfts : (change state).tree.nfts = state.tree.nfts :=
      (passes_within isPass state).same .nfts (by cases kind <;> decide)
    exact invariant.of_nfts nfts fun id nft found =>
      passes_spares isPass (invariant.owned id nft found).toUnlisted

namespace Regtest

/-- An NFT outside all collections. -/
def mintPlainNft : Transaction :=
  { chainId := 1
    txType := .mintNft
    sender := 20
    fee := 1
    payload := putU64 0 ++ List.replicate 32 0 ++ putU8 0 ++ putU16 0 }

def sendShadow : Transaction :=
  { chainId := 1
    txType := .transfer
    nonce := 1
    sender := 20
    recipient := 11
    tokenId := 1
    amount := 1
    fee := 1 }

/-- The recorded owner is left without the unit. -/
theorem sent_shadow_disagrees : Chain env config (blocks [[mintPlainNft], [sendShadow]])
        (stateAfter [[mintPlainNft], [sendShadow]]) ∧
      (∃ nft, (stateAfter [[mintPlainNft], [sendShadow]]).getNft 1 = some nft ∧ nft.owner = 20 ∧
        (stateAfter [[mintPlainNft], [sendShadow]]).getTokenBalance 20 nft.shadowTokenId = 0 ∧
        (stateAfter [[mintPlainNft], [sendShadow]]).getTokenBalance 11 nft.shadowTokenId = 1) ∧
      ¬OwnershipAgrees (stateAfter [[mintPlainNft], [sendShadow]]) := by
  have found : ((stateAfter [[mintPlainNft], [sendShadow]]).getNft 1).any (fun nft =>
      nft.owner == 20 &&
        (stateAfter [[mintPlainNft], [sendShadow]]).getTokenBalance 20 nft.shadowTokenId == 0 &&
        (stateAfter [[mintPlainNft], [sendShadow]]).getTokenBalance 11 nft.shadowTokenId == 1) =
      true := by
    decide +kernel
  rw [Option.any_eq_true] at found
  obtain ⟨nft, isNft, facts⟩ := found
  simp only [Bool.and_eq_true, beq_iff_eq] at facts
  obtain ⟨⟨isOwner, sold⟩, bought⟩ := facts
  refine ⟨chain_of_accepts (by decide +kernel), ⟨nft, isNft, isOwner, sold, bought⟩, ?_⟩
  intro agrees
  have holds := (agrees 1 nft isNft).owner
  rw [isOwner, sold] at holds
  cases holds

/-- The NFT itself is sent. -/
def sendNft : Transaction :=
  { chainId := 1
    txType := .transferNft
    nonce := 1
    sender := 20
    fee := 1
    payload := putU64 1 ++ putUInt 32 11 }

/-- No NFT, order, pool or balance exists, or the one NFT is moved by its own transaction. -/
def movesOwnNft : Event → Bool
  | .tx _ before tx _ =>
    (before.tree.nfts.entries.isEmpty && before.tree.ammPools.entries.isEmpty &&
        before.tree.orders.entries.isEmpty && before.tree.tokenBalances.entries.isEmpty) ||
      (tx.txType == .transferNft &&
        before.tree.nfts.entries.all fun entry => entry.1 == readU64At tx.payload 0)
  | .pass .. => true

theorem leavesShadowsAlone_of_movesOwnNft {event : Event} (moves : movesOwnNft event = true) :
    LeavesShadowsAlone event := by
  cases event with
  | pass height kind before after => exact trivial
  | tx height before tx after =>
    simp only [movesOwnNft, Bool.or_eq_true, Bool.and_eq_true, List.isEmpty_iff, beq_iff_eq,
      List.all_eq_true] at moves
    intro _
    rcases moves with ⟨⟨⟨noNfts, noPools⟩, noOrders⟩, noRows⟩ | ⟨kind, own⟩
    · constructor
      · intro id nft found
        have member := Table.find?_eq_some_iff.mp (Option.filter_eq_some_iff.mp found).1
        rw [noNfts] at member
        cases member
      · intro _
        refine ⟨⟨?_, ?_⟩, ?_⟩
        · intro id pool found
          have member := Table.find?_eq_some_iff.mp found
          rw [noPools] at member
          cases member
        · intro id order found
          have member := Table.find?_eq_some_iff.mp found
          rw [noOrders] at member
          cases member
        · intro address
          unfold StateAccess.getTokenBalance
          cases found : before.tree.tokenBalances.find?
              (address, u32 (nextIdOf before .nextTokenId)) with
          | none => rfl
          | some balance =>
            have member := Table.find?_eq_some_iff.mp found
            rw [noRows] at member
            cases member
    · constructor
      · intro id nft found _
        have member := Table.find?_eq_some_iff.mp (Option.filter_eq_some_iff.mp found).1
        exact ⟨Or.inl kind, (own _ member).symm⟩
      · rintro (mints | wraps)
        · rw [kind] at mints
          cases mints
        · rw [kind] at wraps
          cases wraps

theorem sent_nft_agrees :
    Chain env config (blocks [[mintPlainNft], [sendNft]]) (stateAfter [[mintPlainNft], [sendNft]]) ∧
      ((stateAfter [[mintPlainNft], [sendNft]]).getNft 1).any (fun nft => nft.owner == 11) = true ∧
      OwnershipAgrees (stateAfter [[mintPlainNft], [sendNft]]) := by
  have chain : Chain env config (blocks [[mintPlainNft], [sendNft]])
      (stateAfter [[mintPlainNft], [sendNft]]) := chain_of_accepts (by decide +kernel)
  have moves : ∀ event ∈ chainEvents env config (blocks [[mintPlainNft], [sendNft]]),
      movesOwnNft event = true := by
    rw [← List.all_eq_true]
    decide +kernel
  exact ⟨chain, by decide +kernel, chain_ownershipAgrees chain fun event member =>
    leavesShadowsAlone_of_movesOwnNft (moves event member)⟩

end Regtest

end Clarity.Core
