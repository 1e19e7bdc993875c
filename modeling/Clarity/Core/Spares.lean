import Clarity.Core.Chain
import Clarity.Core.MarketRecords
import Clarity.Core.TokenEffects
import Clarity.State.Spares

/-!
Contract: what is left alone by transactions that do not name a token.

Owns: `namedTokens`, the tokens a transaction names; that every handler spares a token that is
not named and not listed in a pool or an order; and that every pass does.
-/

namespace Clarity.Core

open Common Crypto Library State State.StateAccess Ensures

variable {token : Nat} {before state : StateAccess} {tokenId amount : Nat} {matching : Matching}
  {order : Order} {nft : NftInfo}

/-! ## Orders -/

theorem Spares.credit (kept : Spares token before state)
    (other : u32 tokenId ≠ token) (owner : Address) (amount : Nat) :
    Spares token before (credit state owner tokenId amount) := by
  unfold Core.credit
  split
  · exact kept
  · split
    · exact kept
    · exact kept.addBalance other owner amount

theorem Spares.persistMaker (kept : Spares token before state) {maker : Order}
    (other : u32 maker.sellToken ≠ token ∧ u32 maker.buyToken ≠ token) :
    Spares token before (persistMaker state maker) := by
  unfold Core.persistMaker
  split
  · exact (spares_removeFromOrderBook.mpr kept).deleteOrder maker.id
  · exact kept.putOrder other

/-- The taker of a matching does not name the token. -/
structure Matching.Spares (token : Nat) (before : StateAccess) (matching : Matching) : Prop where
  state : State.Spares token before matching.state
  taker : u32 matching.taker.sellToken ≠ token ∧ u32 matching.taker.buyToken ≠ token

theorem matchCandidate_spares {takerLimit : Nat} {candidate : Nat × Nat}
    (kept : matching.Spares token before) :
    Ensures (Matching.Spares token before) (matchCandidate takerLimit matching candidate) := by
  unfold matchCandidate
  simp only [ite_iff, none_iff, implies_true, true_and]
  intro _ _
  split
  · exact some_iff.mpr kept
  next maker found =>
    have other := kept.state.getOrder found
    simp only [ite_iff, some_iff]
    refine ⟨?_, ?_⟩
    · intro _
      exact ⟨(spares_removeFromOrderBook.mpr kept.state).deleteOrder maker.id, kept.taker⟩
    · refine fun _ => ⟨fun _ => ⟨kept.state.refundOrder other.1 true, kept.taker⟩, fun _ => ?_⟩
      split
      · exact some_iff.mpr kept
      · simp only [ite_iff, none_iff, implies_true, true_and]
        intro _
        unfold tryFill
        simp only [ite_iff, none_iff, implies_true, true_and, some_iff]
        intro _ _
        refine ⟨?_, kept.taker⟩
        exact Core.Spares.persistMaker
          (Core.Spares.credit (Core.Spares.credit kept.state kept.taker.2 _ _) other.2 _ _) other

theorem matchPassiveOrder_spares {taker : Order} (kept : Spares token before state)
    (other : u32 taker.sellToken ≠ token ∧ u32 taker.buyToken ≠ token) :
    Spares token before (matchPassiveOrder state taker).1 := by
  unfold matchPassiveOrder
  split
  · exact kept
  · split
    · exact kept
    next takerLimit _ =>
      have matched := @matchLoop_keeps (Matching.Spares token before) takerLimit
        ((state.bookLevels taker.sellToken taker.buyToken (1 - OrderBook.sideOf taker)).take
          OrderBook.MAX_BOOK_LEVELS_PER_TAKER) (fun _ _ => matchCandidate_spares)
        { state := state, taker := taker, fills := [] } ⟨kept, other⟩
      unfold persistTaker
      dsimp only
      split
      · exact matched.state.deleteOrder _
      · rw [spares_addToOrderBook, nextOrderSequence, spares_putGlobal]
        exact matched.state.putOrder matched.taker

theorem executeActiveOrder_spares {after : StateAccess} {height : Nat} {fill : Fill}
    (routed : executeActiveOrder state order height = .filled after fill)
    (kept : Spares token before state)
    (other : u32 order.sellToken ≠ token ∧ u32 order.buyToken ≠ token) :
    Spares token before after := by
  unfold executeActiveOrder at routed
  split at routed
  · cases routed
  · cases routed
  next pool amountIn amountOut effectivePrice quoted =>
    cases routed
    obtain ⟨_, _, trade⟩ := quoteRoute_trade quoted
    have faces := trade.facing
    -- the pool trades the two tokens of the order
    have poolOther : u32 pool.tokenA ≠ token ∧ u32 pool.tokenB ≠ token := by
      unfold routeReserves at faces
      split at faces
      next same => exact ⟨same.1 ▸ other.1, same.2 ▸ other.2⟩
      · split at faces
        next same => exact ⟨same.2 ▸ other.2, same.1 ▸ other.1⟩
        · cases faces
    unfold routeFill persistRouted
    dsimp only
    have traded := TransactionExecutor.tokens_recordVolume
      (pool.moveReserves order.sellToken amountIn amountOut) height
      (pool.clrtyVolume order.sellToken amountIn)
    have moved := TransactionExecutor.tokens_moveReserves pool order.sellToken amountIn amountOut
    rw [moved.1, moved.2] at traded
    rw [← traded.1, ← traded.2] at poolOther
    have paid := (kept.putAmmPool poolOther).addBalance other.2 order.owner amountOut
    split
    · exact paid.deleteOrder _
    · exact paid.putOrder other

/-! ## Names -/

namespace TransactionExecutor

/-- The tokens a transaction names, itself or by the NFT or the collection it names. -/
def namedTokens (state : StateAccess) (tx : Transaction) : List Nat :=
  match tx.txType with
  | .transfer | .mintToken | .burnToken => [u32 tx.tokenId]
  | .createToken => [u32 (nextIdOrOne (state.getGlobal .nextTokenId))]
  | .createPool | .createOrder => [u32 tx.tokenId, u32 (readU32At tx.payload 0)]
  | .createNftCollection =>
    match readCollection tx 0 0 with
    | none => []
    | some (collection, _) => [u32 collection.rewardTokenId]
  | .refillCollectionReward =>
    match state.getNftCollection (readU64At tx.payload 0) with
    | none => []
    | some collection => [u32 collection.rewardTokenId]
  | .mintNft => [u32 (nextIdOf state .nextTokenId)]
  | .wrapNft => [u32 (nextIdOf state .nextTokenId), u32 (readU32At tx.payload 0)]
  | .topUpNft => [u32 (readU32At tx.payload 8)]
  | .transferNft =>
    match state.getNft (readU64At tx.payload 0) with
    | none => []
    | some nft => [u32 nft.shadowTokenId]
  | .burnNft =>
    match state.getNft (readU64At tx.payload 0) with
    | none => []
    | some nft => [u32 nft.shadowTokenId, u32 nft.underlyingTokenId]
  | _ => []

/-- The names are read from tokens, NFTs and collections only. -/
theorem namedTokens_congr {after : StateAccess} (within : Within [.accounts] before after)
    (tx : Transaction) : namedTokens after tx = namedTokens before tx := by
  have counter : after.getGlobal .nextTokenId = before.getGlobal .nextTokenId :=
    congrArg Coinage.nextTokenId (within.same .tokens (by decide))
  have nfts : after.tree.nfts = before.tree.nfts := within.same .nfts (by decide)
  have collections : after.tree.nftCollections = before.tree.nftCollections :=
    within.same .collections (by decide)
  unfold namedTokens nextIdOf getGlobalU64 getNft getNftCollection
  rw [counter, nfts, collections]

/-! ## Handlers -/

section Handlers

variable {crypto : Primitives} {tx : Transaction} {ctx : TxExecutionContext}
  (unlisted : Unlisted token state)

theorem debitToken_spares {address : Address}
    (kept : Spares token before state) (other : u32 tokenId ≠ token) :
    Ensures (Spares token before) (debitToken state address tokenId amount) := by
  unfold debitToken
  simp only [ite_iff, none_iff, implies_true, true_and, some_iff]
  exact fun _ => kept.subBalance other address amount

theorem creditToken_spares {address : Address}
    (kept : Spares token before state) (other : u32 tokenId ≠ token) :
    Spares token before (creditToken state address tokenId amount) := by
  unfold creditToken
  split
  · exact kept
  · exact kept.addBalance other address amount

theorem readOrder_ne (otherSell : u32 tx.tokenId ≠ token)
    (otherBuy : u32 (readU32At tx.payload 0) ≠ token) :
    Ensures (fun order => u32 order.sellToken ≠ token ∧ u32 order.buyToken ≠ token)
      (readOrder tx) := by
  simp only [readOrder, do_iff, pure_iff]
  intros
  rw [← u32_u32] at otherSell
  exact ⟨otherSell, otherBuy⟩

theorem validateCreateOrderStructure_read :
    Ensures (fun order => readOrder tx = some order) (validateCreateOrderStructure tx) := by
  simp only [validateCreateOrderStructure, do_iff, pure_iff]
  intro order read
  intros
  exact read

@[simp] theorem spares_openPosition {owner : Address} {poolId liquidity height : Nat} :
    Spares token before (openPosition state owner poolId liquidity height) ↔
      Spares token before state :=
  spares_congr (by simp)

@[simp] theorem spares_shrinkPosition {position : AmmPosition} {isLast : Bool} :
    Spares token before (shrinkPosition state position amount isLast) ↔
      Spares token before state :=
  spares_congr (by simp [shrinkPosition])

@[simp] theorem spares_indexExpiry :
    Spares token before (indexExpiry state order) ↔ Spares token before state :=
  spares_congr (by simp)

@[simp] theorem spares_settleAccrued {height : Nat} :
    Spares token before (settleAccrued state nft height) ↔ Spares token before state :=
  spares_congr (by simp)

theorem placeOrder_spares {height : Nat} (kept : Spares token before state)
    (other : u32 order.sellToken ≠ token ∧ u32 order.buyToken ≠ token) :
    Ensures (fun placed => Spares token before placed.1) (placeOrder state order height) := by
  unfold placeOrder
  split
  · exact some_iff.mpr (matchPassiveOrder_spares kept other)
  · split
    · split
      next routed => exact some_iff.mpr (executeActiveOrder_spares routed kept other)
      · exact some_iff.mpr kept
      · exact none_iff.mpr trivial
    · exact some_iff.mpr kept

/-- What a collection payload says of the reward does not depend on the id it gets. -/
theorem readCollection_rewardToken {nextId height : Nat} :
    Ensures (fun read => ∃ other, readCollection tx 0 0 = some other ∧
        other.1.rewardTokenId = read.1.rewardTokenId)
      (readCollection tx nextId height) := by
  simp only [readCollection, Option.pure_def, Option.bind_eq_bind, bind_iff,
    some_iff]
  intro name isName symbol isSymbol uri isUri _ long
  rw [isName, Option.bind_some, isSymbol, Option.bind_some, isUri, Option.bind_some, long]
  exact ⟨_, rfl, rfl⟩

theorem mint_spares {shadow : TokenInfo} {collection : Option NftCollection}
    (kept : Spares token before state) (other : u32 shadow.id ≠ token) :
    Ensures (Spares token before) (mint state shadow nft collection) := by
  simp only [mint, do_iff, pure_iff]
  intro _ _
  have known : Spares token before (state.putToken shadow) := spares_putToken.mpr kept
  have shadowed := (known.putTokenSupply other 1).putTokenBalance other nft.owner 1
  rw [spares_putGlobal]
  cases collection with
  | none => exact spares_putNft.mpr shadowed
  | some collection => exact spares_putNftCollection.mpr (spares_putNft.mpr shadowed)

theorem releaseCustody_spares {nftId : Nat} (kept : Spares token before state)
    (other : u32 nft.underlyingTokenId ≠ token) :
    Ensures (Spares token before) (releaseCustody crypto state nft nftId) := by
  unfold releaseCustody
  split
  · simp only [do_iff, pure_iff]
    intro debited ran
    exact creditToken_spares (debitToken_spares kept other debited ran) other
  · exact some_iff.mpr kept

include unlisted

theorem executeTransfer_spares (other : u32 tx.tokenId ≠ token) :
    Ensures (Spares token state) (executeTransfer state tx ctx) := by
  have start := spares_self unlisted
  unfold executeTransfer
  simp only [do_iff, ite_iff, pure_iff]
  intro _ _ _ _
  refine ⟨fun _ => ?_, ?_⟩
  · simp [transferNative, start]
  · intro _ _ _
    exact (start.subBalance other _ _).addBalance other _ _

theorem executeMintToken_spares (other : u32 tx.tokenId ≠ token) :
    Ensures (Spares token state) (executeMintToken state tx) := by
  simp only [executeMintToken, do_iff, pure_iff]
  intros
  exact ((spares_self unlisted).putTokenBalance other _ _).putTokenSupply other _

theorem executeBurnToken_spares (other : u32 tx.tokenId ≠ token) :
    Ensures (Spares token state) (executeBurnToken state tx) := by
  simp only [executeBurnToken, do_iff, pure_iff]
  intros
  exact ((spares_self unlisted).putTokenBalance other _ _).putTokenSupply other _

theorem executeCreateToken_spares
    (other : u32 (nextIdOrOne (state.getGlobal .nextTokenId)) ≠ token) :
    Ensures (Spares token state) (executeCreateToken state tx) := by
  simp only [executeCreateToken, do_iff, pure_iff]
  intro info read _ _
  rw [← readToken_id info read] at other
  rw [spares_putGlobal]
  exact (spares_putToken.mpr (spares_self unlisted)).putTokenSupply other 0

theorem executeCreatePool_spares (otherA : u32 tx.tokenId ≠ token)
    (otherB : u32 (readU32At tx.payload 0) ≠ token) :
    Ensures (Spares token state) (executeCreatePool state tx ctx) := by
  simp only [executeCreatePool, do_iff, pure_iff]
  intro pool read _ _ _ _ _ _
  have others (nextId height : Nat) : Ensures (fun pool => u32 pool.tokenA ≠ token ∧
      u32 pool.tokenB ≠ token) (readPool tx nextId height) := by
    simp only [readPool, do_iff, pure_iff]
    intros
    rw [← u32_u32] at otherA
    unfold poolSides
    split
    · exact ⟨otherB, otherA⟩
    · exact ⟨otherA, otherB⟩
  have other := others _ _ pool read
  rw [spares_openPosition, spares_putGlobal]
  exact (((spares_self unlisted).subBalance other.1 _ _).subBalance other.2 _ _).putAmmPool other

theorem executeAddLiquidity_spares :
    Ensures (Spares token state) (executeAddLiquidity state tx ctx) := by
  simp only [executeAddLiquidity, do_iff, guard_eq_some_iff]
  intro _ _ pool found _ _ _ isSide _ _ _ _ _ _
  have other := unlisted.getAmmPool found
  obtain ⟨reserveIn, reserveOther, sides⟩ := swapSides_other isSide
  have stored (tokenOther : Nat)
      (isOther : swapSides pool tx.tokenId = some (tokenOther, reserveIn, reserveOther)) :
      Spares token state (((state.subBalance tx.sender tx.tokenId tx.amount).subBalance tx.sender
        tokenOther (readU64At tx.payload 8)).putAmmPool
          (addToPool pool tx.tokenId tx.amount (readU64At tx.payload 8)).1) := by
    have grown :
        let grown := (addToPool pool tx.tokenId tx.amount (readU64At tx.payload 8)).1
        grown.tokenA = pool.tokenA ∧ grown.tokenB = pool.tokenB := by
      unfold addToPool
      dsimp only
      split <;> exact ⟨rfl, rfl⟩
    have names : u32 tx.tokenId ≠ token ∧ u32 tokenOther ≠ token := by
      rcases swapSides_eq_some isOther with ⟨isIn, isOut, _⟩ | ⟨_, isIn, isOut, _⟩
      · exact ⟨isIn ▸ other.1, isOut ▸ other.2⟩
      · exact ⟨isIn ▸ other.2, isOut ▸ other.1⟩
    refine (((spares_self unlisted).subBalance names.1 _ _).subBalance names.2 _ _).putAmmPool ?_
    rw [grown.1, grown.2]
    exact other
  have stored := stored _ sides
  split
  · exact some_iff.mpr ((spares_congr (by simp)).mpr stored)
  · exact some_iff.mpr (spares_openPosition.mpr stored)

theorem executeRemoveLiquidity_spares :
    Ensures (Spares token state) (executeRemoveLiquidity state tx) := by
  simp only [executeRemoveLiquidity, do_iff, pure_iff]
  intro _ _ position _ _ _ _ _ _ _ pool found
  have other := unlisted.getAmmPool found
  generalize (if readU64At tx.payload 8 = 0 then position.liquidity else readU64At tx.payload 8) =
    amount
  have paid := (((spares_self unlisted).putAmmPool (show
      u32 ({ pool with
        reserveA := sub64 pool.reserveA (liquidityShares pool amount).1
        reserveB := sub64 pool.reserveB (liquidityShares pool amount).2
        totalLiquidity := sub64 pool.totalLiquidity amount } : AmmPool).tokenA ≠ token ∧ _
      from other)).addBalance other.1 tx.sender (liquidityShares pool amount).1).addBalance other.2
        tx.sender (liquidityShares pool amount).2
  split
  · exact (spares_shrinkPosition.mpr paid).deleteAmmPool pool.id
  · exact spares_shrinkPosition.mpr paid

theorem executeSwap_spares : Ensures (Spares token state) (executeSwap state tx ctx) := by
  simp only [executeSwap, do_iff, pure_iff]
  intro _ _ pool found _ _ sides isSides _ _ _ _
  have other := unlisted.getAmmPool found
  have names : u32 tx.tokenId ≠ token ∧ u32 sides.1 ≠ token := by
    rcases swapSides_eq_some isSides with ⟨isIn, isOut, _⟩ | ⟨_, isIn, isOut, _⟩
    · exact ⟨isIn ▸ other.1, isOut ▸ other.2⟩
    · exact ⟨isIn ▸ other.2, isOut ▸ other.1⟩
  refine (((spares_self unlisted).subBalance names.1 _ _).addBalance names.2 _ _).putAmmPool ?_
  rw [(tokens_moveReserves _ _ _ _).1, (tokens_moveReserves _ _ _ _).2,
    (tokens_recordVolume _ _ _).1, (tokens_recordVolume _ _ _).2]
  exact other

theorem executeCreateOrder_spares (otherSell : u32 tx.tokenId ≠ token)
    (otherBuy : u32 (readU32At tx.payload 0) ≠ token) :
    Ensures (fun done => Spares token state done.1) (executeCreateOrder state tx ctx) := by
  simp only [executeCreateOrder, do_iff, pure_iff]
  intro parsed read _ _ _ _ _ _ placed ran
  have other := readOrder_ne otherSell otherBuy parsed (validateCreateOrderStructure_read parsed read)
  rw [spares_putGlobal, spares_indexExpiry]
  have locked : Spares token state ((state.subBalance tx.sender tx.tokenId tx.amount).putOrder
      { parsed with
        id := (state.getGlobal .nextOrderId).getD 1
        owner := tx.sender
        createdAtHeight := ctx.currentHeight }) :=
    ((spares_self unlisted).subBalance otherSell _ _).putOrder other
  refine placeOrder_spares locked ?_ placed ran
  exact other

theorem executeCancelOrder_spares : Ensures (Spares token state) (executeCancelOrder state tx) := by
  simp only [executeCancelOrder, do_iff, pure_iff]
  intro _ _ order found _ _
  have other := unlisted.getOrder found
  apply Spares.deleteRestingOrder
  split
  · exact (spares_self unlisted).addBalance other.1 _ _
  · exact spares_self unlisted

theorem executeCreateNftCollection_spares
    (other : ∀ read ∈ readCollection tx 0 0, u32 read.1.rewardTokenId ≠ token) :
    Ensures (Spares token state) (executeCreateNftCollection crypto state tx ctx) := by
  simp only [executeCreateNftCollection, do_iff, ite_iff, pure_iff]
  intro read isRead _ _
  obtain ⟨plain, isPlain, sameToken⟩ := readCollection_rewardToken read isRead
  have names := other plain isPlain
  rw [sameToken] at names
  refine ⟨?_, ?_⟩
  · intro _ debited ran
    rw [spares_putGlobal, spares_putNftCollection]
    exact creditToken_spares (debitToken_spares (spares_self unlisted) names debited ran) names
  · rintro _ debited ⟨⟩
    rw [spares_putGlobal, spares_putNftCollection]
    exact creditToken_spares (spares_self unlisted) names

theorem executeRefillCollectionReward_spares
    (other : ∀ collection ∈ state.getNftCollection (readU64At tx.payload 0),
      u32 collection.rewardTokenId ≠ token) :
    Ensures (Spares token state) (executeRefillCollectionReward crypto state tx) := by
  simp only [executeRefillCollectionReward, do_iff, pure_iff]
  intro _ _ _ _ collection found _ _ _ _ debited ran
  have names := other collection found
  rw [spares_putNftCollection]
  exact creditToken_spares (debitToken_spares (spares_self unlisted) names debited ran) names

theorem executeTransferNft_spares
    (other : ∀ nft ∈ state.getNft (readU64At tx.payload 0), u32 nft.shadowTokenId ≠ token) :
    Ensures (Spares token state) (executeTransferNft state tx ctx) := by
  simp only [executeTransferNft, do_iff, pure_iff]
  intro _ _ _ _ nft found _ _ _ _ _ _
  have names := other nft found
  rw [spares_putNft, spares_unindexNft]
  exact ((spares_settleAccrued.mpr (spares_self unlisted)).putTokenBalance names _ _).putTokenBalance
    names _ _

theorem executeBurnNft_spares
    (other : ∀ nft ∈ state.getNft (readU64At tx.payload 0),
      u32 nft.shadowTokenId ≠ token ∧ u32 nft.underlyingTokenId ≠ token) :
    Ensures (Spares token state) (executeBurnNft crypto state tx ctx) := by
  simp only [executeBurnNft, do_iff, pure_iff]
  intro _ _ nft found _ _ _ _ released ran
  have names := other nft found
  refine (spares_congr (by simp)).mpr (releaseCustody_spares ?_ names.2 released ran)
  exact ((spares_settleAccrued.mpr (spares_self unlisted)).putTokenBalance names.1 _ _).putTokenSupply
    names.1 0

theorem executeTopUpNft_spares (other : u32 (readU32At tx.payload 8) ≠ token) :
    Ensures (Spares token state) (executeTopUpNft crypto state tx) := by
  simp only [executeTopUpNft, do_iff, ite_iff, pure_iff]
  intro _ _ _ _ nft _ _ _ debited ran
  have paid := @creditToken_spares token state debited _ (readU64At tx.payload 12)
    (nftAddress crypto (readU64At tx.payload 0))
    (debitToken_spares (spares_self unlisted) other debited ran) other
  exact ⟨fun _ => spares_putNft.mpr paid, fun _ => paid⟩

/-- A handler spares every token that its transaction does not name and that is not listed. -/
theorem dispatch_spares (unnamed : token ∉ namedTokens state tx) :
    Ensures (fun done => Spares token state done.1) (dispatch crypto state tx ctx) := by
  by_cases quiet : handlerParts tx.txType ⊆ sparedParts
  · exact dispatch_within.mono
      fun _ within => (spares_congr (within.mono quiet)).mpr (spares_self unlisted)
  unfold dispatch
  unfold namedTokens at unnamed
  cases kind : tx.txType <;> rw [kind] at unnamed quiet <;> simp [handlerParts] at quiet <;>
    simp only [map_iff, List.mem_cons, List.not_mem_nil, or_false, not_or] at unnamed ⊢
  case transfer => exact executeTransfer_spares unlisted (Ne.symm unnamed)
  case createToken => exact executeCreateToken_spares unlisted (Ne.symm unnamed)
  case mintToken => exact executeMintToken_spares unlisted (Ne.symm unnamed)
  case burnToken => exact executeBurnToken_spares unlisted (Ne.symm unnamed)
  case updateTokenMeta => simp [executeUpdateTokenMeta, spares_self unlisted]
  case createPool =>
    exact executeCreatePool_spares unlisted (Ne.symm unnamed.1) (Ne.symm unnamed.2)
  case addLiquidity => exact executeAddLiquidity_spares unlisted
  case removeLiquidity => exact executeRemoveLiquidity_spares unlisted
  case swap => exact executeSwap_spares unlisted
  case createOrder =>
    exact executeCreateOrder_spares unlisted (Ne.symm unnamed.1) (Ne.symm unnamed.2)
  case cancelOrder => exact executeCancelOrder_spares unlisted
  case createNftCollection =>
    refine executeCreateNftCollection_spares unlisted fun read isRead => ?_
    rw [isRead] at unnamed
    simpa [eq_comm] using unnamed
  case mintNft =>
    simp only [executeMintNft, do_iff]
    intros
    exact mint_spares (spares_self unlisted) (Ne.symm unnamed)
  case wrapNft =>
    simp only [executeWrapNft, do_iff]
    intro _ _ _ _ _ _ _ _ _ _ _ _ _ _ debited ran
    have other := Ne.symm unnamed.2
    exact mint_spares (creditToken_spares (debitToken_spares (spares_self unlisted) other debited ran)
      other) (Ne.symm unnamed.1)
  case transferNft =>
    refine executeTransferNft_spares unlisted fun nft found => ?_
    rw [found] at unnamed
    simpa [eq_comm] using unnamed
  case burnNft =>
    refine executeBurnNft_spares unlisted fun nft found => ?_
    rw [found] at unnamed
    simpa [eq_comm] using unnamed
  case topUpNft => exact executeTopUpNft_spares unlisted (Ne.symm unnamed)
  case refillCollectionReward =>
    refine executeRefillCollectionReward_spares unlisted fun collection found => ?_
    rw [found] at unnamed
    simpa [eq_comm] using unnamed

end Handlers

end TransactionExecutor

/-! ## Passes -/

namespace BlockProcessor

/-- Every pass spares every token that is not listed. -/
theorem passes_spares {env : ChainEnv} {block : Block} {height : Nat}
    {committedSet activeSet : List Nat} {kind : Pass} {change : StateAccess → StateAccess}
    (isPass : (kind, change) ∈ passes env block height committedSet activeSet)
    (unlisted : Unlisted token state) : Spares token state (change state) := by
  have start := spares_self unlisted
  by_cases isOrders : kind = .orderExpiries ∨ kind = .orderConditions
  · refine orderPasses_keep isPass isOrders (fun _ kept => (spares_congr (by simp)).mpr kept)
      ?_ ?_ start
    · intro middle orderId order refund found kept
      apply Spares.deleteRestingOrder
      split
      · exact kept.addBalance (kept.getOrder found).1 _ _
      · exact kept
    · exact fun _ _ _ _ _ found filled kept =>
        executeActiveOrder_spares filled kept (kept.getOrder found)
  · obtain ⟨expiries, conditions⟩ := not_or.mp isOrders
    refine (spares_congr ((passes_within isPass state).mono ?_)).mpr start
    cases kind <;> first | contradiction | decide

end BlockProcessor

end Clarity.Core
