import Clarity.Core.BlockProcessor.Apply
import Clarity.Library.Path
import Clarity.State.Frame

/-!
Contract: what transactions do to the records of tokens, supplies and NFTs.

Owns: `TokenEffect`, everything an executed transaction can do to these records, said once; and
`dispatch_tokenEffect`, that it does nothing else.
-/

namespace Clarity.Core

open Common Crypto Library State State.StateAccess
open Relation Ensures

variable {before state : StateAccess}

/-! ## Effects -/

/-- A valid record of an NFT is written again, with the same owner and the same shadow token. -/
inductive NftRewrite : Table Nat NftInfo → Table Nat NftInfo → Prop
  | put (table : Table Nat NftInfo) (id : Nat) (old new : NftInfo)
      (found : table.find? id = some old) (valid : old.isValid = true) (sameId : new.id = old.id)
      (sameOwner : new.owner = old.owner) (sameShadow : new.shadowTokenId = u32 old.shadowTokenId) :
      NftRewrite table (table.put new.id new)

namespace TransactionExecutor

/-- The types that write a token, a supply or an NFT in a way of their own. -/
def writesTokens : TxType → Bool
  | .createToken | .mintToken | .burnToken | .updateTokenMeta | .mintNft | .wrapNft | .transferNft
  | .burnNft => true
  | _ => false

/-- What a handler does to tokens, supplies and NFTs. -/
inductive TokenEffect (before : StateAccess) (tx : Transaction) (after : StateAccess) : Prop
  | none (kind : writesTokens tx.txType = false)
      (tokens : after.tree.tokens = before.tree.tokens)
      (supplies : after.tree.tokenSupplies = before.tree.tokenSupplies)
      (nfts : ReflTransGen NftRewrite before.tree.nfts after.tree.nfts)
      (next : after.getGlobal .nextTokenId = before.getGlobal .nextTokenId)
  | createsToken (kind : tx.txType = .createToken) (token : TokenInfo)
      (id : token.id = nextIdOrOne (before.getGlobal .nextTokenId))
      (tokens : after.tree.tokens = (before.putToken token).tree.tokens)
      (supplies : after.tree.tokenSupplies = (before.putTokenSupply token.id 0).tree.tokenSupplies)
      (nfts : after.tree.nfts = before.tree.nfts)
      (next : after.getGlobal .nextTokenId = some (u64 (token.id + 1)))
  | mintsToken (kind : tx.txType = .mintToken) (token : TokenInfo)
      (found : before.getToken tx.tokenId = some token)
      (capped : ¬(token.maxSupply > 0 ∧
        u64 (before.getTokenSupply tx.tokenId + tx.amount) > token.maxSupply))
      (tokens : after.tree.tokens = before.tree.tokens)
      (supplies : after.tree.tokenSupplies = (before.putTokenSupply tx.tokenId
        (u64 (before.getTokenSupply tx.tokenId + tx.amount))).tree.tokenSupplies)
      (nfts : after.tree.nfts = before.tree.nfts)
      (next : after.getGlobal .nextTokenId = before.getGlobal .nextTokenId)
  | burnsToken (kind : tx.txType = .burnToken)
      (covered : tx.amount ≤ before.getTokenBalance tx.sender tx.tokenId)
      (tokens : after.tree.tokens = before.tree.tokens)
      (supplies : after.tree.tokenSupplies = (before.putTokenSupply tx.tokenId
        (before.getTokenSupply tx.tokenId - tx.amount)).tree.tokenSupplies)
      (nfts : after.tree.nfts = before.tree.nfts)
      (next : after.getGlobal .nextTokenId = before.getGlobal .nextTokenId)
  | renamesToken (kind : tx.txType = .updateTokenMeta) (token updated : TokenInfo)
      (found : before.getToken tx.tokenId = some token) (sameId : updated.id = token.id)
      (sameCap : updated.maxSupply = token.maxSupply)
      (tokens : after.tree.tokens = (before.putToken updated).tree.tokens)
      (supplies : after.tree.tokenSupplies = before.tree.tokenSupplies)
      (nfts : after.tree.nfts = before.tree.nfts)
      (next : after.getGlobal .nextTokenId = before.getGlobal .nextTokenId)
  | mintsNft (kind : tx.txType = .mintNft ∨ tx.txType = .wrapNft) (shadow : TokenInfo)
      (nft : NftInfo) (shadowId : shadow.id = nextIdOf before .nextTokenId)
      (capped : shadow.maxSupply = 1) (nftId : nft.id = nextIdOf before .nextTokenId)
      (nftShadow : nft.shadowTokenId = nextIdOf before .nextTokenId) (owned : nft.owner = tx.sender)
      (tokens : after.tree.tokens = (before.putToken shadow).tree.tokens)
      (supplies : after.tree.tokenSupplies =
        (before.putTokenSupply shadow.id 1).tree.tokenSupplies)
      (nfts : after.tree.nfts = (before.putNft nft).tree.nfts)
      (next : after.getGlobal .nextTokenId = some (u64 (nft.id + 1)))
  | transfersNft (kind : tx.txType = .transferNft) (nft moved : NftInfo)
      (found : before.getNft (readU64At tx.payload 0) = some nft) (sameId : moved.id = nft.id)
      (newOwner : moved.owner = read32At tx.payload 8)
      (sameShadow : moved.shadowTokenId = nft.shadowTokenId)
      (tokens : after.tree.tokens = before.tree.tokens)
      (supplies : after.tree.tokenSupplies = before.tree.tokenSupplies)
      (nfts : after.tree.nfts = (before.putNft moved).tree.nfts)
      (next : after.getGlobal .nextTokenId = before.getGlobal .nextTokenId)
  | burnsNft (kind : tx.txType = .burnNft) (nft : NftInfo)
      (found : before.getNft (readU64At tx.payload 0) = some nft)
      (covered : 1 ≤ before.getTokenBalance nft.owner nft.shadowTokenId)
      (tokens : after.tree.tokens = before.tree.tokens)
      (supplies : after.tree.tokenSupplies =
        (before.putTokenSupply nft.shadowTokenId 0).tree.tokenSupplies)
      (nfts : after.tree.nfts = before.tree.nfts.erase (readU64At tx.payload 0))
      (next : after.getGlobal .nextTokenId = before.getGlobal .nextTokenId)

variable {crypto : Primitives} {tx : Transaction} {ctx : TxExecutionContext}

/-! ### Tokens -/

theorem readToken_id {payload : Bytes} {creator : Address} {nextId : Nat} :
    Ensures (fun token => token.id = nextId) (readToken payload creator nextId) := by
  simp [readToken]

theorem executeCreateToken_effect (kind : tx.txType = .createToken) :
    Ensures (TokenEffect state tx) (executeCreateToken state tx) := by
  simp only [executeCreateToken, do_iff, pure_iff]
  intro token read _ _
  refine .createsToken kind token (readToken_id token read) rfl rfl rfl ?_
  rw [getGlobal_putGlobal, if_pos rfl, readToken_id token read]

theorem executeMintToken_effect (kind : tx.txType = .mintToken) :
    Ensures (TokenEffect state tx) (executeMintToken state tx) := by
  simp only [executeMintToken, do_iff, guard_eq_some_iff, pure_iff]
  intro _ _ _ _ token found _ _ _ capped
  exact .mintsToken kind token found capped rfl rfl rfl rfl

theorem executeBurnToken_effect (kind : tx.txType = .burnToken) :
    Ensures (TokenEffect state tx) (executeBurnToken state tx) := by
  simp only [executeBurnToken, do_iff, guard_eq_some_iff, pure_iff]
  intro _ _ _ _ _ covered
  exact .burnsToken kind covered rfl rfl rfl rfl

theorem executeUpdateTokenMeta_effect (kind : tx.txType = .updateTokenMeta) :
    Ensures (TokenEffect state tx) (executeUpdateTokenMeta state tx) := by
  simp only [executeUpdateTokenMeta, do_iff, guard_eq_some_iff, pure_iff]
  intro _ _ _ _ token found _ _ updated read _ _
  have same : Ensures (fun updated => updated.id = token.id ∧ updated.maxSupply = token.maxSupply)
      (updatedToken tx.payload token) := by simp [updatedToken]
  obtain ⟨sameId, sameCap⟩ := same updated read
  exact .renamesToken kind token updated found sameId sameCap rfl rfl rfl rfl

/-! ### NFTs -/

/-- What a mint writes, on a state with the tokens and the NFTs of the first one. -/
theorem mint_effect {middle : StateAccess} {shadow : TokenInfo} {nft : NftInfo}
    {collection : Option NftCollection}
    (kind : tx.txType = .mintNft ∨ tx.txType = .wrapNft)
    (within : Within [.accounts, .balances] state middle)
    (shadowId : shadow.id = nextIdOf state .nextTokenId) (capped : shadow.maxSupply = 1)
    (nftId : nft.id = nextIdOf state .nextTokenId)
    (nftShadow : nft.shadowTokenId = nextIdOf state .nextTokenId) (owned : nft.owner = tx.sender) :
    Ensures (TokenEffect state tx) (mint middle shadow nft collection) := by
  have coins : middle.coinage = state.coinage := within.same .tokens (by decide)
  have tokens : middle.tree.tokens = state.tree.tokens := congrArg Coinage.tokens coins
  have supplies : middle.tree.tokenSupplies = state.tree.tokenSupplies :=
    congrArg Coinage.supplies coins
  have nfts : middle.tree.nfts = state.tree.nfts := within.same .nfts (by decide)
  simp only [mint, do_iff, pure_iff]
  intro _ _
  refine .mintsNft kind shadow nft shadowId capped nftId nftShadow owned ?_ ?_ ?_ ?_
  · unfold putToken
    rw [← tokens]
    cases collection <;> rfl
  · unfold putTokenSupply
    rw [← supplies]
    cases collection <;> rfl
  · unfold putNft
    rw [← nfts]
    cases collection <;> rfl
  · rw [getGlobal_putGlobal, if_pos rfl]

theorem executeMintNft_effect (kind : tx.txType = .mintNft) :
    Ensures (TokenEffect state tx) (executeMintNft state tx ctx) := by
  simp only [executeMintNft, do_iff]
  intro _ _ _ _ collection _ _ _
  exact mint_effect (Or.inl kind) (.refl _ _) rfl rfl rfl rfl rfl

theorem executeWrapNft_effect (kind : tx.txType = .wrapNft) :
    Ensures (TokenEffect state tx) (executeWrapNft crypto state tx ctx) := by
  simp only [executeWrapNft, do_iff]
  intro _ _ _ _ _ _ _ _ collection _ _ _ _ _ debited ran
  have paid := debitToken_within debited ran
  exact mint_effect (Or.inr kind) (by simp [paid]) rfl rfl rfl rfl rfl

theorem tree_unindexNft (nft : NftInfo) : (state.unindexNft nft).tree = state.tree := by
  unfold unindexNft
  split <;> rfl

theorem executeTransferNft_effect (kind : tx.txType = .transferNft) :
    Ensures (TokenEffect state tx) (executeTransferNft state tx ctx) := by
  simp only [executeTransferNft, do_iff, pure_iff]
  intro _ _ _ _ nft found _ _ _ _ _ _
  have moves : ∀ bought, Within [.accounts, .balances] state bought →
      TokenEffect state tx ((bought.unindexNft nft).putNft
        { nft with
          owner := read32At tx.payload 8
          lastAccrualHeight := ctx.currentHeight
          accruedOwed := 0 }) := by
    intro bought paid
    have nfts : bought.tree.nfts = state.tree.nfts := paid.same .nfts (by decide)
    have whole : Within [.nfts] bought ((bought.unindexNft nft).putNft
        { nft with
          owner := read32At tx.payload 8
          lastAccrualHeight := ctx.currentHeight
          accruedOwed := 0 }) := by
      simp
    have coins := Eq.trans (whole.same .tokens (by decide)) (paid.same .tokens (by decide))
    refine .transfersNft kind nft
      { nft with
        owner := read32At tx.payload 8
        lastAccrualHeight := ctx.currentHeight
        accruedOwed := 0 } found rfl rfl rfl (congrArg Coinage.tokens coins)
      (congrArg Coinage.supplies coins) ?_ (congrArg Coinage.nextTokenId coins)
    unfold putNft
    dsimp only
    rw [tree_unindexNft, nfts]
  exact moves _ (by simp)

theorem tree_deleteNft (nftId : Nat) :
    (state.deleteNft nftId).tree = { state.tree with nfts := state.tree.nfts.erase nftId } := by
  unfold deleteNft
  dsimp only
  split
  · rfl
  · rw [tree_unindexNft]

theorem executeBurnNft_effect (kind : tx.txType = .burnNft) :
    Ensures (TokenEffect state tx) (executeBurnNft crypto state tx ctx) := by
  simp only [executeBurnNft, do_iff, guard_eq_some_iff, pure_iff]
  intro _ _ nft found _ _ _ covers released ran
  have settled : Within [.accounts] state (settleAccrued state nft ctx.currentHeight) := by simp
  have custody := releaseCustody_within released ran
  have counted : Within [.collections] (released.deleteNft (readU64At tx.payload 0))
      (uncountMinted (released.deleteNft (readU64At tx.payload 0)) nft.collectionId) := by
    simp
  have last : Within [.nfts, .collections] released
      (uncountMinted (released.deleteNft (readU64At tx.payload 0)) nft.collectionId) := by
    simp
  have settledCoins : (settleAccrued state nft ctx.currentHeight).coinage = state.coinage :=
    settled.same .tokens (by decide)
  have coins := Eq.trans (last.same .tokens (by decide)) (custody.same .tokens (by decide))
  have released : released.tree.nfts = state.tree.nfts :=
    Eq.trans (custody.same .nfts (by decide)) (settled.same .nfts (by decide))
  have balances : (settleAccrued state nft ctx.currentHeight).tree.tokenBalances =
      state.tree.tokenBalances := settled.same .balances (by decide)
  unfold getTokenBalance at covers
  rw [balances] at covers
  refine .burnsNft kind nft found covers ?_ ?_ ?_ ?_
  · exact (congrArg Coinage.tokens coins).trans (congrArg Coinage.tokens settledCoins)
  · have supplies : (settleAccrued state nft ctx.currentHeight).tree.tokenSupplies =
        state.tree.tokenSupplies := congrArg Coinage.supplies settledCoins
    unfold putTokenSupply
    rw [← supplies]
    exact congrArg Coinage.supplies coins
  · refine Eq.trans (counted.same .nfts (by decide)) ?_
    rw [tree_deleteNft, released]
  · exact (congrArg Coinage.nextTokenId coins).trans (congrArg Coinage.nextTokenId settledCoins)

/-- An NFT that was read is written back with its owner and its shadow token. -/
theorem nftRewrite_putNft {nftId : Nat} {old new : NftInfo}
    (found : state.getNft nftId = some old) (sameId : new.id = old.id)
    (sameOwner : new.owner = old.owner) (sameShadow : new.shadowTokenId = old.shadowTokenId) :
    NftRewrite state.tree.nfts (state.putNft new).tree.nfts := by
  obtain ⟨stored, valid⟩ := Option.filter_eq_some_iff.mp found
  refine .put state.tree.nfts nftId old
    { new with
      shadowTokenId := u32 new.shadowTokenId
      underlyingTokenId := u32 new.underlyingTokenId } stored valid sameId sameOwner ?_
  show u32 new.shadowTokenId = _
  rw [sameShadow]

theorem executeUpdateNftMetadata_effect (kind : tx.txType = .updateNftMetadata) :
    Ensures (TokenEffect state tx) (executeUpdateNftMetadata state tx) := by
  simp only [executeUpdateNftMetadata, do_iff, pure_iff]
  intro _ _ _ _ _ _ _ _ _ _ nft found _ _ _ _ _ _
  refine .none (by rw [kind]; rfl) rfl rfl (.single ?_) rfl
  exact nftRewrite_putNft found rfl rfl rfl

/-- A handler that writes NFTs back and no tokens does no more than that. -/
theorem TokenEffect.of_rewrites {parts : List Part} {after : StateAccess}
    (kind : writesTokens tx.txType = false) (within : Within parts state after)
    (noTokens : .tokens ∉ parts)
    (nfts : ReflTransGen NftRewrite state.tree.nfts after.tree.nfts) : TokenEffect state tx after := by
  have coins : after.coinage = state.coinage := within.same .tokens noTokens
  exact .none kind (congrArg Coinage.tokens coins) (congrArg Coinage.supplies coins) nfts
    (congrArg Coinage.nextTokenId coins)

theorem executeTopUpNft_effect (kind : tx.txType = .topUpNft) :
    Ensures (TokenEffect state tx) (executeTopUpNft crypto state tx) := by
  intro after topped
  refine .of_rewrites (by rw [kind]; rfl) (executeTopUpNft_within after topped) (by decide) ?_
  simp only [executeTopUpNft, Option.pure_def, Option.bind_eq_bind, Option.bind_eq_some_iff]
    at topped
  obtain ⟨_, _, _, _, nft, found, _, _, debited, ran, done⟩ := topped
  have paid := debitToken_within debited ran
  have held : (creditToken debited (nftAddress crypto (readU64At tx.payload 0))
      (readU32At tx.payload 8) (readU64At tx.payload 12)).tree.nfts = state.tree.nfts :=
    (by simp [paid] : Within [.accounts, .balances] state _).same .nfts (by decide)
  generalize creditToken debited (nftAddress crypto (readU64At tx.payload 0))
    (readU32At tx.payload 8) (readU64At tx.payload 12) = middle at held done
  split at done
  · cases done
    have foundHeld : middle.getNft (readU64At tx.payload 0) = some nft := by
      unfold getNft
      rw [held]
      exact found
    rw [← held]
    exact .single (nftRewrite_putNft foundHeld rfl rfl rfl)
  · cases done
    rw [held]

theorem executeClaimNftReward_effect (kind : tx.txType = .claimNftReward) :
    Ensures (TokenEffect state tx) (executeClaimNftReward state tx ctx) := by
  intro after claimed
  refine .of_rewrites (by rw [kind]; rfl) (executeClaimNftReward_within after claimed)
    (by decide) ?_
  have walked := @foldl_keeps (StateAccess × Nat) Nat
    (fun walk => ReflTransGen NftRewrite state.tree.nfts walk.1.tree.nfts)
    (claimOne ctx.currentHeight) (state.nftIdsForOwner tx.sender) ?_ (state, 0) .refl
  · simp only [executeClaimNftReward, Option.pure_def, Option.bind_eq_bind,
      Option.bind_eq_some_iff] at claimed
    obtain ⟨_, _, done⟩ := claimed
    split at done
    · cases done
      rw [nfts_putAccount]
      exact walked
    · cases done
      exact walked
  · intro nftId _ walk kept
    rcases claimOne_eq ctx.currentHeight nftId walk with same | ⟨nft, total, found, stored⟩
    · rw [same]
      exact kept
    · rw [stored]
      exact kept.tail (nftRewrite_putNft found rfl rfl rfl)

/-- A handler does to tokens, supplies and NFTs what `TokenEffect` says, and nothing else. -/
theorem dispatch_tokenEffect :
    Ensures (fun done => TokenEffect state tx done.1) (dispatch crypto state tx ctx) := by
  by_cases quiet : .tokens ∉ handlerParts tx.txType ∧ .nfts ∉ handlerParts tx.txType
  · have kind : writesTokens tx.txType = false := by
      cases kind : tx.txType <;> rw [kind] at quiet <;> first | rfl | simp [handlerParts] at quiet
    -- a handler that writes no token and no NFT has no effect on them
    refine dispatch_within.mono fun done within => ?_
    have coins : done.1.coinage = state.coinage := within.same .tokens quiet.1
    have nfts : done.1.tree.nfts = state.tree.nfts := within.same .nfts quiet.2
    exact .none kind (congrArg Coinage.tokens coins) (congrArg Coinage.supplies coins) (nfts ▸ .refl)
      (congrArg Coinage.nextTokenId coins)
  · unfold dispatch
    cases kind : tx.txType <;> rw [kind] at quiet <;>
      simp [handlerParts] at quiet <;> simp only [map_iff]
    case createToken => exact executeCreateToken_effect kind
    case mintToken => exact executeMintToken_effect kind
    case burnToken => exact executeBurnToken_effect kind
    case updateTokenMeta => exact executeUpdateTokenMeta_effect kind
    case mintNft => exact executeMintNft_effect kind
    case wrapNft => exact executeWrapNft_effect kind
    case transferNft => exact executeTransferNft_effect kind
    case burnNft => exact executeBurnNft_effect kind
    case updateNftMetadata => exact executeUpdateNftMetadata_effect kind
    case topUpNft => exact executeTopUpNft_effect kind
    case claimNftReward => exact executeClaimNftReward_effect kind

end TransactionExecutor

end Clarity.Core
