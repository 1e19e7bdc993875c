import Clarity.Core.Executor.Ledger

/-!
Contract: the NFT handlers of `Core/TransactionExecutor.cpp`.

Owns: `executeCreateNftCollection` to `executeRefillCollectionReward`; none of them changes a
nonce or the validator registry.
-/

namespace Clarity.Core

open Common Crypto Library State State.StateAccess

namespace TransactionExecutor

variable (crypto : Primitives) (state : StateAccess) (tx : Transaction) (ctx : TxExecutionContext)

/-! ## Collections -/

/-- A text whose length stands in front of it, in `width` bytes, with the offset after it. -/
def readTextAt (width : Nat) (payload : Bytes) (offset : Nat) : Option (Bytes × Nat) := do
  guard (offset + width ≤ payload.length)
  let length := readUIntAt width payload offset
  guard (offset + width + length ≤ payload.length)
  pure (sliceAt payload (offset + width) length, offset + width + length)

/-- The counters of collections and NFTs: zero stands for a missing counter. -/
def nextIdOf (name : GlobalName) : Nat :=
  if state.getGlobalU64 name = 0 then 1 else state.getGlobalU64 name

/-- The collection a payload describes, and the amount its escrow is funded with. -/
def readCollection (nextId height : Nat) : Option (NftCollection × Nat) := do
  let (name, symbolAt) ← readTextAt 1 tx.payload 0
  let (symbol, uriAt) ← readTextAt 1 tx.payload symbolAt
  let (baseUri, rewardAt) ← readTextAt 2 tx.payload uriAt
  guard (rewardAt + 4 + 8 + 8 ≤ tx.payload.length)
  pure
    ({ id := nextId
       creator := tx.sender
       name := name
       symbol := symbol
       baseUri := baseUri
       rewardTokenId := readU32At tx.payload rewardAt
       rewardRatePerEpoch := readU64At tx.payload (rewardAt + 4)
       createdAtHeight := height },
      readU64At tx.payload (rewardAt + 12))

def executeCreateNftCollection : Option StateAccess := do
  let nextId := nextIdOf state .nextCollectionId
  let (collection, escrow) ← readCollection tx nextId ctx.currentHeight
  guard (collection.isValid = true)
  let debited ←
    if escrow > 0 then debitToken state tx.sender collection.rewardTokenId escrow else some state
  -- a zero escrow credits nothing, so the credit is common to both cases
  let funded := creditToken debited (nftCollectionAddress crypto collection.id)
    collection.rewardTokenId escrow
  pure ((funded.putNftCollection { collection with rewardEscrowRemaining := escrow }).putGlobal
    .nextCollectionId (collection.id + 1))

def executeRefillCollectionReward : Option StateAccess := do
  guard (tx.payload.length = 16)
  let collectionId := readU64At tx.payload 0
  let amount := readU64At tx.payload 8
  guard (amount ≠ 0)
  let collection ← state.getNftCollection collectionId
  guard (collection.hasReward = true)
  guard (collection.creator = tx.sender)
  let debited ← debitToken state tx.sender collection.rewardTokenId amount
  let credited := creditToken debited (nftCollectionAddress crypto collectionId)
    collection.rewardTokenId amount
  let remaining := u64 (collection.rewardEscrowRemaining + amount)
  pure (credited.putNftCollection
    { collection with
      rewardEscrowRemaining := remaining
      rewardPaused := if collection.rewardPaused ∧ remaining > 0 then false
        else collection.rewardPaused })

/-! ## Minting -/

/-- The metadata at an offset of a payload: hash, flag and uri. -/
def readMetadata (payload : Bytes) (offset : Nat) : Option (Hash × Bytes) := do
  let metadataHash : Hash := read32At payload offset
  let hasHash := readU8At payload (offset + 32)
  guard (hasHash ≤ 1)
  guard (¬(hasHash = 0 ∧ isNull metadataHash = false))
  let (uri, _) ← readTextAt 2 payload (offset + 33)
  guard (uri.length ≤ NFT_URI_MAX)
  pure (if hasHash = 0 then 0 else metadataHash, uri)

/-- The collection an NFT is minted into, if one is asked for. -/
def findCollection (collectionId : Nat) : Option (Option NftCollection) :=
  if collectionId = 0 then some none
  else (state.getNftCollection collectionId).map some

def shadowToken (collection : Option NftCollection) (creator : Address) (nftId : Nat) : TokenInfo :=
  let number := putText (Nat.toDigits 10 nftId)
  { id := nftId
    decimals := 0
    maxSupply := 1
    creator := creator
    backing := .unbacked
    name := match collection with
      | some collection => collection.name ++ putText " #".toList ++ number
      | none => putText "NFT #".toList ++ number
    symbol := match collection with
      | some collection => collection.symbol
      | none => putText "NFT".toList }

/-- The writes the two minting handlers share, after the custody of a wrapped token was taken. -/
def mint (shadow : TokenInfo) (nft : NftInfo)
    (collection : Option NftCollection) : Option StateAccess := do
  let shadowed := ((state.putToken shadow).putTokenSupply shadow.id 1).putTokenBalance nft.owner
    shadow.id 1
  guard (nft.isValid = true)
  let stored := shadowed.putNft nft
  let counted := match collection with
    | some collection =>
      stored.putNftCollection { collection with mintedCount := u64 (collection.mintedCount + 1) }
    | none => stored
  pure (counted.putGlobal .nextTokenId (nft.id + 1))

def newNft (owner : Address) (nftId underlying wrapped collectionId height : Nat)
    (metadata : Hash × Bytes) : NftInfo :=
  { id := nftId
    owner := owner
    creator := owner
    shadowTokenId := nftId
    underlyingTokenId := underlying
    wrappedAmount := wrapped
    collectionId := collectionId
    metadataHash := metadata.1
    metadataUri := metadata.2
    lastAccrualHeight := height
    createdAtHeight := height }

def executeMintNft : Option StateAccess := do
  guard (8 + 32 + 1 + 2 ≤ tx.payload.length)
  let collectionId := readU64At tx.payload 0
  let metadata ← readMetadata tx.payload 8
  let collection ← findCollection state collectionId
  let nftId := nextIdOf state .nextTokenId
  let shadow := shadowToken collection tx.sender nftId
  guard (shadow.isValid = true)
  mint state shadow (newNft tx.sender nftId 0 0 collectionId ctx.currentHeight metadata) collection

def executeWrapNft : Option StateAccess := do
  guard (4 + 8 + 8 + 32 + 1 + 2 ≤ tx.payload.length)
  let underlying := readU32At tx.payload 0
  let wrapped := readU64At tx.payload 4
  let collectionId := readU64At tx.payload 12
  let metadata ← readMetadata tx.payload 20
  guard (underlying ≠ 0)
  guard (wrapped ≠ 0)
  let collection ← findCollection state collectionId
  let nftId := nextIdOf state .nextTokenId
  guard (underlying ≠ nftId)
  let shadow := shadowToken collection tx.sender nftId
  guard (shadow.isValid = true)
  let debited ← debitToken state tx.sender underlying wrapped
  let held := creditToken debited (nftAddress crypto nftId) underlying wrapped
  mint held shadow (newNft tx.sender nftId underlying wrapped collectionId ctx.currentHeight metadata)
    collection

/-! ## Rewards of a holder -/

/-- What an NFT has accrued since its last settlement, in whole epochs. -/
def accruedReward (nft : NftInfo) (collection : NftCollection) (height : Nat) : Nat :=
  u64 (sub64 height nft.lastAccrualHeight / ROTATION_INTERVAL * collection.rewardRatePerEpoch)

/-- The reward-bearing collection of an NFT. -/
def rewardCollection (nft : NftInfo) : Option NftCollection :=
  if nft.collectionId = 0 then none
  else (state.getNftCollection nft.collectionId).filter NftCollection.hasReward

/-- The settlement a transfer and a burn make before anything else. -/
def settleAccrued (nft : NftInfo) (height : Nat) : StateAccess :=
  match rewardCollection state nft with
  | none => state
  | some collection =>
    let accrued := accruedReward nft collection height
    if accrued > 0 then
      let account := state.getAccount nft.owner
      state.putAccount nft.owner
        { account with pendingRewards := u64 (account.pendingRewards + accrued) }
    else state

/-- One NFT of the walk of `executeClaimNftReward`: the state and the sum claimed so far. -/
def claimOne (height : Nat) (walk : StateAccess × Nat) (nftId : Nat) : StateAccess × Nat :=
  match walk.1.getNft nftId with
  | none => walk
  | some nft =>
    match rewardCollection walk.1 nft with
    | none => walk
    | some collection =>
      let accrued := accruedReward nft collection height
      if accrued = 0 then walk
      else
        (walk.1.putNft { nft with lastAccrualHeight := height, accruedOwed := 0 },
          u64 (walk.2 + accrued))

def executeClaimNftReward : Option StateAccess := do
  guard (tx.payload.isEmpty = true)
  -- the account is read before the walk, which writes NFT records only
  let account := state.getAccount tx.sender
  let claimed := (state.nftIdsForOwner tx.sender).foldl (claimOne ctx.currentHeight) (state, 0)
  if claimed.2 > 0 then
    pure (claimed.1.putAccount tx.sender
      { account with pendingRewards := u64 (account.pendingRewards + claimed.2) })
  else pure claimed.1

/-! ## Moving and changing NFTs -/

def executeTransferNft : Option StateAccess := do
  guard (tx.payload.length = 8 + 32)
  let nftId := readU64At tx.payload 0
  let newOwner : Address := read32At tx.payload 8
  guard (isNull newOwner = false)
  let nft ← state.getNft nftId
  guard (nft.owner = tx.sender)
  guard (nft.owner ≠ newOwner)
  let settled := settleAccrued state nft ctx.currentHeight
  let shadowBalance := settled.getTokenBalance nft.owner nft.shadowTokenId
  guard (1 ≤ shadowBalance)
  let sold := settled.putTokenBalance nft.owner nft.shadowTokenId (shadowBalance - 1)
  let bought := sold.putTokenBalance newOwner nft.shadowTokenId
    (u64 (sold.getTokenBalance newOwner nft.shadowTokenId + 1))
  pure ((bought.unindexNft nft).putNft
    { nft with owner := newOwner, lastAccrualHeight := ctx.currentHeight, accruedOwed := 0 })

/-- The custody of a wrapped NFT goes back to its owner. -/
def releaseCustody (nft : NftInfo) (nftId : Nat) : Option StateAccess :=
  if nft.isWrapped ∧ nft.wrappedAmount > 0 then do
    let debited ← debitToken state (nftAddress crypto nftId) nft.underlyingTokenId nft.wrappedAmount
    pure (creditToken debited nft.owner nft.underlyingTokenId nft.wrappedAmount)
  else some state

/-- A burn reduces the number of minted NFTs of the collection. -/
def uncountMinted (collectionId : Nat) : StateAccess :=
  if collectionId = 0 then state
  else match state.getNftCollection collectionId with
  | none => state
  | some collection =>
    state.putNftCollection { collection with mintedCount := collection.mintedCount - 1 }

def executeBurnNft : Option StateAccess := do
  guard (tx.payload.length = 8)
  let nftId := readU64At tx.payload 0
  let nft ← state.getNft nftId
  guard (nft.owner = tx.sender)
  let settled := settleAccrued state nft ctx.currentHeight
  let shadowBalance := settled.getTokenBalance nft.owner nft.shadowTokenId
  guard (1 ≤ shadowBalance)
  let burned := (settled.putTokenBalance nft.owner nft.shadowTokenId
    (shadowBalance - 1)).putTokenSupply nft.shadowTokenId 0
  let released ← releaseCustody crypto burned nft nftId
  pure (uncountMinted (released.deleteNft nftId) nft.collectionId)

def executeUpdateNftMetadata : Option StateAccess := do
  guard (8 + 32 + 1 + 2 ≤ tx.payload.length)
  let nftId := readU64At tx.payload 0
  let hasHash := readU8At tx.payload 40
  guard (hasHash ≤ 1)
  let newHash : Hash := if hasHash = 0 then 0 else read32At tx.payload 8
  let uriLength := readU16At tx.payload 41
  guard (43 + uriLength + 1 ≤ tx.payload.length)
  let newUri := sliceAt tx.payload 43 uriLength
  let freeze := readU8At tx.payload (43 + uriLength)
  guard (freeze ≤ 1)
  guard (newUri.length ≤ NFT_URI_MAX)
  let nft ← state.getNft nftId
  guard (nft.owner = tx.sender)
  guard (nft.frozen = false)
  let updated : NftInfo :=
    { nft with
      metadataHash := newHash
      metadataUri := newUri
      frozen := freeze == 1 }
  guard (updated.isValid = true)
  pure (state.putNft updated)

def executeTopUpNft : Option StateAccess := do
  guard (tx.payload.length = 8 + 4 + 8)
  let nftId := readU64At tx.payload 0
  let tokenId := readU32At tx.payload 8
  let amount := readU64At tx.payload 12
  guard (amount ≠ 0)
  let nft ← state.getNft nftId
  guard (¬(nft.isWrapped = true ∧ tokenId ≠ nft.underlyingTokenId))
  let debited ← debitToken state tx.sender tokenId amount
  let held := creditToken debited (nftAddress crypto nftId) tokenId amount
  if nft.isWrapped = true ∧ tokenId = nft.underlyingTokenId then
    pure (held.putNft { nft with wrappedAmount := u64 (nft.wrappedAmount + amount) })
  else pure held

/-! ## What the handlers can change -/

variable {before : StateAccess} {crypto state tx ctx}

theorem executeCreateNftCollection_within :
    Ensures (Within [.accounts, .balances, .collections] state)
      (executeCreateNftCollection crypto state tx ctx) := by
  simp [executeCreateNftCollection, debitToken]

theorem executeRefillCollectionReward_within :
    Ensures (Within [.accounts, .balances, .collections] state)
      (executeRefillCollectionReward crypto state tx) := by
  simp [executeRefillCollectionReward, debitToken]

/-- The parts of the state that a mint writes. -/
abbrev mintParts : List Part := [.accounts, .balances, .tokens, .nfts, .collections]

theorem mint_within {shadow : TokenInfo} {nft : NftInfo} {collection : Option NftCollection}
    (keeps : Within mintParts before state) :
    Ensures (Within mintParts before) (mint state shadow nft collection) := by
  simp only [mint, Ensures.do_iff, Ensures.pure_iff]
  intros
  cases collection <;> simpa using keeps

theorem executeMintNft_within : Ensures (Within mintParts state) (executeMintNft state tx ctx) := by
  simp [executeMintNft, mint_within]

theorem executeWrapNft_within :
    Ensures (Within mintParts state) (executeWrapNft crypto state tx ctx) := by
  simp only [executeWrapNft, Ensures.do_iff]
  intro _ _ _ _ _ _ _ _ _ _ _ _ _ _ debited ran
  apply mint_within
  have paid : Within mintParts state debited := (debitToken_within debited ran).mono (by decide)
  simpa using paid

@[simp] theorem within_settleAccrued {parts : List Part} {nft : NftInfo} {height : Nat}
    (member : .accounts ∈ parts) :
    Peels parts state (settleAccrued state nft height) := by
  unfold settleAccrued
  split
  · rfl
  · dsimp only
    split <;> simp [member]

/-- One step of the walk writes at most one NFT record, the one it read. -/
theorem claimOne_eq (height nftId : Nat) (walk : StateAccess × Nat) :
    claimOne height walk nftId = walk ∨
      ∃ nft total, walk.1.getNft nftId = some nft ∧
        claimOne height walk nftId =
          (walk.1.putNft { nft with lastAccrualHeight := height, accruedOwed := 0 }, total) := by
  unfold claimOne
  split
  · exact .inl rfl
  next nft found =>
    split
    · exact .inl rfl
    · dsimp only
      split
      · exact .inl rfl
      · exact .inr ⟨nft, _, found, rfl⟩

theorem claims_within {height : Nat} (nftIds : List Nat) :
    Within [.accounts, .nfts] state (nftIds.foldl (claimOne height) (state, 0)).1 := by
  refine Within.foldl_fst (fun walk nftId => ?_) nftIds (state, 0)
  rcases claimOne_eq height nftId walk with same | ⟨nft, total, _, stored⟩
  · rw [same]
    exact .refl _ _
  · simp [stored]

theorem executeClaimNftReward_within :
    Ensures (Within [.accounts, .nfts] state) (executeClaimNftReward state tx ctx) := by
  have walked := @claims_within state ctx.currentHeight (state.nftIdsForOwner tx.sender)
  have sameNonce := congrFun (walked.same .nonces (by decide)) tx.sender
  simp only [nonce] at sameNonce
  simp [executeClaimNftReward, walked, sameNonce]

theorem executeTransferNft_within :
    Ensures (Within [.accounts, .balances, .nfts] state) (executeTransferNft state tx ctx) := by
  simp [executeTransferNft]

theorem releaseCustody_within {nft : NftInfo} {nftId : Nat} :
    Ensures (Within [.accounts, .balances] state) (releaseCustody crypto state nft nftId) := by
  simp [releaseCustody, debitToken]

@[simp] theorem within_uncountMinted {parts : List Part} {collectionId : Nat}
    (member : .collections ∈ parts) :
    Peels parts state (uncountMinted state collectionId) := by
  unfold uncountMinted
  split
  · rfl
  · split <;> simp [member]

theorem executeBurnNft_within :
    Ensures (Within mintParts state) (executeBurnNft crypto state tx ctx) := by
  simp only [executeBurnNft, Ensures.do_iff, Ensures.pure_iff]
  intro _ _ nft _ _ _ _ _ released ran
  have kept := (releaseCustody_within released ran).mono (by decide : _ ⊆ mintParts)
  rw [within_uncountMinted (by decide), within_deleteNft (by decide)]
  exact Within.trans (by simp) kept

theorem executeUpdateNftMetadata_within :
    Ensures (Within [.nfts] state) (executeUpdateNftMetadata state tx) := by
  simp [executeUpdateNftMetadata]

theorem executeTopUpNft_within :
    Ensures (Within [.accounts, .balances, .nfts] state) (executeTopUpNft crypto state tx) := by
  simp [executeTopUpNft, debitToken]

end TransactionExecutor

end Clarity.Core
