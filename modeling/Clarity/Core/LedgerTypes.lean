import Clarity.Config
import Clarity.Crypto.Types

/-!
Contract: the records of accounts, tokens, NFTs and validator key histories, as
`Core/Account.h`, `Core/TokenTypes.h`, `Core/NftTypes.h` and `Core/KeyRotation.cpp` have them.

Owns: the records with their validity checks, the staking rule of an account, and the
capacity of the key history codec.

Texts are byte strings. A record is stored as it is: the codecs are not modelled, except that
a stored record that its decoder refuses is read as absent.
-/

namespace Clarity.Core

open Common Crypto

/-! ## Accounts -/

structure Account where
  nonce : Nat := 0
  balance : Nat := 0
  staked : Nat := 0
  pendingRewards : Nat := 0
  lastRewardEpoch : Nat := 0
  stakerSinceHeight : Nat := 0
  createdAtHeight : Nat := 0
  stakingOptedOut : Bool := false
deriving DecidableEq, Repr, Inhabited

/-- `Account::recalculateStaked`: the whole balance is staked, from the threshold on. -/
def Account.recalculateStaked (account : Account) (autoStakeThreshold : Nat) : Account :=
  { account with
    staked :=
      if account.stakingOptedOut ∨ account.balance < autoStakeThreshold then 0
      else account.balance }

/-! ## Tokens -/

/-- `BackingModel`; a payload byte is cast without a check. -/
inductive BackingModel
  | unbacked
  | backed
  | hybrid
  | unnamed (code : Nat)
deriving DecidableEq, Repr, Inhabited

/-- `static_cast<BackingModel>` of a byte. -/
def BackingModel.ofCode : Nat → BackingModel
  | 0 => unbacked
  | 1 => backed
  | 2 => hybrid
  | code => unnamed code

def TOKEN_NAME_MAX : Nat := 64
def TOKEN_SYMBOL_MIN : Nat := 3
def TOKEN_SYMBOL_MAX : Nat := 8

structure TokenInfo where
  id : Nat := 0
  name : Bytes := []
  symbol : Bytes := []
  decimals : Nat := 5
  creator : Address := 0
  backing : BackingModel := .unbacked
  maxSupply : Nat := 0
  royaltyBps : Nat := 0
  fingerprint : Option Hash := none
deriving DecidableEq, Repr, Inhabited

def TokenInfo.isValid (token : TokenInfo) : Bool :=
  token.symbol.length ≥ TOKEN_SYMBOL_MIN && token.symbol.length ≤ TOKEN_SYMBOL_MAX &&
    !token.name.isEmpty && token.name.length ≤ TOKEN_NAME_MAX && token.decimals ≤ 18 &&
    token.royaltyBps ≤ 10000

/-! ## NFTs -/

def NFT_URI_MAX : Nat := 512
def NFT_COLLECTION_NAME_MAX : Nat := TOKEN_NAME_MAX
def NFT_COLLECTION_SYMBOL_MAX : Nat := TOKEN_SYMBOL_MAX

structure NftInfo where
  id : Nat := INVALID_ID
  owner : Address := 0
  creator : Address := 0
  shadowTokenId : Nat := 0
  underlyingTokenId : Nat := 0
  wrappedAmount : Nat := 0
  collectionId : Nat := 0
  metadataHash : Hash := 0
  metadataUri : Bytes := []
  frozen : Bool := false
  lastAccrualHeight : Nat := 0
  accruedOwed : Nat := 0
  createdAtHeight : Nat := 0
deriving DecidableEq, Repr, Inhabited

namespace NftInfo

def isWrapped (nft : NftInfo) : Bool := nft.underlyingTokenId != 0

def isValid (nft : NftInfo) : Bool :=
  nft.id != INVALID_ID && !isNull nft.owner && !isNull nft.creator && nft.shadowTokenId != 0 &&
    !(nft.underlyingTokenId == 0 && nft.wrappedAmount != 0) &&
    !(nft.underlyingTokenId != 0 && nft.wrappedAmount == 0) &&
    nft.underlyingTokenId != nft.shadowTokenId && nft.metadataUri.length ≤ NFT_URI_MAX

end NftInfo

structure NftCollection where
  id : Nat := INVALID_ID
  creator : Address := 0
  name : Bytes := []
  symbol : Bytes := []
  baseUri : Bytes := []
  rewardTokenId : Nat := 0
  rewardRatePerEpoch : Nat := 0
  rewardEscrowRemaining : Nat := 0
  rewardPaused : Bool := false
  createdAtHeight : Nat := 0
  mintedCount : Nat := 0
deriving DecidableEq, Repr, Inhabited

namespace NftCollection

def hasReward (collection : NftCollection) : Bool :=
  collection.rewardTokenId != 0 && collection.rewardRatePerEpoch > 0

def isValid (collection : NftCollection) : Bool :=
  collection.id != INVALID_ID && !isNull collection.creator && !collection.name.isEmpty &&
    collection.name.length ≤ NFT_COLLECTION_NAME_MAX &&
    collection.symbol.length ≥ TOKEN_SYMBOL_MIN &&
    collection.symbol.length ≤ NFT_COLLECTION_SYMBOL_MAX &&
    collection.baseUri.length ≤ NFT_URI_MAX &&
    (if collection.rewardTokenId = 0 then
      collection.rewardRatePerEpoch == 0 && collection.rewardEscrowRemaining == 0
    else collection.rewardRatePerEpoch != 0)

end NftCollection

/-! ## Key histories -/

/-- `KeyRotation`: a key with the half-open interval of heights it signs at; `0` is open. -/
structure KeyRotation where
  key : PublicKey := 0
  validFromHeight : Nat := 0
  validUntilHeight : Nat := 0
deriving DecidableEq, Repr, Inhabited

def MAX_KEY_ROTATIONS : Nat := 1024

/-- `decodeKeyHistory` of an encoded history: the encoder writes any number of entries in
front of which it puts their number in 32 bits, the decoder takes at most
`MAX_KEY_ROTATIONS`. -/
def decodeKeyHistory (stored : List KeyRotation) : Option (List KeyRotation) :=
  if u32 stored.length > MAX_KEY_ROTATIONS then none
  else if stored.length ≠ u32 stored.length then none
  else some stored

theorem decodeKeyHistory_eq_some_iff {stored history : List KeyRotation} :
    decodeKeyHistory stored = some history ↔
      stored.length ≤ MAX_KEY_ROTATIONS ∧ history = stored := by
  unfold decodeKeyHistory u32 MAX_KEY_ROTATIONS
  by_cases small : stored.length ≤ 1024
  · have fits : stored.length % 2 ^ 32 = stored.length := Nat.mod_eq_of_lt (by omega)
    rw [fits, if_neg (by omega), if_neg (by simp)]
    simp [small, eq_comm]
  · have refused : ¬stored.length % 2 ^ 32 ≤ 1024 ∨ stored.length ≠ stored.length % 2 ^ 32 := by
      omega
    rcases refused with long | cut
    · rw [if_pos (by omega)]
      simp [small]
    · rw [if_pos cut]
      simp [small]

end Clarity.Core
