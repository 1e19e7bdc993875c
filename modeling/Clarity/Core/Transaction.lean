import Clarity.Config
import Clarity.Crypto.Types

/-!
Contract: transactions, as `Core/TransactionTypes.h` and `Core/Transaction.cpp` have them.

Owns: the transaction types with their codes, the transaction record, its structural
check, its signing hash and its wire format.
-/

namespace Clarity.Core

open Common Crypto Reader

/-- `TxType`. The wire carries one byte, so a value may also be one without a name. -/
inductive TxType
  | transfer
  | optInStaking
  | optOutStaking
  | claimRewards
  | registerValidator
  | unregisterValidator
  | updateRewardAddress
  | rotateConsensusKey
  | createPool
  | addLiquidity
  | removeLiquidity
  | swap
  | createOrder
  | cancelOrder
  | createNftCollection
  | mintNft
  | wrapNft
  | transferNft
  | burnNft
  | updateNftMetadata
  | topUpNft
  | claimNftReward
  | refillCollectionReward
  | createToken
  | mintToken
  | burnToken
  | updateTokenMeta
  | blockReward
  | orderExpired
  | slash
  | invalid
  | unnamed (code : Nat)
deriving DecidableEq, Repr, Inhabited

namespace TxType

def code : TxType → Nat
  | transfer => 0x00
  | optInStaking => 0x10
  | optOutStaking => 0x11
  | claimRewards => 0x12
  | registerValidator => 0x20
  | unregisterValidator => 0x21
  | updateRewardAddress => 0x22
  | rotateConsensusKey => 0x23
  | createPool => 0x30
  | addLiquidity => 0x31
  | removeLiquidity => 0x32
  | swap => 0x33
  | createOrder => 0x40
  | cancelOrder => 0x41
  | createNftCollection => 0x42
  | mintNft => 0x43
  | wrapNft => 0x44
  | transferNft => 0x45
  | burnNft => 0x46
  | updateNftMetadata => 0x47
  | topUpNft => 0x48
  | claimNftReward => 0x49
  | refillCollectionReward => 0x4A
  | createToken => 0x50
  | mintToken => 0x51
  | burnToken => 0x52
  | updateTokenMeta => 0x53
  | blockReward => 0xF0
  | orderExpired => 0xF1
  | slash => 0xF2
  | invalid => 0xFF
  | unnamed code => code

def named : List TxType :=
  [transfer, optInStaking, optOutStaking, claimRewards, registerValidator, unregisterValidator,
    updateRewardAddress, rotateConsensusKey, createPool, addLiquidity, removeLiquidity, swap,
    createOrder, cancelOrder, createNftCollection, mintNft, wrapNft, transferNft, burnNft,
    updateNftMetadata, topUpNft, claimNftReward, refillCollectionReward, createToken, mintToken,
    burnToken, updateTokenMeta, blockReward, orderExpired, slash, invalid]

def ofCode (byte : Nat) : TxType := (named.find? fun type => type.code == byte).getD (unnamed byte)

def isSystemTx (type : TxType) : Bool := type.code ≥ 0xF0 && type != invalid

/-- `txTypeName`; the rotation of a key has no name of its own in the source. -/
def name : TxType → String
  | transfer => "transfer"
  | optInStaking => "optin-staking"
  | optOutStaking => "optout-staking"
  | claimRewards => "claim-rewards"
  | registerValidator => "register-validator"
  | unregisterValidator => "unregister-validator"
  | updateRewardAddress => "update-reward-address"
  | createPool => "create-pool"
  | addLiquidity => "add-liquidity"
  | removeLiquidity => "remove-liquidity"
  | swap => "swap"
  | createOrder => "create-order"
  | cancelOrder => "cancel-order"
  | createNftCollection => "CreateNftCollection"
  | mintNft => "MintNft"
  | wrapNft => "WrapNft"
  | transferNft => "TransferNft"
  | burnNft => "BurnNft"
  | updateNftMetadata => "UpdateNftMetadata"
  | topUpNft => "TopUpNft"
  | claimNftReward => "ClaimNftReward"
  | refillCollectionReward => "RefillCollectionReward"
  | createToken => "create-token"
  | mintToken => "mint-token"
  | burnToken => "burn-token"
  | updateTokenMeta => "update-token-meta"
  | blockReward => "block-reward"
  | orderExpired => "order-expired"
  | slash => "slash"
  | invalid => "invalid"
  | rotateConsensusKey | unnamed _ => "unknown"

end TxType

def TX_MAX_PAYLOAD_SIZE : Nat := 64 * 1024

structure Transaction where
  version : Nat := GlobalConfig.CURRENT_TRANSACTION_VERSION
  chainId : Nat := 0
  txType : TxType := .invalid
  nonce : Nat := 0
  validUntilHeight : Nat := 0
  sender : Address := 0
  recipient : Address := 0
  tokenId : Nat := 0
  amount : Nat := 0
  fee : Nat := 0
  payload : Bytes := []
  signature : Signature := 0
deriving DecidableEq, Repr, Inhabited

namespace Transaction

/-- `Transaction::isWellFormed`; `sender` and `recipient` are the source's `from` and `to`. -/
def isWellFormed (tx : Transaction) : Bool :=
  if tx.version ≠ GlobalConfig.CURRENT_TRANSACTION_VERSION then false
  else if tx.chainId = 0 then false
  else if tx.txType = .invalid then false
  else if tx.payload.length > TX_MAX_PAYLOAD_SIZE then false
  else if tx.txType.isSystemTx then !tx.payload.isEmpty
  else if isNull tx.sender then false
  else !(tx.amount == 0 && tx.fee == 0 && tx.payload.isEmpty)

/-- `serializeForSigning`; the token id is written in four bytes. -/
def serializeForSigning (tx : Transaction) : Bytes :=
  putU16 tx.version ++ putU64 tx.chainId ++ putU8 tx.txType.code ++ putU64 tx.nonce ++
    putU64 tx.validUntilHeight ++ bytes32 tx.sender ++ bytes32 tx.recipient ++ putU32 tx.tokenId ++
    putU64 tx.amount ++ putU64 tx.fee ++ putU32 tx.payload.length ++ tx.payload

def serialize (tx : Transaction) : Bytes := tx.serializeForSigning ++ bytes64 tx.signature

def TX_DOMAIN : Bytes := putText "CLRTY_TX_V1".toList

def signingHash (crypto : Primitives) (tx : Transaction) : Hash :=
  crypto.hashDomain TX_DOMAIN tx.serializeForSigning

def txid (crypto : Primitives) (tx : Transaction) : Hash := tx.signingHash crypto

def readTransaction : Reader Transaction := do
  let version ← readU16
  let chainId ← readU64
  let txType ← readU8
  let nonce ← readU64
  let validUntilHeight ← readU64
  let sender ← readBytes32
  let recipient ← readBytes32
  let tokenId ← readU32
  let amount ← readU64
  let fee ← readU64
  let payloadSize ← readU32
  require (payloadSize ≤ TX_MAX_PAYLOAD_SIZE)
  let payload ← readVector payloadSize
  let signature ← readBytes64
  let left ← remaining
  require (left == 0)
  let tx : Transaction :=
    { version, chainId, txType := .ofCode txType, nonce, validUntilHeight, sender, recipient,
      tokenId, amount, fee, payload, signature }
  require tx.isWellFormed
  pure tx

def deserialize (data : Bytes) : Option Transaction := readTransaction.run' data

end Transaction

end Clarity.Core
