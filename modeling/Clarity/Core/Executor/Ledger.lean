import Clarity.Core.Matching
import Clarity.Core.Transaction

/-!
Contract: the handlers of `Core/TransactionExecutor.cpp` for transfers, staking and tokens, and
the helpers all handlers share.

Owns: the payload readers, `debitToken` and `creditToken`, the fee, and the handlers from
`executeTransfer` to `executeUpdateTokenMeta`; none of them changes a nonce or the validator
registry.

A handler returns the state after a success. After a failure every caller throws the state
away, so a failed handler returns nothing.
-/

namespace Clarity.Core

open Common Crypto Library State State.StateAccess

structure TxExecutionContext where
  currentHeight : Nat
  chainId : Nat
deriving DecidableEq, Repr

/-! ## Payloads -/

/-- `width` bytes at an offset as a little-endian number; callers check the size first. -/
def readUIntAt (width : Nat) (payload : Bytes) (offset : Nat) : Nat :=
  getUInt ((payload.drop offset).take width)

def readU8At (payload : Bytes) (offset : Nat) : Nat := readUIntAt 1 payload offset
def readU16At (payload : Bytes) (offset : Nat) : Nat := readUIntAt 2 payload offset
def readU32At (payload : Bytes) (offset : Nat) : Nat := readUIntAt 4 payload offset
def readU64At (payload : Bytes) (offset : Nat) : Nat := readUIntAt 8 payload offset

def read32At (payload : Bytes) (offset : Nat) : BitVec 256 :=
  BitVec.ofNat 256 (readUIntAt 32 payload offset)

def sliceAt (payload : Bytes) (offset length : Nat) : Bytes := (payload.drop offset).take length

namespace TransactionExecutor

variable (state : StateAccess) (tx : Transaction) (ctx : TxExecutionContext)

/-! ## Shared helpers -/

/-- `debitToken`: nothing if the balance does not cover the amount. -/
def debitToken (address : Address) (tokenId amount : Nat) : Option StateAccess :=
  if state.balanceOf address tokenId < amount then none
  else some (state.subBalance address tokenId amount)

def creditToken (address : Address) (tokenId amount : Nat) : StateAccess :=
  if amount = 0 then state else state.addBalance address tokenId amount

/-- The id counters of tokens, pools and positions: the stored number is joined with a one. -/
def nextIdOrOne (stored : Option Nat) : Nat :=
  match stored with
  | none => 1
  | some value => 1 ||| value

def chargeFee : Option StateAccess :=
  let sender := state.getAccount tx.sender
  if sender.balance < tx.fee then none
  else some (state.putAccount tx.sender { sender with balance := sender.balance - tx.fee })

def bumpNonce : StateAccess :=
  let sender := state.getAccount tx.sender
  state.putAccount tx.sender { sender with nonce := u64 (sender.nonce + 1) }

/-! ## Transfers and staking -/

/-- The native transfer: the receiver is read after the sender was written. -/
def transferNative : Option StateAccess := do
  let sender := state.getAccount tx.sender
  guard (tx.amount ≤ sender.balance)
  let paid := state.putAccount tx.sender { sender with balance := sender.balance - tx.amount }
  let receiver := paid.getAccount tx.recipient
  pure (paid.putAccount tx.recipient
    { receiver with
      balance := u64 (receiver.balance + tx.amount)
      createdAtHeight :=
        if receiver.createdAtHeight = 0 then ctx.currentHeight else receiver.createdAtHeight })

def executeTransfer : Option StateAccess := do
  guard (tx.amount ≠ 0)
  guard (isNull tx.recipient = false)
  if tx.tokenId = NATIVE_TOKEN_ID then transferNative state tx ctx
  else
    guard (tx.amount ≤ state.getTokenBalance tx.sender tx.tokenId)
    pure ((state.subBalance tx.sender tx.tokenId tx.amount).addBalance tx.recipient tx.tokenId
      tx.amount)

/-- `executeOptInStaking` and `executeOptOutStaking`: the flag the handler writes. -/
def setStakingOptedOut (optedOut : Bool) (state : StateAccess) (tx : Transaction) :
    Option StateAccess :=
  let account := { state.getAccount tx.sender with stakingOptedOut := optedOut }
  some (state.putAccount tx.sender
    (account.recalculateStaked GlobalConfig.AUTO_STAKE_THRESHOLD))

def executeOptInStaking : Option StateAccess :=
  setStakingOptedOut false state tx

def executeOptOutStaking : Option StateAccess :=
  setStakingOptedOut true state tx

def executeClaimRewards : Option StateAccess :=
  let account := state.getAccount tx.sender
  let claimed :=
    { account with balance := u64 (account.balance + account.pendingRewards), pendingRewards := 0 }
  some (state.putAccount tx.sender
    (claimed.recalculateStaked GlobalConfig.AUTO_STAKE_THRESHOLD))

/-! ## Tokens -/

def readToken (payload : Bytes) (creator : Address) (nextId : Nat) : Option TokenInfo := do
  guard (3 ≤ payload.length)
  let nameLength := readU8At payload 2
  guard (3 + nameLength + 1 ≤ payload.length)
  let symbolAt := 3 + nameLength
  let symbolLength := readU8At payload symbolAt
  guard (symbolAt + 1 + symbolLength + 8 + 2 + 1 ≤ payload.length)
  let supplyAt := symbolAt + 1 + symbolLength
  let hasFingerprint := readU8At payload (supplyAt + 10)
  guard (hasFingerprint ≠ 0 → supplyAt + 11 + 32 ≤ payload.length)
  pure
    { id := nextId
      name := sliceAt payload 3 nameLength
      symbol := sliceAt payload (symbolAt + 1) symbolLength
      decimals := readU8At payload 0
      creator := creator
      backing := .ofCode (readU8At payload 1)
      maxSupply := readU64At payload supplyAt
      royaltyBps := readU16At payload (supplyAt + 8)
      fingerprint := if hasFingerprint ≠ 0 then some (read32At payload (supplyAt + 11)) else none }

def executeCreateToken : Option StateAccess := do
  let nextId := nextIdOrOne (state.getGlobal .nextTokenId)
  let token ← readToken tx.payload tx.sender nextId
  guard (token.isValid = true)
  pure (((state.putToken token).putTokenSupply token.id 0).putGlobal .nextTokenId (nextId + 1))

def executeMintToken : Option StateAccess := do
  guard (tx.amount ≠ 0)
  guard (tx.tokenId ≠ NATIVE_TOKEN_ID)
  let token ← state.getToken tx.tokenId
  guard (token.creator = tx.sender)
  let currentSupply := state.getTokenSupply tx.tokenId
  guard (¬(token.maxSupply > 0 ∧ u64 (currentSupply + tx.amount) > token.maxSupply))
  let balance := state.getTokenBalance tx.recipient tx.tokenId
  pure ((state.putTokenBalance tx.recipient tx.tokenId (u64 (balance + tx.amount))).putTokenSupply
    tx.tokenId (u64 (currentSupply + tx.amount)))

def executeBurnToken : Option StateAccess := do
  guard (tx.amount ≠ 0)
  guard (tx.tokenId ≠ NATIVE_TOKEN_ID)
  let balance := state.getTokenBalance tx.sender tx.tokenId
  guard (tx.amount ≤ balance)
  let burned := state.putTokenBalance tx.sender tx.tokenId (balance - tx.amount)
  pure (burned.putTokenSupply tx.tokenId (burned.getTokenSupply tx.tokenId - tx.amount))

def updatedToken (payload : Bytes) (token : TokenInfo) : Option TokenInfo := do
  let nameLength := readU8At payload 0
  guard (1 + nameLength + 1 ≤ payload.length)
  let symbolAt := 1 + nameLength
  let symbolLength := readU8At payload symbolAt
  guard (symbolAt + 1 + symbolLength + 2 ≤ payload.length)
  let royalty := readU16At payload (symbolAt + 1 + symbolLength)
  pure
    { token with
      name := if nameLength > 0 then sliceAt payload 1 nameLength else token.name
      symbol := if symbolLength > 0 then sliceAt payload (symbolAt + 1) symbolLength
        else token.symbol
      royaltyBps := if royalty ≠ 0 then royalty else token.royaltyBps }

def executeUpdateTokenMeta : Option StateAccess := do
  guard (4 ≤ tx.payload.length)
  guard (tx.tokenId ≠ NATIVE_TOKEN_ID)
  let token ← state.getToken tx.tokenId
  guard (token.creator = tx.sender)
  let updated ← updatedToken tx.payload token
  guard (updated.isValid = true)
  pure (state.putToken updated)

/-! ## What the handlers can change -/

variable {before : StateAccess} {state tx ctx}

theorem debitToken_within {address : Address} {tokenId amount : Nat} :
    Ensures (Within [.accounts, .balances] state) (debitToken state address tokenId amount) := by
  simp [debitToken]

@[simp] theorem within_creditToken {parts : List Part} {address : Address} {tokenId amount : Nat}
    (accounts : .accounts ∈ parts) (balances : .balances ∈ parts) :
    Peels parts state (creditToken state address tokenId amount) := by
  unfold creditToken
  split <;> simp [accounts, balances]

theorem chargeFee_within : Ensures (Within [.accounts] state) (chargeFee state tx) := by
  simp [chargeFee]

theorem bumpNonce_within : Within [.accounts, .nonces] state (bumpNonce state tx) :=
  putAccount_within state tx.sender _

theorem executeTransfer_within :
    Ensures (Within [.accounts, .balances] state) (executeTransfer state tx ctx) := by
  simp [executeTransfer, transferNative]

theorem setStakingOptedOut_within {optedOut : Bool} :
    Ensures (Within [.accounts] state) (setStakingOptedOut optedOut state tx) := by
  simp [setStakingOptedOut, Account.recalculateStaked]

theorem executeClaimRewards_within :
    Ensures (Within [.accounts] state) (executeClaimRewards state tx) := by
  simp [executeClaimRewards, Account.recalculateStaked]

theorem executeCreateToken_within :
    Ensures (Within [.tokens] state) (executeCreateToken state tx) := by
  simp [executeCreateToken]

theorem executeMintToken_within :
    Ensures (Within [.balances, .tokens] state) (executeMintToken state tx) := by
  simp [executeMintToken]

theorem executeBurnToken_within :
    Ensures (Within [.balances, .tokens] state) (executeBurnToken state tx) := by
  simp [executeBurnToken]

theorem executeUpdateTokenMeta_within :
    Ensures (Within [.tokens] state) (executeUpdateTokenMeta state tx) := by
  simp [executeUpdateTokenMeta]

end TransactionExecutor

end Clarity.Core
