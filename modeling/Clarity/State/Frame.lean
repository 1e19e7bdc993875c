import Clarity.Library.Outcome
import Clarity.State.Access

/-!
Contract: what the writes of the chain state leave alone.

Owns: `Part`, the parts of the state that its views read, the nonces and the validator registry
among them; `Within`, that nothing changed outside a list of parts; and, for each write, the rule
that peels it off a goal about `Within`.

The rules are equivalences tagged for `simp`, so that a handler written as a chain of writes
is peeled back to the state it started from.
-/

namespace Clarity.State

open Common Crypto Clarity.Core Library

variable {id poolId : Nat}

/-- The validator registry: everything the rules for signing keys and active sets read. -/
structure Registry where
  validators : Table Nat ValidatorInfo
  validatorsByAddress : Table Address Nat
  keyHistories : Table Nat (List KeyRotation)
  activeSet : List Nat
  nextValidatorId : Option Nat

/-- The order records with the rows of the book, the sequence numbers that the rows are found by,
and the counter of the ids. -/
structure Book where
  orders : Table Nat Order
  sequences : Table Nat Nat
  rows : Table BookKey Nat
  nextOrderId : Option Nat

/-- The records of tokens and their supplies, with the counter of their ids. -/
structure Coinage where
  tokens : Table Nat TokenInfo
  supplies : Table Nat Nat
  nextTokenId : Option Nat

/-- The parts of the state that are told apart. -/
inductive Part
  | version
  | nonces
  | accounts
  | balances
  | tokens
  | nfts
  | collections
  | book
  | pools
  | positions
  | registry
  | counters
  | supply
deriving DecidableEq

namespace StateAccess

def nonce (state : StateAccess) (address : Address) : Nat := (state.getAccount address).nonce

def registry (state : StateAccess) : Registry where
  validators := state.tree.validators
  validatorsByAddress := state.tree.validatorsByAddress
  keyHistories := state.tree.keyHistories
  activeSet := state.tree.activeSet
  nextValidatorId := state.getGlobal .nextValidatorId

def book (state : StateAccess) : Book where
  orders := state.tree.orders
  sequences := state.tree.orderSequences
  rows := state.index.orderBook
  nextOrderId := state.getGlobal .nextOrderId

def coinage (state : StateAccess) : Coinage where
  tokens := state.tree.tokens
  supplies := state.tree.tokenSupplies
  nextTokenId := state.getGlobal .nextTokenId

/-- The transactions so far, and those before the epoch. -/
def txCounters (state : StateAccess) : Nat × Nat :=
  (state.getMetaU64 .txCounter, state.getMetaU64 .txCounterAtEpochStart)

end StateAccess

open StateAccess

/-- The part is the same in both states. -/
def Part.Same (before after : StateAccess) : Part → Prop
  | .version => after.version = before.version
  | .nonces => after.nonce = before.nonce
  | .accounts => after.tree.accounts = before.tree.accounts
  | .balances => after.tree.tokenBalances = before.tree.tokenBalances
  | .tokens => after.coinage = before.coinage
  | .nfts => after.tree.nfts = before.tree.nfts
  | .collections => after.tree.nftCollections = before.tree.nftCollections
  | .book => after.book = before.book
  | .pools => after.tree.ammPools = before.tree.ammPools
  | .positions =>
    (after.tree.ammPositions, after.tree.ammPositionIndex) =
      (before.tree.ammPositions, before.tree.ammPositionIndex)
  | .registry => after.registry = before.registry
  | .counters => after.txCounters = before.txCounters
  | .supply => after.getGlobal .totalSupply = before.getGlobal .totalSupply

/-- Nothing changed but the given parts. -/
structure Within (parts : List Part) (before after : StateAccess) : Prop where
  same : ∀ part, part ∉ parts → part.Same before after

variable {parts more : List Part} {before state after : StateAccess}

/-- What stayed within the parts up to the last step did so before it, and the other way round. -/
@[simp] abbrev Peels (parts : List Part) (state after : StateAccess) : Prop :=
  ∀ {before}, Within parts before after ↔ Within parts before state

namespace Part.Same

theorem refl (part : Part) (state : StateAccess) : part.Same state state := by
  cases part <;> rfl

theorem trans {part : Part} (first : part.Same before state) (second : part.Same state after) :
    part.Same before after := by
  cases part <;> exact Eq.trans second first

theorem symm {part : Part} (same : part.Same before after) : part.Same after before := by
  cases part <;> exact Eq.symm same

end Part.Same

namespace Within

@[simp] theorem refl (parts : List Part) (state : StateAccess) : Within parts state state :=
  ⟨fun part _ => .refl part state⟩

theorem trans (first : Within parts before state) (second : Within parts state after) :
    Within parts before after :=
  ⟨fun part out => (first.same part out).trans (second.same part out)⟩

theorem mono (within : Within parts before after) (fewer : parts ⊆ more) :
    Within more before after :=
  ⟨fun part out => within.same part fun member => out (fewer member)⟩

/-- A last step within the parts is peeled off. -/
theorem after_iff (last : Within parts state after) : Peels parts state after := by
  refine ⟨fun whole => whole.trans ?_, fun first => first.trans last⟩
  exact ⟨fun part out => (last.same part out).symm⟩

theorem step_iff {part : Part} (member : part ∈ parts)
    (others : ∀ other, other ≠ part → other.Same state after) : Peels parts state after :=
  after_iff ⟨fun other out => others other fun same => out (same ▸ member)⟩

theorem foldl {ι : Type} {body : StateAccess → ι → StateAccess}
    (each : ∀ state item, Within parts state (body state item)) (items : List ι)
    (state : StateAccess) : Within parts state (items.foldl body state) :=
  @foldl_keeps StateAccess ι (Within parts state) body items
    (fun item _ other within => within.trans (each other item)) state (.refl parts state)

theorem foldl_fst {ι κ : Type} {body : StateAccess × κ → ι → StateAccess × κ}
    (each : ∀ carried item, Within parts carried.1 (body carried item).1) (items : List ι)
    (start : StateAccess × κ) : Within parts start.1 (items.foldl body start).1 :=
  @foldl_keeps (StateAccess × κ) ι (fun other => Within parts start.1 other.1) body items
    (fun item _ other within => within.trans (each other item)) start (.refl parts start.1)

end Within

@[simp] theorem within_ite {condition : Prop} [Decidable condition] {yes no : StateAccess} :
    Within parts before (if condition then yes else no) ↔
      (condition → Within parts before yes) ∧ (¬condition → Within parts before no) := by
  by_cases holds : condition <;> simp [holds]

/-! ## Globals and accounts -/

namespace StateAccess

variable {address : Address} {order : Order} {tokenId : Nat}

theorem getGlobal_putGlobal (state : StateAccess) (name other : GlobalName) (value : Nat) :
    (state.putGlobal name value).getGlobal other =
      if other = name then some (u64 value) else state.getGlobal other :=
  Table.find?_put state.tree.globals name (u64 value) other

/-- The part that a global belongs to. -/
@[simp] abbrev counterParts : GlobalName → List Part
  | .nextTokenId => [.tokens]
  | .nextOrderId => [.book]
  | .nextValidatorId => [.registry]
  | .totalSupply => [.supply]
  | _ => []

@[simp] theorem within_putGlobal {name : GlobalName} {value : Nat}
    (owned : ∀ part ∈ counterParts name, part ∈ parts) :
    Peels parts state (state.putGlobal name value) := by
  have unread {other : GlobalName} (apart : other ≠ name) :
      (state.putGlobal name value).getGlobal other = state.getGlobal other := by
    rw [getGlobal_putGlobal, if_neg apart]
  apply Within.after_iff
  refine ⟨fun part out => ?_⟩
  have apart {other : GlobalName} (counts : part ∈ counterParts other) : other ≠ name := by
    rintro rfl
    exact out (owned part counts)
  cases part with
  | tokens => exact congrArg (Coinage.mk _ _) (unread (apart (List.mem_singleton_self _)))
  | book => exact congrArg (Book.mk _ _ _) (unread (apart (List.mem_singleton_self _)))
  | registry => exact congrArg (Registry.mk _ _ _ _) (unread (apart (List.mem_singleton_self _)))
  | supply => exact unread (apart (List.mem_singleton_self _))
  | _ => rfl

theorem getMetaU64_putMetaU64 (state : StateAccess) (name other : MetaName) (value : Nat) :
    (state.putMetaU64 name value).getMetaU64 other =
      if other = name then u64 value else state.getMetaU64 other := by
  unfold getMetaU64 putMetaU64
  rw [Table.find?_put]
  split <;> rfl

/-- The part that a counter beside the tree belongs to. -/
@[simp] abbrev metaParts : MetaName → List Part
  | .txCounter | .txCounterAtEpochStart => [.counters]
  | _ => []

@[simp] theorem within_putMetaU64 {name : MetaName} {value : Nat}
    (owned : ∀ part ∈ metaParts name, part ∈ parts) :
    Peels parts state (state.putMetaU64 name value) := by
  apply Within.after_iff
  refine ⟨fun part out => ?_⟩
  have unread {other : MetaName} (counts : part ∈ metaParts other) :
      (state.putMetaU64 name value).getMetaU64 other = state.getMetaU64 other := by
    rw [getMetaU64_putMetaU64, if_neg]
    rintro rfl
    exact out (owned part counts)
  cases part with
  | counters =>
    exact Prod.ext (unread (List.mem_singleton_self _)) (unread (List.mem_singleton_self _))
  | _ => rfl

@[simp] theorem within_adjustTotalStaked {old new : Nat} :
    Peels parts state (state.adjustTotalStaked old new) := by
  unfold adjustTotalStaked
  dsimp only
  split
  · rfl
  · split <;> simp

@[simp] theorem within_adjustStakers {old new : Nat} :
    Peels parts state (state.adjustStakers address old new) := by
  have indexed (index : Indexes) (same : index.orderBook = state.index.orderBook) :
      Peels parts state { state with index := index } :=
    Within.after_iff ⟨by rintro (_ | _) _ <;> first | rfl | exact congrArg (Book.mk _ _ · _) same⟩
  unfold adjustStakers
  split
  · simp [indexed]
  · split <;> simp [indexed]

section

variable (state)

theorem adjustStakers_accounts (address : Address) (old new : Nat) :
    (state.adjustStakers address old new).tree.accounts = state.tree.accounts := by
  unfold adjustStakers
  split
  · rfl
  · split <;> rfl

theorem putAccount_accounts (address : Address) (account : Account) :
    (state.putAccount address account).tree.accounts =
      state.tree.accounts.put address (state.stakedCopy (state.getAccount address) account) := by
  unfold putAccount
  rw [adjustStakers_accounts]
  unfold adjustTotalStaked
  dsimp only
  split
  · rfl
  · split <;> rfl

/-- What is read after an account was written. -/
theorem getAccount_putAccount (address other : Address) (account : Account) :
    (state.putAccount address account).getAccount other =
      if other = address then state.stakedCopy (state.getAccount address) account
      else state.getAccount other := by
  unfold getAccount
  rw [putAccount_accounts, Table.find?_put]
  by_cases same : other = address
  · rw [if_pos same, if_pos same]
    rfl
  · rw [if_neg same, if_neg same]

theorem nonce_putAccount (address other : Address) (account : Account) :
    (state.putAccount address account).nonce other =
      if other = address then account.nonce else state.nonce other := by
  unfold nonce
  rw [getAccount_putAccount]
  by_cases same : other = address
  · rw [if_pos same, if_pos same]
    rfl
  · rw [if_neg same, if_neg same]

theorem balance_putAccount (address other : Address) (account : Account) :
    ((state.putAccount address account).getAccount other).balance =
      if other = address then account.balance else (state.getAccount other).balance := by
  rw [getAccount_putAccount]
  by_cases same : other = address
  · rw [if_pos same, if_pos same]
    rfl
  · rw [if_neg same, if_neg same]

theorem putAccount_within (address : Address) (account : Account) :
    Within [.accounts, .nonces] state (state.putAccount address account) := by
  unfold putAccount
  dsimp only
  rw [within_adjustStakers, within_adjustTotalStaked]
  constructor
  rintro (_ | _) out <;> first | rfl | simp at out

theorem registry_putAccount (address : Address) (account : Account) :
    (state.putAccount address account).registry = state.registry :=
  (putAccount_within state address account).same .registry (by decide)

theorem nfts_putAccount (address : Address) (account : Account) :
    (state.putAccount address account).tree.nfts = state.tree.nfts :=
  (putAccount_within state address account).same .nfts (by decide)

end

/-- An account is written back, with the nonce it had unless nonces may change. -/
@[simp] theorem within_putAccount {account : Account} (member : .accounts ∈ parts)
    (kept : account.nonce = (state.getAccount address).nonce ∨ .nonces ∈ parts) :
    Peels parts state (state.putAccount address account) := by
  have within := putAccount_within state address account
  apply Within.after_iff
  refine ⟨fun part out => ?_⟩
  by_cases counted : part = .nonces
  · subst counted
    funext other
    rw [nonce_putAccount]
    by_cases own : other = address
    · rw [if_pos own, kept.resolve_right out, own]
      rfl
    · rw [if_neg own]
  · refine within.same part ?_
    have apart : part ≠ .accounts := fun same => out (same ▸ member)
    simp [apart, counted]

@[simp] theorem within_putBalance {balance : Nat} (member : .accounts ∈ parts) :
    Peels parts state (state.putBalance address balance) := by
  apply within_putAccount member
  exact Or.inl rfl

/-! ## Tokens -/

@[simp] theorem within_putTokenBalance {balance : Nat} (member : .balances ∈ parts) :
    Peels parts state (state.putTokenBalance address tokenId balance) :=
  Within.step_iff member (by rintro (_ | _) _ <;> trivial)

@[simp] theorem within_putToken {token : TokenInfo} (member : .tokens ∈ parts) :
    Peels parts state (state.putToken token) :=
  Within.step_iff member (by rintro (_ | _) _ <;> trivial)

@[simp] theorem within_putTokenSupply {supply : Nat} (member : .tokens ∈ parts) :
    Peels parts state (state.putTokenSupply tokenId supply) :=
  Within.step_iff member (by rintro (_ | _) _ <;> trivial)

@[simp] theorem within_subBalance {amount : Nat} (accounts : .accounts ∈ parts)
    (balances : .balances ∈ parts) :
    Peels parts state (state.subBalance address tokenId amount) := by
  unfold subBalance
  split <;> simp [accounts, balances]

@[simp] theorem within_addBalance {amount : Nat} (accounts : .accounts ∈ parts)
    (balances : .balances ∈ parts) :
    Peels parts state (state.addBalance address tokenId amount) := by
  unfold addBalance
  split <;> simp [accounts, balances]

/-! ## Validators -/

section

variable (member : .registry ∈ parts)

include member

@[simp] theorem within_putValidator {validator : ValidatorInfo} :
    Peels parts state (state.putValidator validator) :=
  Within.step_iff member (by rintro (_ | _) _ <;> trivial)

@[simp] theorem within_deleteValidator : Peels parts state (state.deleteValidator id) :=
  Within.step_iff member (by rintro (_ | _) _ <;> trivial)

@[simp] theorem within_putValidatorByAddress :
    Peels parts state (state.putValidatorByAddress address id) :=
  Within.step_iff member (by rintro (_ | _) _ <;> trivial)

@[simp] theorem within_deleteValidatorByAddress :
    Peels parts state (state.deleteValidatorByAddress address) :=
  Within.step_iff member (by rintro (_ | _) _ <;> trivial)

@[simp] theorem within_putValidatorKeyHistory {history : List KeyRotation} :
    Peels parts state (state.putValidatorKeyHistory id history) :=
  Within.step_iff member (by rintro (_ | _) _ <;> trivial)

@[simp] theorem within_saveActiveSet {ids : List Nat} :
    Peels parts state (state.saveActiveSet ids) :=
  Within.step_iff member (by rintro (_ | _) _ <;> trivial)

end

/-! ## NFTs -/

@[simp] theorem within_putNft {nft : NftInfo} (member : .nfts ∈ parts) :
    Peels parts state (state.putNft nft) :=
  Within.step_iff member (by rintro (_ | _) _ <;> trivial)

@[simp] theorem within_putNftCollection {collection : NftCollection} (member : .collections ∈ parts) :
    Peels parts state (state.putNftCollection collection) :=
  Within.step_iff member (by rintro (_ | _) _ <;> trivial)

@[simp] theorem within_unindexNft {nft : NftInfo} : Peels parts state (state.unindexNft nft) := by
  unfold unindexNft
  split
  · rfl
  · exact Within.after_iff ⟨by rintro (_ | _) _ <;> rfl⟩

@[simp] theorem within_deleteNft {nftId : Nat} (member : .nfts ∈ parts) :
    Peels parts state (state.deleteNft nftId) := by
  have removed : Peels parts state { state with tree.nfts := state.tree.nfts.erase nftId } :=
    Within.step_iff member (by rintro (_ | _) _ <;> trivial)
  unfold deleteNft
  split <;> simp [removed]

/-! ## Orders -/

@[simp] theorem within_putOrder (member : .book ∈ parts) :
    Peels parts state (state.putOrder order) :=
  Within.step_iff member (by rintro (_ | _) _ <;> trivial)

@[simp] theorem within_deleteOrder {orderId : Nat} (member : .book ∈ parts) :
    Peels parts state (state.deleteOrder orderId) :=
  Within.step_iff member (by rintro (_ | _) _ <;> trivial)

@[simp] theorem within_addToOrderBook {sequence : Nat} (member : .book ∈ parts) :
    Peels parts state (state.addToOrderBook order sequence) := by
  unfold addToOrderBook
  split
  · rfl
  · split
    · rfl
    · exact Within.step_iff member (by rintro (_ | _) _ <;> trivial)

@[simp] theorem within_removeFromOrderBook (member : .book ∈ parts) :
    Peels parts state (state.removeFromOrderBook order) := by
  unfold removeFromOrderBook
  split
  · rfl
  · split
    · rfl
    · split
      · rfl
      · exact Within.step_iff member (by rintro (_ | _) _ <;> trivial)

@[simp] theorem within_nextOrderSequence : Peels parts state state.nextOrderSequence.2 := by
  simp [nextOrderSequence]

/-- The lists of expiring orders are no part of their own. -/
theorem within_orderExpiries {expiries : Table Nat (List Nat)} :
    Peels parts state { state with tree.orderExpiries := expiries } :=
  Within.after_iff ⟨by rintro (_ | _) _ <;> rfl⟩

@[simp] theorem within_addOrderExpiry {height orderId : Nat} :
    Peels parts state (state.addOrderExpiry height orderId) := by
  unfold addOrderExpiry
  dsimp only
  split
  · rfl
  · exact within_orderExpiries

@[simp] theorem within_clearOrderExpiry {height : Nat} :
    Peels parts state (state.clearOrderExpiry height) :=
  within_orderExpiries

@[simp] theorem within_dropExpiry : Peels parts state (state.dropExpiry order) := by
  unfold dropExpiry removeOrderExpiry
  dsimp only
  split
  · split
    · rfl
    · exact within_orderExpiries
  · rfl

@[simp] theorem within_deleteRestingOrder (member : .book ∈ parts) :
    Peels parts state (state.deleteRestingOrder order) := by
  unfold deleteRestingOrder
  split <;> simp [member]

@[simp] theorem within_refundOrder {chargeFee : Bool} (accounts : .accounts ∈ parts)
    (balances : .balances ∈ parts) (book : .book ∈ parts) :
    Peels parts state (state.refundOrder order chargeFee) := by
  unfold refundOrder
  dsimp only
  split
  · rfl
  · split <;> simp [accounts, balances, book]

/-! ## Pools and positions -/

@[simp] theorem within_putAmmPool {pool : AmmPool} (member : .pools ∈ parts) :
    Peels parts state (state.putAmmPool pool) :=
  Within.step_iff member (by rintro (_ | _) _ <;> trivial)

@[simp] theorem within_deleteAmmPool (member : .pools ∈ parts) :
    Peels parts state (state.deleteAmmPool poolId) :=
  Within.step_iff member (by rintro (_ | _) _ <;> trivial)

@[simp] theorem within_putAmmPosition {position : AmmPosition} (member : .positions ∈ parts) :
    Peels parts state (state.putAmmPosition position) :=
  Within.step_iff member (by rintro (_ | _) _ <;> trivial)

@[simp] theorem within_putPositionIndex {owner : Address} {positionId : Nat}
    (member : .positions ∈ parts) :
    Peels parts state (state.putPositionIndex owner poolId positionId) :=
  Within.step_iff member (by rintro (_ | _) _ <;> trivial)

@[simp] theorem within_deletePositionIndex {owner : Address} (member : .positions ∈ parts) :
    Peels parts state (state.deletePositionIndex owner poolId) :=
  Within.step_iff member (by rintro (_ | _) _ <;> trivial)

end StateAccess

end Clarity.State
