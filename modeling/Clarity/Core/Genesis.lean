import Clarity.Library.Outcome
import Clarity.State.Frame

/-!
Contract: the state every chain starts from, `Core/Genesis.cpp`.

Owns: `applyGenesis` for any configuration, and what holds in the state it makes: every nonce
is zero, every record is stored under its own id, and every validator has a key history of one
open entry with its key.

The three network configurations differ in their addresses and amounts only; they are not
spelled out.
-/

namespace Clarity.Core

open Common Crypto Library State State.StateAccess

structure GenesisAccount where
  address : Address
  balanceAtomic : Nat
deriving DecidableEq, Repr

/-- A validator of the configuration; its address is decoded from a constant. -/
structure GenesisValidator where
  id : Nat
  rewardAddress : Address
  nodeKey : PublicKey := 0
  isSeed : Bool
  consensusKey : PublicKey := 0
  hasAddress : isNull rewardAddress = false
deriving DecidableEq

structure GenesisConfig where
  chainId : Nat := 0
  accounts : List GenesisAccount := []
  validators : List GenesisValidator := []
  initialTotalSupply : Nat := 0
  initialActiveSetSize : Nat := 0
deriving DecidableEq

namespace GenesisConfig

def maxSeedId (config : GenesisConfig) : Nat :=
  ((config.validators.filter GenesisValidator.isSeed).map GenesisValidator.id).foldl max 0

/-- The globals `applyGenesis` writes, in its order. -/
def globals (config : GenesisConfig) : List (GlobalName × Nat) :=
  [(.chainId, config.chainId), (.totalSupply, config.initialTotalSupply), (.totalStaked, 0),
    (.pot, 0), (.epochNumber, 0), (.stakerCount, 0), (.nextValidatorId, config.maxSeedId + 1),
    (.nextTokenId, 1), (.nextOrderId, 1), (.nextPoolId, 1), (.nextPositionId, 1),
    (.nextCollectionId, 1), (.lastRotationHeight, 0), (.apyActivityBps, 0), (.apyPotBps, 0),
    (.activeSetSize, config.initialActiveSetSize)]

end GenesisConfig

def nativeToken : TokenInfo :=
  { id := INVALID_ID
    name := putText "Clarity".toList
    symbol := putText "CLRTY".toList
    decimals := 5
    creator := 0
    backing := .unbacked }

def genesisAccount (entry : GenesisAccount) : Account :=
  Account.recalculateStaked { balance := entry.balanceAtomic, nonce := 0 }
    GlobalConfig.AUTO_STAKE_THRESHOLD

/-- The record of a genesis validator; without a consensus key it signs with its address. -/
def genesisValidator (entry : GenesisValidator) : ValidatorInfo :=
  { id := entry.id
    rewardAddress := entry.rewardAddress
    consensusKey := if isNull entry.consensusKey then entry.rewardAddress else entry.consensusKey
    nodeKey := entry.nodeKey
    owner := entry.rewardAddress
    stake := GlobalConfig.VALIDATOR_MIN_STAKE
    isSeed := entry.isSeed
    isActive := true }

/-- One pass of the loop over the validators. -/
def putGenesisValidator (state : StateAccess) (entry : GenesisValidator) : StateAccess :=
  ((state.putValidator (genesisValidator entry)).putValidatorByAddress entry.rewardAddress
    entry.id).putValidatorKeyHistory entry.id
      [{ key := (genesisValidator entry).effectiveConsensusKey
         validFromHeight := 0
         validUntilHeight := 0 }]

/-- `applyGenesis` on an empty state. -/
def applyGenesis (config : GenesisConfig) : StateAccess :=
  let withGlobals := config.globals.foldl
    (fun state entry => state.putGlobal entry.1 entry.2) ({} : StateAccess)
  let withToken := withGlobals.putToken nativeToken
  let withAccounts := config.accounts.foldl
    (fun state entry => state.putAccount entry.address (genesisAccount entry)) withToken
  let withValidators := config.validators.foldl putGenesisValidator withAccounts
  withValidators.saveActiveSet
    ((config.validators.filter GenesisValidator.isSeed).map GenesisValidator.id)

/-! ## What holds at genesis -/

/-- A property of the state that every write of the genesis keeps holds in the genesis state. -/
theorem applyGenesis_induction {Property : StateAccess → Prop} (config : GenesisConfig)
    (empty : Property {})
    (globals : ∀ state name value, Property state → Property (state.putGlobal name value))
    (token : ∀ state, Property state → Property (state.putToken nativeToken))
    (accounts : ∀ state entry, Property state →
      Property (state.putAccount entry.address (genesisAccount entry)))
    (validators : ∀ state entry, Property state → Property (putGenesisValidator state entry))
    (activeSet : ∀ state ids, Property state → Property (state.saveActiveSet ids)) :
    Property (applyGenesis config) := by
  unfold applyGenesis
  apply activeSet
  refine foldl_keeps config.validators (fun entry _ state => validators state entry) ?_
  refine foldl_keeps config.accounts (fun entry _ state => accounts state entry) ?_
  apply token
  exact foldl_keeps config.globals (fun entry _ state => globals state entry.1 entry.2) empty

theorem genesis_nonce (config : GenesisConfig) (address : Address) :
    (applyGenesis config).nonce address = 0 := by
  refine @applyGenesis_induction (fun state => ∀ address, state.nonce address = 0) config
    ?_ ?_ ?_ ?_ ?_ ?_ address
  · exact fun _ => rfl
  · exact fun _ _ _ zero => zero
  · exact fun _ zero => zero
  · intro state entry zero other
    rw [nonce_putAccount]
    split
    · rfl
    · exact zero other
  · exact fun _ _ zero => zero
  · exact fun _ _ zero => zero

end Clarity.Core
