import Clarity.Core.Executor.Ledger
import Clarity.Library.Path

/-!
Contract: the validator handlers of `Core/TransactionExecutor.cpp` and the slash of a validator.

Owns: `executeRegisterValidator` to `executeRotateConsensusKey` and `executeSystemSlash`;
`RegistryMove`, everything these handlers and the passes of a block do to the validator
registry, said once; and, for each handler, the moves it makes.

No handler here changes a nonce.
-/

namespace Clarity.Core

open Common Crypto Library State State.StateAccess
open Relation Ensures

namespace TransactionExecutor

variable (state : StateAccess) (tx : Transaction) (ctx : TxExecutionContext)

/-! ## Handlers -/

/-- The record of a new validator; the whole balance is entered as its stake. -/
def newValidator (account : Account) (nextId height : Nat) : ValidatorInfo :=
  { id := nextId
    rewardAddress := tx.sender
    owner := tx.sender
    stake := account.balance
    registeredAtHeight := height
    uptimeScore := 10000
    isSeed := false
    isActive := false
    consensusKey := read32At tx.payload 0 }

def executeRegisterValidator : Option StateAccess := do
  let account := state.getAccount tx.sender
  guard (GlobalConfig.VALIDATOR_MIN_STAKE ≤ account.balance)
  guard (tx.payload.length = 32)
  guard (state.getValidatorByAddress tx.sender = none)
  let nextId := (state.getGlobal .nextValidatorId).getD 1
  let validator := newValidator tx account nextId ctx.currentHeight
  let entry : KeyRotation :=
    { key := validator.effectiveConsensusKey
      validFromHeight := ctx.currentHeight
      validUntilHeight := 0 }
  pure ((((state.putValidator validator).putValidatorByAddress tx.sender nextId).putValidatorKeyHistory
    nextId [entry]).putGlobal .nextValidatorId (nextId + 1))

/-- The part of `executeUnregisterValidator` that takes the validator out of the active set. -/
def leaveActiveSet (validatorId : Nat) : Option StateAccess :=
  let activeSet := state.loadActiveSet
  if validatorId ∈ activeSet then
    let newSet := activeSet.filter (· ≠ validatorId)
    if newSet.length < GlobalConfig.ACTIVE_SET_MIN then none else some (state.saveActiveSet newSet)
  else some state

def executeUnregisterValidator : Option StateAccess := do
  let validatorId ← state.getValidatorByAddress tx.sender
  let validator ← state.getValidator validatorId
  guard (validator.isSeed = false)
  let left ← leaveActiveSet state validatorId
  guard (validator.pendingUnbondHeight = 0)
  pure (left.putValidator
    { validator with
      isActive := false
      lastActiveAt := ctx.currentHeight
      pendingUnbondHeight := u64 (ctx.currentHeight + UNBONDING_PERIOD) })

/-- The record `executeUpdateRewardAddress` writes: the signing key is fixed first. -/
def readdressed (validator : ValidatorInfo) (newAddress : Address) : ValidatorInfo :=
  { validator with
    consensusKey :=
      if isNull validator.consensusKey then validator.effectiveConsensusKey
      else validator.consensusKey
    rewardAddress := newAddress
    owner := newAddress }

def executeUpdateRewardAddress : Option StateAccess := do
  guard (tx.payload.length = 32)
  let newAddress := read32At tx.payload 0
  guard (isNull newAddress = false)
  let validatorId ← state.getValidatorByAddress tx.sender
  let validator ← state.getValidator validatorId
  guard (newAddress ≠ tx.sender → state.getValidatorByAddress newAddress = none)
  pure (((state.deleteValidatorByAddress validator.rewardAddress).putValidatorByAddress newAddress
    validator.id).putValidator (readdressed validator newAddress))

/-- The history `executeRotateConsensusKey` starts from: a missing, empty or unreadable one is
replaced by a single entry that begins at the registration. -/
def currentHistory (stored : Option (List KeyRotation)) (validator : ValidatorInfo) :
    List KeyRotation :=
  match stored with
  | some (first :: rest) => first :: rest
  | _ =>
    [{ key := validator.effectiveConsensusKey
       validFromHeight := validator.registeredAtHeight
       validUntilHeight := 0 }]

/-- The last entry is sealed at the height of the rotation. -/
def sealLast (height : Nat) : List KeyRotation → List KeyRotation
  | [] => []
  | [last] => [{ last with validUntilHeight := height }]
  | first :: rest => first :: sealLast height rest

def rotatedHistory (history : List KeyRotation) (newKey : PublicKey) (height : Nat) :
    List KeyRotation :=
  sealLast height history ++
    [{ key := newKey, validFromHeight := height, validUntilHeight := 0 }]

def executeRotateConsensusKey : Option StateAccess := do
  guard (tx.payload.length = 32)
  let newKey := read32At tx.payload 0
  guard (isNull newKey = false)
  let validatorId ← state.getValidatorByAddress tx.sender
  let validator ← state.getValidator validatorId
  guard (validator.owner = tx.sender)
  guard (validator.effectiveConsensusKey ≠ newKey)
  guard (validator.pendingUnbondHeight = 0)
  let history := currentHistory (state.getValidatorKeyHistory validatorId) validator
  pure ((state.putValidatorKeyHistory validatorId
    (rotatedHistory history newKey ctx.currentHeight)).putValidator
      { validator with consensusKey := newKey })

/-- The record of a slashed validator: less stake, a smaller multiplier. -/
def slashedRecord (validator : ValidatorInfo) (slashHeight : Nat) : ValidatorInfo :=
  let slashAmount := applyBps validator.stake SLASH_AMOUNT_BPS
  { validator with
    stake :=
      if slashAmount ≤ validator.stake then validator.stake - slashAmount
      else validator.stake }.applyInfractionPenalty slashHeight

/-- `executeSystemSlash`: an unknown validator and an exempt seed are left alone. -/
def executeSystemSlash (validatorId slashHeight : Nat) : StateAccess :=
  match state.getValidator validatorId with
  | none => state
  | some validator =>
    if SEED_SLASH_EXEMPT && validator.isSeed then state
    else
      let slashAmount := applyBps validator.stake SLASH_AMOUNT_BPS
      let slashed := state.putValidator (slashedRecord validator slashHeight)
      if slashAmount > 0 then
        slashed.putGlobal .pot (u64 (slashed.getGlobalU64 .pot + slashAmount))
      else slashed

end TransactionExecutor

/-! ## Moves of the registry -/

open TransactionExecutor in
/-- One change of the registry other than a registration and the rotation of a key; nothing that is
kept changes. -/
inductive RegistryMove (kept : Kept) : Registry → Registry → Prop
  | update (registry : Registry) (id : Nat) (old new : ValidatorInfo)
      (found : registry.validators.find? id = some old) (same : Alike kept old new) :
      RegistryMove kept registry
        { registry with validators := registry.validators.put new.id new }
  | activeSet (registry : Registry) (ids : List Nat) (reseats : kept.seat = false) :
      RegistryMove kept registry { registry with activeSet := ids }
  | readdress (registry : Registry) (id : Nat) (old : ValidatorInfo) (address : Address)
      (found : registry.validators.find? id = some old) (valid : isNull address = false) :
      RegistryMove kept registry
        { registry with
          validators := registry.validators.put old.id (readdressed old address)
          validatorsByAddress :=
            (registry.validatorsByAddress.erase old.rewardAddress).put address old.id }
  | remove (registry : Registry) (id : Nat) (old : ValidatorInfo)
      (found : registry.validators.find? id = some old) (leaves : kept = ⟨false, false⟩) :
      RegistryMove kept registry
        { registry with
          validators := registry.validators.erase old.id
          validatorsByAddress := registry.validatorsByAddress.erase old.rewardAddress
          keyHistories := registry.keyHistories.erase old.id }

/-- Whatever a move keeps, it is a move. -/
theorem RegistryMove.plain {kept : Kept} {before after : Registry}
    (move : RegistryMove kept before after) : RegistryMove ⟨false, false⟩ before after := by
  cases move with
  | update id old new found same =>
    exact .update before id old new found ⟨same.toSameIdentity, (by cases ·), (by cases ·)⟩
  | activeSet ids _ => exact .activeSet before ids rfl
  | readdress id old address found valid => exact .readdress before id old address found valid
  | remove id old found _ => exact .remove before id old found rfl

/-- Every record is stored under its own id. -/
def OwnIds (registry : Registry) : Prop :=
  ∀ id v, registry.validators.find? id = some v → v.id = id

/-- The rows of the table are the records under their ids. -/
theorem validators_ids {state : StateAccess} (own : OwnIds state.registry) :
    (state.validators.map ValidatorInfo.id).Nodup := by
  have keys : state.validators.map ValidatorInfo.id =
      (inKeyOrder (fun row => putU64 row.1) state.tree.validators.entries).map Prod.fst := by
    unfold validators
    rw [List.map_map]
    apply List.map_congr_left
    intro row member
    have stored : row ∈ state.tree.validators.entries := (List.mem_insertionSort _).mp member
    exact own row.1 row.2 (Table.find?_eq_some_iff.mpr stored)
  rw [keys]
  exact ((List.perm_insertionSort _ _).map Prod.fst).nodup_iff.mpr state.tree.validators.distinct

theorem mem_validators_iff {state : StateAccess} (own : OwnIds state.registry) {v : ValidatorInfo} :
    v ∈ state.validators ↔ state.getValidator v.id = some v := by
  unfold validators
  rw [List.mem_map]
  constructor
  · rintro ⟨row, inOrder, isRecord⟩
    have found : state.getValidator row.1 = some row.2 :=
      Table.find?_eq_some_iff.mpr ((List.mem_insertionSort _).mp inOrder)
    rw [← isRecord, own row.1 row.2 found]
    exact found
  · intro found
    exact ⟨(v.id, v), (List.mem_insertionSort _).mpr (Table.find?_eq_some_iff.mp found), rfl⟩

/-- The registry changed by moves only. -/
def Orderly (kept : Kept) (before after : StateAccess) : Prop :=
  ReflTransGen (RegistryMove kept) before.registry after.registry

namespace Orderly

variable {kept : Kept} {before state after : StateAccess}

theorem of_registry (same : after.registry = before.registry) : Orderly kept before after := by
  unfold Orderly
  rw [same]

theorem of_within {parts : List Part} (within : Within parts before after)
    (out : .registry ∉ parts) : Orderly kept before after :=
  of_registry (within.same .registry out)

theorem refl (state : StateAccess) : Orderly kept state state := of_registry rfl

theorem plain (orderly : Orderly kept before after) : Orderly ⟨false, false⟩ before after :=
  ReflTransGen.mono (fun _ _ move => move.plain) _ _ orderly

theorem trans (first : Orderly kept before state) (second : Orderly kept state after) :
    Orderly kept before after :=
  ReflTransGen.trans first second

theorem ite {condition : Prop} [Decidable condition] {yes no : StateAccess}
    (whenYes : Orderly kept state yes) (whenNo : Orderly kept state no) :
    Orderly kept state (if condition then yes else no) := by
  split
  · exact whenYes
  · exact whenNo

/-- A record is written back for the validator it was read for. -/
theorem putValidator {id : Nat} {old new : ValidatorInfo} (found : state.getValidator id = some old)
    (same : Alike kept old new) : Orderly kept state (state.putValidator new) :=
  .single (.update state.registry id old new found same)

theorem saveActiveSet {present : Bool} (ids : List Nat) :
    Orderly ⟨present, false⟩ state (state.saveActiveSet ids) :=
  .single (.activeSet state.registry (ids.map u64) rfl)

theorem foldl {ι : Type} {body : StateAccess → ι → StateAccess}
    (each : ∀ state item, Orderly kept state (body state item)) (items : List ι)
    (start : StateAccess) : Orderly kept start (items.foldl body start) :=
  @foldl_keeps StateAccess ι (Orderly kept start) body items
    (fun item _ state orderly => orderly.trans (each state item)) start (refl start)

end Orderly

/-! ## The moves of the handlers -/

namespace TransactionExecutor

variable {state : StateAccess} {tx : Transaction} {ctx : TxExecutionContext}

/-- What a registration does to the registry. -/
def registeredRegistry (registry : Registry) (tx : Transaction) (account : Account) (height : Nat) :
    Registry :=
  let nextId := registry.nextValidatorId.getD 1
  { registry with
    validators := registry.validators.put nextId (newValidator tx account nextId height)
    validatorsByAddress := registry.validatorsByAddress.put tx.sender nextId
    keyHistories := registry.keyHistories.put nextId
      [{ key := (newValidator tx account nextId height).effectiveConsensusKey
         validFromHeight := height
         validUntilHeight := 0 }]
    nextValidatorId := some (u64 (nextId + 1)) }

/-- A registration enters a validator under the next id. -/
theorem executeRegisterValidator_spec : Ensures (fun after => Within [.registry] state after ∧
        ∃ account, state.getValidatorByAddress tx.sender = none ∧
          after.registry = registeredRegistry state.registry tx account ctx.currentHeight)
      (executeRegisterValidator state tx ctx) := by
  simp only [executeRegisterValidator, do_iff, guard_eq_some_iff, pure_iff]
  intro _ _ _ _ _ free
  refine ⟨by simp, state.getAccount tx.sender, free, ?_⟩
  unfold registry
  rw [getGlobal_putGlobal, if_pos rfl]
  rfl

/-- The record of a validator that leaves. -/
def leftRecord (validator : ValidatorInfo) (height : Nat) : ValidatorInfo :=
  { validator with
    isActive := false
    lastActiveAt := height
    pendingUnbondHeight := u64 (height + UNBONDING_PERIOD) }

/-- The active set without a member. -/
def withoutMember (activeSet : List Nat) (id : Nat) : List Nat :=
  if id ∈ activeSet then (activeSet.filter (· ≠ id)).map u64 else activeSet

def leftRegistry (registry : Registry) (validator : ValidatorInfo) (ids : List Nat) (height : Nat) :
    Registry :=
  { registry with
    activeSet := ids
    validators := registry.validators.put validator.id (leftRecord validator height) }

theorem leftRegistry_path {registry : Registry} {id : Nat} {validator : ValidatorInfo}
    (found : registry.validators.find? id = some validator) (ids : List Nat) (height : Nat) :
    ReflTransGen (RegistryMove ⟨false, false⟩) registry (leftRegistry registry validator ids height) := by
  refine .tail (.single (.activeSet registry ids rfl)) (.update { registry with activeSet := ids } id
    validator (leftRecord validator height) found ?_)
  exact ⟨⟨rfl, rfl, rfl, rfl, rfl, rfl⟩, (by cases ·), (by cases ·)⟩

/-- A deregistration writes the height of leaving into the record of the sender's validator, which
is no seed, and takes it out of the set. -/
theorem executeUnregisterValidator_spec : Ensures (fun after => Within [.registry] state after ∧
        ∃ id validator, state.getValidator id = some validator ∧ validator.isSeed = false ∧
          after.registry = leftRegistry state.registry validator
            (withoutMember state.registry.activeSet id) ctx.currentHeight)
      (executeUnregisterValidator state tx ctx) := by
  simp only [executeUnregisterValidator, leaveActiveSet, do_iff, guard_eq_some_iff,
    pure_iff]
  intro id _ validator found _ notSeed left ran _ _
  split at ran
  next member =>
    have set : withoutMember state.registry.activeSet id = _ := if_pos member
    split at ran
    · cases ran
    · cases ran
      exact ⟨by simp, id, validator, found, notSeed, by rw [set]; rfl⟩
  next absent =>
    have set : withoutMember state.registry.activeSet id = _ := if_neg absent
    cases ran
    exact ⟨by simp, id, validator, found, notSeed, by rw [set]; rfl⟩

theorem executeUpdateRewardAddress_spec :
    Ensures (fun after => Within [.registry] state after ∧ Orderly ⟨true, true⟩ state after)
      (executeUpdateRewardAddress state tx) := by
  simp only [executeUpdateRewardAddress, do_iff, guard_eq_some_iff,
    pure_iff]
  intro _ _ _ valid id _ validator found _ _
  exact ⟨by simp, .single (.readdress state.registry id validator (read32At tx.payload 0) found
    valid)⟩

theorem executeSystemSlash_spec (id slashHeight : Nat) :
    Within [.registry] state (executeSystemSlash state id slashHeight) ∧
      Orderly ⟨true, true⟩ state (executeSystemSlash state id slashHeight) := by
  unfold executeSystemSlash
  cases found : state.getValidator id with
  | none => exact ⟨.refl _ _, .refl state⟩
  | some validator =>
    dsimp only
    split
    · exact ⟨.refl _ _, .refl state⟩
    · have slashed : Orderly ⟨true, true⟩ state
          (state.putValidator (slashedRecord validator slashHeight)) :=
        .putValidator found ⟨⟨rfl, rfl, rfl, rfl, rfl, rfl⟩, fun _ => rfl, fun _ => rfl⟩
      split
      · exact ⟨by simp, slashed.trans (@Orderly.of_within _ _ _ [] (by simp) (by decide))⟩
      · exact ⟨by simp, slashed⟩

/-- What a rotation does to the registry. -/
def rotatedRegistry (registry : Registry) (id : Nat) (validator : ValidatorInfo) (newKey : PublicKey)
    (height : Nat) : Registry :=
  { registry with
    validators := registry.validators.put validator.id { validator with consensusKey := newKey }
    keyHistories := registry.keyHistories.put id (rotatedHistory
      (currentHistory ((registry.keyHistories.find? id).bind decodeKeyHistory) validator)
      newKey height) }

/-- A rotation changes the key and the history of the sender's validator. -/
theorem executeRotateConsensusKey_spec : Ensures (fun after => Within [.registry] state after ∧
        ∃ id validator, state.getValidatorByAddress tx.sender = some id ∧
          state.getValidator id = some validator ∧ isNull (read32At tx.payload 0) = false ∧
          after.registry = rotatedRegistry state.registry id validator (read32At tx.payload 0)
            ctx.currentHeight)
      (executeRotateConsensusKey state tx ctx) := by
  simp only [executeRotateConsensusKey, do_iff, guard_eq_some_iff, pure_iff]
  intro _ _ _ valid id owned validator found _ _ _ _ _ _
  refine ⟨by simp, id, validator, owned, found, valid, ?_⟩
  unfold putValidatorKeyHistory rotatedHistory
  rw [if_neg (by simp)]
  rfl

end TransactionExecutor

end Clarity.Core
