import Clarity.Core.KeyHistory

/-!
Contract: one key, one validator.

Owns: `KeysApart`, that no two registered validators sign with one key; the keys the signatures of
a block are checked with; and the chains in which both stay apart: those whose registrations and
rotations bring keys that no validator has.

No handler looks for the key among the validators: a registration compares addresses, and a rotation
compares the new key to the validator's own.
-/

namespace Clarity.Core

open Common Crypto Library State State.StateAccess
open Clarity.Core.TransactionExecutor Clarity.Core.BlockProcessor

/-- No two validators of the registry sign with one key. -/
def KeysApart (registry : Registry) : Prop :=
  ∀ entry ∈ registry.validators.entries, ∀ other ∈ registry.validators.entries,
    entry.2.effectiveConsensusKey = other.2.effectiveConsensusKey → entry.1 = other.1

instance : DecidablePred KeysApart := fun _ => inferInstanceAs (Decidable (∀ _ ∈ _, _))

/-- No validator of the registry signs with the key. -/
def UnusedKey (registry : Registry) (key : PublicKey) : Prop :=
  ∀ entry ∈ registry.validators.entries, entry.2.effectiveConsensusKey ≠ key

instance (registry : Registry) : DecidablePred (UnusedKey registry) :=
  fun _ => inferInstanceAs (Decidable (∀ _ ∈ _, _))

/-- The key a registration brings: the payload, or the sender's address if the payload is null. -/
def registeredKey (tx : Transaction) : PublicKey :=
  if isNull (read32At tx.payload 0) then tx.sender else read32At tx.payload 0

/-- A registration or a rotation brings a key that no validator has. -/
def BringsUnusedKey : Event → Prop
  | .tx _ state tx _ =>
    (tx.txType = .registerValidator → UnusedKey state.registry (registeredKey tx)) ∧
      (tx.txType = .rotateConsensusKey → UnusedKey state.registry (read32At tx.payload 0))
  | .pass .. => True

instance : DecidablePred BringsUnusedKey
  | .tx .. => inferInstanceAs (Decidable (_ ∧ _))
  | .pass .. => inferInstanceAs (Decidable True)

variable {before after : Registry}

/-- Keys that are kept stay apart. -/
theorem KeysApart.keeps (apart : KeysApart before) (kept : KeepsKeys before after) :
    KeysApart after := by
  intro entry member other otherMember same
  obtain ⟨old, found, key, _⟩ := kept entry.1 entry.2 (Table.find?_eq_some_iff.mpr member)
  obtain ⟨otherOld, otherFound, otherKey, _⟩ :=
    kept other.1 other.2 (Table.find?_eq_some_iff.mpr otherMember)
  refine apart (entry.1, old) (Table.find?_eq_some_iff.mp found) (other.1, otherOld)
    (Table.find?_eq_some_iff.mp otherFound) ?_
  rw [← key, ← otherKey, same]

theorem KeysApart.put (apart : KeysApart before) {slot : Nat} {new : ValidatorInfo}
    (validators : after.validators = before.validators.put slot new)
    (unused : UnusedKey before new.effectiveConsensusKey) : KeysApart after := by
  have written : ∀ entry ∈ after.validators.entries,
      entry = (slot, new) ∨ entry ∈ before.validators.entries := by
    intro entry member
    have found := Table.find?_eq_some_iff.mpr member
    rw [validators, Table.find?_put] at found
    split at found
    next isSlot => exact Or.inl (Prod.ext isSlot (Option.some.inj found).symm)
    · exact Or.inr (Table.find?_eq_some_iff.mp found)
  intro entry member other otherMember same
  rcases written entry member with rfl | kept <;>
    rcases written other otherMember with rfl | otherKept
  · rfl
  · exact absurd same.symm (unused other otherKept)
  · exact absurd same (unused entry kept)
  · exact apart entry kept other otherKept same

/-- In a chain whose registrations and rotations bring unused keys, keys are sound and apart. -/
theorem Chain.keysApart {env : ChainEnv} {config : GenesisConfig} {blocks : List Block}
    {state : StateAccess} (chain : Chain env config blocks state)
    (genesis : KeysApart (applyGenesis config).registry)
    (fresh : ∀ event ∈ chainEvents env config blocks, BringsUnusedKey event) :
    KeysApart state.registry := by
  refine (@Grows.keeps_registry env config.chainId 0 BringsUnusedKey
    (fun current registry => SoundKeys current registry ∧ KeysApart registry) _ state blocks chain
    fresh (genesis_ownIds config) ?_ ?_ ?_ ?_ ⟨genesis_soundKeys config, genesis⟩).2.2
  · exact fun current _ held => ⟨held.1.mono (Nat.le_succ current), held.2⟩
  · intro current before _ tx account _ brings kind signed _ held
    exact ⟨held.1.registered account signed, held.2.put rfl (brings.1 kind)⟩
  · intro current before _ tx id v above brings kind _ found valid own held
    refine ⟨held.1.rotated own found valid above, held.2.put rfl ?_⟩
    have signs : ({ v with consensusKey := read32At tx.payload 0 } :
        ValidatorInfo).effectiveConsensusKey = read32At tx.payload 0 := by
      unfold ValidatorInfo.effectiveConsensusKey
      rw [valid]
      rfl
    rw [signs]
    exact brings.2 kind
  · intro current before after own move held
    have kept := held.1.keepsKeys own move
    exact ⟨held.1.keeps kept, held.2.keeps kept⟩

/-! ## The keys of a quorum -/

/-- The keys that `checkQuorum` checks the signatures of a block with. -/
def quorumKeys (state : StateAccess) (activeSet : List Nat) (block : Block) : List PublicKey :=
  block.quorumSignatures.filterMap fun entry =>
    activeSet[entry.signerIndex]?.bind fun id => state.validatorKeyAtHeight id block.header.height

theorem Extends.quorum {env : ChainEnv} {chainId height : Nat} {state after : StateAccess}
    {block : Block} (accepted : Extends env chainId height state block after) :
    block.header.height = height ∧
      checkQuorum env.crypto (opened state height).view block
        (blockSet env (opened state height) block height) = .ok () := by
  obtain ⟨nowMs, result, ran⟩ := accepted
  obtain ⟨run, checks, _⟩ := applyBlock_ok_iff.mp ran
  exact ⟨(checkHeader_ok checks.header).2.1, ((checkSet_ok_iff rfl).mp checks.set).2⟩

/-- Signatures at different positions are checked with different keys. -/
theorem quorumKeys_apart {env : ChainEnv} {height : Nat} {state : StateAccess} {block : Block}
    {activeSet : List Nat} (sound : SoundKeys height state.registry)
    (apart : KeysApart state.registry) (above : height < block.header.height)
    (distinct : activeSet.Nodup)
    (quorum : checkQuorum env.crypto state.view block activeSet = .ok ()) :
    (quorumKeys state activeSet block).Nodup ∧
      bftQuorum activeSet.length ≤ (quorumKeys state activeSet block).length := by
  obtain ⟨enough, indices, signed⟩ := checkQuorum_ok_iff.mp quorum
  have keyed : ∀ entry ∈ block.quorumSignatures, ∃ id v, activeSet[entry.signerIndex]? = some id ∧
      state.registry.validators.find? id = some v ∧
      state.validatorKeyAtHeight id block.header.height = some v.effectiveConsensusKey := by
    intro entry member
    obtain ⟨_, id, key, signedBy⟩ := signed entry member
    obtain ⟨v, found⟩ := Option.isSome_iff_exists.mp signedBy.registered
    exact ⟨id, v, signedBy.position, found, sound.keyAtHeight found above⟩
  constructor
  · unfold quorumKeys
    rw [List.Nodup, List.pairwise_filterMap]
    refine List.Pairwise.imp_of_mem ?_ (List.pairwise_map.mp indices)
    intro entry other member otherMember different key isKey otherKey isOtherKey same
    obtain ⟨id, v, position, found, atHeight⟩ := keyed entry member
    obtain ⟨otherId, w, otherPosition, otherFound, otherAtHeight⟩ := keyed other otherMember
    rw [position, Option.bind_some, atHeight] at isKey
    rw [otherPosition, Option.bind_some, otherAtHeight] at isOtherKey
    have sameId : id = otherId := by
      refine apart (id, v) (Table.find?_eq_some_iff.mp found) (otherId, w)
        (Table.find?_eq_some_iff.mp otherFound) ?_
      rw [Option.some.inj isKey, Option.some.inj isOtherKey, same]
    apply different
    rw [← List.getElem?_inj (List.getElem?_eq_some_iff.mp position).1 distinct, position,
      otherPosition, sameId]
  · have all : (quorumKeys state activeSet block).length = block.quorumSignatures.length := by
      refine List.filterMap_length_eq_length.mpr ?_
      intro entry member
      obtain ⟨id, v, position, _, atHeight⟩ := keyed entry member
      rw [position, Option.bind_some, atHeight]
      rfl
    rw [all]
    exact enough

/-- In every chain whose registrations and rotations bring keys that no validator has, no two
validators sign with one key; and the signatures of the next block, over a set that lists nobody
twice, come from a quorum of keys. -/
theorem chain_keys_apart {env : ChainEnv} {config : GenesisConfig} {blocks : List Block}
    {state : StateAccess} (chain : Chain env config blocks state)
    (genesis : KeysApart (applyGenesis config).registry)
    (fresh : ∀ event ∈ chainEvents env config blocks, BringsUnusedKey event) :
    KeysApart state.registry ∧ ∀ block after,
      Extends env config.chainId (blocks.length + 1) state block after →
      (blockSet env (opened state (blocks.length + 1)) block (blocks.length + 1)).Nodup →
      (quorumKeys state (blockSet env (opened state (blocks.length + 1)) block (blocks.length + 1))
          block).Nodup ∧
        bftQuorum (blockSet env (opened state (blocks.length + 1)) block
            (blocks.length + 1)).length ≤
          (quorumKeys state (blockSet env (opened state (blocks.length + 1)) block
            (blocks.length + 1)) block).length := by
  have apart := chain.keysApart genesis fresh
  refine ⟨apart, fun block after accepted distinct => ?_⟩
  obtain ⟨height, quorum⟩ := accepted.quorum
  exact @quorumKeys_apart env blocks.length state block _ chain.soundKeys apart (by omega) distinct
    quorum

/-! ## A key for two validators -/

namespace Regtest

/-- The second seed rotates to the key of the first one. -/
def copyKey : Transaction :=
  { chainId := 1
    txType := .rotateConsensusKey
    nonce := 0
    sender := 11
    fee := 1
    payload := bytes32 101 }

/-- Both seeds sign with one key, and the next block has a quorum of that key alone. -/
theorem copied_key_makes_quorum : Chain env config (blocks [[copyKey]]) (stateAfter [[copyKey]]) ∧
      ¬KeysApart (stateAfter [[copyKey]]).registry ∧
      (∃ after, Extends env config.chainId 2 (stateAfter [[copyKey]]) (block 2 []) after) ∧
      quorumKeys (stateAfter [[copyKey]]) [1, 2] (block 2 []) = [101, 101] := by
  refine ⟨chain_of_accepts ?_, ?_, ⟨_, extends_of_accepts ?_⟩, ?_⟩ <;> decide +kernel

/-- A rotation to a new key keeps the keys apart, and the next block has two keys. -/
theorem rotated_key_apart : KeysApart (stateAfter [[rotate 0]]).registry ∧
      (quorumKeys (stateAfter [[rotate 0]]) [1, 2] (block 2 [])).Nodup := by
  have chain : Chain env config (blocks [[rotate 0]]) (stateAfter [[rotate 0]]) :=
    chain_of_accepts (by decide +kernel)
  obtain ⟨apart, quorum⟩ := chain_keys_apart chain (by decide +kernel) (by decide +kernel)
  refine ⟨apart, ?_⟩
  have set : blockSet env (opened (stateAfter [[rotate 0]]) 2) (block 2 []) 2 = [1, 2] := by
    decide +kernel
  have next := quorum (block 2 []) _ (extends_of_accepts (by decide +kernel)) (by decide +kernel)
  exact set ▸ next.1

end Regtest

end Clarity.Core
