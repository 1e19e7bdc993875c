import Clarity.Core.Chain

/-!
Contract: the signing key of a validator at a past height.

Owns:
- `Tracks`, the shape of a stored key history: sealed entries, then one open entry with the
  current key;
- `SoundKeys`, every validator of the registry has such a history, and the key it signs with
  is not null; it holds in every chain;
- `validatorKeyAtHeight` for the next height, and for a past height under the condition that
  the key was not rotated at that very height.
-/

namespace Clarity.Core

open Common Crypto Library State State.StateAccess
open Clarity.Core.TransactionExecutor Clarity.Core.BlockProcessor Relation

variable {v : ValidatorInfo} {newKey : PublicKey} {current : Nat}

/-! ## Histories -/

theorem keyInHistory_eq_find (history : List KeyRotation) (height : Nat) :
    keyInHistory history height = (history.find? (coversHeight height)).map KeyRotation.key := by
  unfold keyInHistory
  split
  next only =>
    split
    next isOpen =>
      have covers : coversHeight height only = true := by
        simp [coversHeight, isOpen.1, isOpen.2]
      rw [List.find?_cons_of_pos covers]
      rfl
    next => rfl
  next => rfl

/-- A history at a height: every entry but the last is sealed, the last is open and has the
current key. -/
inductive Tracks (height : Nat) (key : PublicKey) : List KeyRotation → Prop
  | intro (past : List KeyRotation) (last : KeyRotation) (isOpen : last.validUntilHeight = 0)
      (begun : last.validFromHeight ≤ height) (signs : last.key = key)
      (done : ∀ entry ∈ past, entry.validUntilHeight ≠ 0 ∧ entry.validUntilHeight ≤ height) :
      Tracks height key (past ++ [last])

theorem sealLast_append (height : Nat) (past : List KeyRotation) (last : KeyRotation) :
    sealLast height (past ++ [last]) = past ++ [{ last with validUntilHeight := height }] := by
  induction past with
  | nil => rfl
  | cons first rest ih =>
    rw [List.cons_append, List.cons_append, ← ih]
    cases rest <;> rfl

namespace Tracks

variable {height : Nat} {key : PublicKey} {history : List KeyRotation}
  (tracks : Tracks height key history)

include tracks

theorem mono {later : Nat} (after : height ≤ later) : Tracks later key history := by
  obtain ⟨past, last, isOpen, begun, signs, done⟩ := tracks
  refine ⟨past, last, isOpen, by omega, signs, ?_⟩
  intro entry member
  have ended := done entry member
  exact ⟨ended.1, by omega⟩

theorem ne_nil : history ≠ [] := by
  obtain ⟨past, last, _, _, _, _⟩ := tracks
  simp

/-- The current key is the one found for every later height. -/
theorem keyInHistory_later {later : Nat}
    (after : height < later) : keyInHistory history later = some key := by
  obtain ⟨past, last, isOpen, begun, signs, done⟩ := tracks
  have skipped : past.find? (coversHeight later) = none := by
    apply List.find?_eq_none.mpr
    intro entry member
    have ended := done entry member
    simp only [coversHeight, Bool.and_eq_true, Bool.or_eq_true, decide_eq_true_eq, beq_iff_eq]
    omega
  have covers : coversHeight later last = true := by
    have from_le : last.validFromHeight ≤ later := by omega
    simp [coversHeight, isOpen, from_le]
  rw [keyInHistory_eq_find, List.find?_append, skipped, Option.none_or,
    List.find?_cons_of_pos covers, Option.map_some, signs]

/-- A rotation keeps the shape and enters the new key. -/
theorem rotated {now : Nat} (newKey : PublicKey) (after : height ≤ now) (positive : 0 < now) :
    Tracks now newKey (rotatedHistory history newKey now) := by
  obtain ⟨past, last, isOpen, begun, signs, done⟩ := tracks
  unfold rotatedHistory
  rw [sealLast_append]
  refine ⟨_, _, rfl, Nat.le_refl now, rfl, ?_⟩
  intro entry member
  rcases List.mem_append.mp member with older | isLast
  · have ended := done entry older
    exact ⟨ended.1, by omega⟩
  · rw [List.mem_singleton.mp isLast]
    exact ⟨by dsimp only; omega, Nat.le_refl now⟩

/-- A rotation after a height leaves the key found for that height. -/
theorem keyInHistory_rotated {now earlier : Nat} {found : PublicKey} (newKey : PublicKey)
    (read : keyInHistory history earlier = some found) (after : earlier < now) :
    keyInHistory (rotatedHistory history newKey now) earlier = some found := by
  obtain ⟨past, last, isOpen, _, _, _⟩ := tracks
  rw [keyInHistory_eq_find, List.find?_append] at read
  rw [keyInHistory_eq_find]
  unfold rotatedHistory
  rw [sealLast_append, List.append_assoc, List.find?_append]
  cases older : past.find? (coversHeight earlier) with
  | some entry =>
    rw [older] at read
    exact read
  | none =>
    -- the open entry covers the height, and it still does once it is sealed above it
    rw [older, Option.none_or] at read
    have covers : coversHeight earlier last = true := by
      cases test : coversHeight earlier last with
      | true => rfl
      | false => simp [test] at read
    have began : last.validFromHeight ≤ earlier := by
      simp only [coversHeight, Bool.and_eq_true, decide_eq_true_eq] at covers
      exact covers.1
    have stillCovers : coversHeight earlier { last with validUntilHeight := now } = true := by
      simp [coversHeight, began, after]
    rw [List.find?_cons_of_pos covers] at read
    rw [Option.none_or, List.cons_append, List.find?_cons_of_pos stillCovers]
    exact read

end Tracks

/-! ## The registry -/

/-- Every validator is registered by now and signs with a key, and its history tracks that
key. -/
def SoundKeys (height : Nat) (registry : Registry) : Prop :=
  ∀ id v, registry.validators.find? id = some v →
    v.registeredAtHeight ≤ height ∧ isNull v.effectiveConsensusKey = false ∧
      ∃ history, registry.keyHistories.find? id = some history ∧
        Tracks height v.effectiveConsensusKey history

/-- Every validator that is left was there before, with the key and the history it has now. -/
def KeepsKeys (before after : Registry) : Prop :=
  ∀ id v, after.validators.find? id = some v →
    ∃ old, before.validators.find? id = some old ∧
      v.effectiveConsensusKey = old.effectiveConsensusKey ∧
      v.registeredAtHeight = old.registeredAtHeight ∧
      after.keyHistories.find? id = before.keyHistories.find? id

theorem readdressed_key (address : Address) (keyed : isNull v.effectiveConsensusKey = false) :
    (readdressed v address).effectiveConsensusKey = v.effectiveConsensusKey := by
  by_cases unset : isNull v.consensusKey = true
  · have isAddress : v.effectiveConsensusKey = v.rewardAddress := if_pos unset
    have written : (readdressed v address).consensusKey = v.effectiveConsensusKey := if_pos unset
    unfold ValidatorInfo.effectiveConsensusKey
    rw [written, keyed, isAddress]
    simp [unset]
  · have written : (readdressed v address).consensusKey = v.consensusKey := if_neg unset
    unfold ValidatorInfo.effectiveConsensusKey
    rw [written, if_neg unset, if_neg unset]

/-- A record that is written over another one with the same key. -/
theorem keepsKeys_put {registry changed : Registry} {id : Nat} {old new : ValidatorInfo}
    (own : OwnIds registry) (found : registry.validators.find? id = some old)
    (validators : changed.validators = registry.validators.put old.id new)
    (histories : changed.keyHistories = registry.keyHistories)
    (key : new.effectiveConsensusKey = old.effectiveConsensusKey)
    (since : new.registeredAtHeight = old.registeredAtHeight) : KeepsKeys registry changed := by
  intro other v stored
  rw [validators, Table.find?_put, own id old found] at stored
  rw [histories]
  split at stored
  next isId =>
    cases stored
    rw [isId]
    exact ⟨old, found, key, since, rfl⟩
  next => exact ⟨v, stored, rfl, rfl, rfl⟩

namespace SoundKeys

variable {height : Nat} {before after : Registry}
  (sound : SoundKeys height before)

include sound

theorem mono {later : Nat} (above : height ≤ later) : SoundKeys later before := by
  intro id v found
  obtain ⟨since, keyed, history, stored, tracks⟩ := sound id v found
  exact ⟨since.trans above, keyed, history, stored, tracks.mono above⟩

theorem keeps (kept : KeepsKeys before after) : SoundKeys height after := by
  intro id v found
  obtain ⟨old, foundOld, key, since, histories⟩ := kept id v found
  rw [key, since, histories]
  exact sound id old foundOld

/-- The moves of the registry leave keys and histories alone. -/
theorem keepsKeys (own : OwnIds before)
    (move : RegistryMove ⟨false, false⟩ before after) : KeepsKeys before after := by
  cases move with
  | update id old new found same =>
    exact keepsKeys_put own found (by rw [same.id]) rfl same.effectiveConsensusKey
      same.registeredAtHeight
  | activeSet ids => exact fun id v found => ⟨v, found, rfl, rfl, rfl⟩
  | readdress id old address found valid =>
    exact keepsKeys_put own found rfl rfl (readdressed_key address (sound id old found).2.1) rfl
  | remove id old found _ =>
    intro other v stored
    have read : (before.validators.erase old.id).find? other = some v := stored
    rw [Table.find?_erase] at read
    split at read
    · cases read
    next isOther =>
      refine ⟨v, read, rfl, rfl, ?_⟩
      have histories : (before.keyHistories.erase old.id).find? other =
          before.keyHistories.find? other := by
        rw [Table.find?_erase, if_neg isOther]
      exact histories

theorem registered {tx : Transaction} (account : Account) (signed : isNull tx.sender = false) :
    SoundKeys height (registeredRegistry before tx account height) := by
  intro id v found
  have read : (before.validators.put (before.nextValidatorId.getD 1)
      (newValidator tx account (before.nextValidatorId.getD 1) height)).find? id = some v := found
  show _ ∧ _ ∧ ∃ history, (before.keyHistories.put (before.nextValidatorId.getD 1)
    [{ key := (newValidator tx account (before.nextValidatorId.getD 1) height).effectiveConsensusKey
       validFromHeight := height
       validUntilHeight := 0 }]).find? id = some history ∧ _
  rw [Table.find?_put] at read
  rw [Table.find?_put]
  split at read
  next isNext =>
    cases read
    rw [if_pos isNext]
    refine ⟨Nat.le_refl height, ?_, _, rfl, .intro [] _ rfl (Nat.le_refl height) rfl (by simp)⟩
    unfold ValidatorInfo.effectiveConsensusKey
    split
    · exact signed
    next isKey => exact Bool.eq_false_iff.mpr isKey
  next isOther =>
    rw [if_neg isOther]
    exact sound id v read

/-- The stored history of a validator, as a rotation reads it, tracks the key. -/
theorem currentHistory_tracks {id : Nat} (found : before.validators.find? id = some v) :
    Tracks height v.effectiveConsensusKey
      (currentHistory ((before.keyHistories.find? id).bind decodeKeyHistory) v) := by
  obtain ⟨since, _, history, stored, tracks⟩ := sound id v found
  rw [stored, Option.bind_some]
  cases decoded : decodeKeyHistory history with
  | none => exact .intro [] _ rfl since rfl (by simp)
  | some read =>
    obtain ⟨_, same⟩ := decodeKeyHistory_eq_some_iff.mp decoded
    rw [same]
    cases history with
    | nil => exact absurd rfl tracks.ne_nil
    | cons first rest => exact tracks

/-- A rotation enters the new key for the sender's validator and touches no other. -/
theorem rotated {id : Nat} (own : OwnIds before)
    (found : before.validators.find? id = some v) (valid : isNull newKey = false)
    (positive : 0 < height) : SoundKeys height (rotatedRegistry before id v newKey height) := by
  intro other w stored
  have readRecord : (before.validators.put v.id { v with consensusKey := newKey }).find? other =
      some w := stored
  show _ ∧ _ ∧ ∃ history, (before.keyHistories.put id (rotatedHistory
    (currentHistory ((before.keyHistories.find? id).bind decodeKeyHistory) v) newKey
    height)).find? other = some history ∧ _
  rw [Table.find?_put] at readRecord
  rw [Table.find?_put]
  split at readRecord
  next isId =>
    cases readRecord
    rw [if_pos (isId.trans (own id v found))]
    have signs : ({ v with consensusKey := newKey } : ValidatorInfo).effectiveConsensusKey =
        newKey := by
      unfold ValidatorInfo.effectiveConsensusKey
      rw [valid]
      rfl
    rw [signs]
    exact ⟨(sound id v found).1, valid, _, rfl,
      (sound.currentHistory_tracks found).rotated newKey (Nat.le_refl height) positive⟩
  next isOther =>
    rw [if_neg (own id v found ▸ isOther)]
    exact sound other w readRecord

end SoundKeys

theorem genesis_soundKeys (config : GenesisConfig) : SoundKeys 0 (applyGenesis config).registry := by
  refine @applyGenesis_induction (fun state => SoundKeys 0 state.registry) config ?_ ?_ ?_ ?_ ?_ ?_
  · exact fun _ _ found => by cases found
  · exact fun _ _ _ sound => sound
  · exact fun _ sound => sound
  · intro state entry sound
    rw [registry_putAccount]
    exact sound
  · intro state entry sound id v found
    have keyed : isNull (genesisValidator entry).effectiveConsensusKey = false := by
      unfold ValidatorInfo.effectiveConsensusKey
      split
      · exact entry.hasAddress
      next isKey => exact Bool.eq_false_iff.mpr isKey
    have read : (state.tree.validators.put entry.id (genesisValidator entry)).find? id = some v :=
      found
    show _ ∧ _ ∧ ∃ history, (state.tree.keyHistories.put entry.id
      [{ key := (genesisValidator entry).effectiveConsensusKey
         validFromHeight := 0
         validUntilHeight := 0 }]).find? id = some history ∧ _
    rw [Table.find?_put] at read
    rw [Table.find?_put]
    split at read
    next isEntry =>
      cases read
      rw [if_pos isEntry]
      exact ⟨Nat.le_refl 0, keyed, _, rfl, .intro [] _ rfl (Nat.le_refl 0) rfl (by simp)⟩
    next isOther =>
      rw [if_neg isOther]
      exact sound id v read
  · exact fun _ _ sound => sound

theorem Chain.soundKeys {env : ChainEnv} {config : GenesisConfig} {blocks : List Block}
    {state : StateAccess} (chain : Chain env config blocks state) :
    SoundKeys blocks.length state.registry := by
  rw [← Nat.zero_add blocks.length]
  refine (@Grows.keeps_registry env config.chainId 0 (fun _ => True) SoundKeys _ state blocks chain
    (fun _ _ => trivial) (genesis_ownIds config) ?_ ?_ ?_ ?_ (genesis_soundKeys config)).2
  · exact fun current _ sound => sound.mono (Nat.le_succ current)
  · intro current before _ tx account _ _ _ signed _ sound
    exact sound.registered account signed
  · intro current before _ tx id v above _ _ _ found valid own sound
    exact sound.rotated own found valid above
  · intro current before after own move sound
    exact sound.keeps (sound.keepsKeys own move)

/-! ## The key at a height -/

/-- In every chain the key read for the next height is the key of the record. -/
theorem SoundKeys.keyAtHeight {height later id : Nat} {state : StateAccess}
    (sound : SoundKeys height state.registry) (found : state.getValidator id = some v)
    (above : height < later) :
    state.validatorKeyAtHeight id later = some v.effectiveConsensusKey := by
  obtain ⟨_, _, history, stored, tracks⟩ := sound id v found
  have stored : state.tree.keyHistories.find? id = some history := stored
  unfold validatorKeyAtHeight getValidatorKeyHistory
  rw [stored, Option.bind_some]
  cases decoded : decodeKeyHistory history with
  | none => simp [found]
  | some read =>
    obtain ⟨_, same⟩ := decodeKeyHistory_eq_some_iff.mp decoded
    rw [same]
    exact tracks.keyInHistory_later above

/-- The condition under which the key of a validator at a height stays on record: its key is not
rotated in the block of that height, nor once the history is full, and its id is not given to a
new validator. -/
def keepsKeyAt (id height : Nat) : Event → Prop
  | .tx current state tx _ =>
    (tx.txType = .rotateConsensusKey → state.getValidatorByAddress tx.sender = some id →
      current ≠ height ∧
        ∀ history ∈ state.tree.keyHistories.find? id, history.length < MAX_KEY_ROTATIONS) ∧
    (tx.txType = .registerValidator → (state.getGlobal .nextValidatorId).getD 1 ≠ id)
  | .pass .. => True

instance (id height : Nat) : DecidablePred (keepsKeyAt id height)
  | .tx .. => inferInstanceAs (Decidable (_ ∧ _))
  | .pass .. => inferInstanceAs (Decidable True)

/-- What is on record for a validator at a height: the key is in its history, or the history does
not decode and the key is the current one. -/
def Remembers (id height : Nat) (key : PublicKey) (registry : Registry) : Prop :=
  ∀ v, registry.validators.find? id = some v →
    ∃ history, registry.keyHistories.find? id = some history ∧
      (history.length ≤ MAX_KEY_ROTATIONS ∧ keyInHistory history height = some key ∨
        MAX_KEY_ROTATIONS < history.length ∧ v.effectiveConsensusKey = key)

namespace Remembers

variable {id height : Nat} {key : PublicKey} {before after : Registry}
  (remembers : Remembers id height key before)

include remembers

theorem keeps (kept : KeepsKeys before after) : Remembers id height key after := by
  intro v found
  obtain ⟨old, foundOld, sameKey, _, histories⟩ := kept id v found
  rw [sameKey, histories]
  exact remembers old foundOld

/-- A registration under another id. -/
theorem registered {tx : Transaction} {account : Account} (other : before.nextValidatorId.getD 1 ≠ id) :
    Remembers id height key (registeredRegistry before tx account current) := by
  intro v found
  have read : (before.validators.put (before.nextValidatorId.getD 1)
      (newValidator tx account (before.nextValidatorId.getD 1) current)).find? id = some v := found
  rw [Table.find?_put, if_neg (Ne.symm other)] at read
  obtain ⟨history, stored, onRecord⟩ := remembers v read
  refine ⟨history, ?_, onRecord⟩
  show (before.keyHistories.put (before.nextValidatorId.getD 1) _).find? id = some history
  rw [Table.find?_put, if_neg (Ne.symm other)]
  exact stored

theorem rotated_other {rotatedId : Nat} (own : OwnIds before)
    (found : before.validators.find? rotatedId = some v) (other : rotatedId ≠ id) :
    Remembers id height key (rotatedRegistry before rotatedId v newKey current) := by
  intro w stored
  have read : (before.validators.put v.id { v with consensusKey := newKey }).find? id = some w :=
    stored
  rw [Table.find?_put, if_neg (by rw [own rotatedId v found]; exact Ne.symm other)] at read
  obtain ⟨history, kept, onRecord⟩ := remembers w read
  refine ⟨history, ?_, onRecord⟩
  show (before.keyHistories.put rotatedId _).find? id = some history
  rw [Table.find?_put, if_neg (Ne.symm other)]
  exact kept

/-- A later rotation of its own key, while the history has room. -/
theorem rotated_self (sound : SoundKeys current before)
    (found : before.validators.find? id = some v) (later : height < current)
    (room : ∀ history ∈ before.keyHistories.find? id, history.length < MAX_KEY_ROTATIONS) :
    Remembers id height key (rotatedRegistry before id v newKey current) := by
  intro w _
  obtain ⟨history, stored, onRecord⟩ := remembers v found
  have short := room history stored
  have decoded : decodeKeyHistory history = some history :=
    decodeKeyHistory_eq_some_iff.mpr ⟨Nat.le_of_lt short, rfl⟩
  have tracks := sound.currentHistory_tracks found
  have read : currentHistory ((before.keyHistories.find? id).bind decodeKeyHistory) v = history := by
    obtain ⟨_, _, storedHistory, isStored, shape⟩ := sound id v found
    rw [stored] at isStored
    cases isStored
    rw [stored, Option.bind_some, decoded]
    cases history with
    | nil => exact absurd rfl shape.ne_nil
    | cons first rest => rfl
  have found : keyInHistory history height = some key := by
    rcases onRecord with ⟨_, found⟩ | ⟨long, _⟩
    · exact found
    · omega
  refine ⟨rotatedHistory history newKey current, ?_, .inl ⟨?_, ?_⟩⟩
  · show (before.keyHistories.put id _).find? id = _
    rw [Table.find?_put, if_pos rfl, read]
  · rw [read] at tracks
    obtain ⟨past, last, _, _, _, _⟩ := tracks
    unfold rotatedHistory
    rw [sealLast_append]
    simp only [List.length_append, List.length_singleton] at short ⊢
    omega
  · rw [read] at tracks
    exact tracks.keyInHistory_rotated newKey found later

end Remembers

/-- As long as the condition is met, a validator that is still registered has on record the key
its record had before the block of a height, that is, the key its votes at that height were
checked with. -/
theorem validatorKeyAtHeight_eq_voting_key {env : ChainEnv} {config : GenesisConfig}
    {blocks more : List Block} {before state : StateAccess} {id : Nat} {v w : ValidatorInfo}
    (chain : Chain env config blocks before) (voter : before.getValidator id = some v)
    (grows : Grows env config.chainId blocks.length before more state)
    (kept : ∀ event ∈ eventsOf env config.chainId blocks.length before more,
      keepsKeyAt id (blocks.length + 1) event)
    (held : state.getValidator id = some w) :
    state.validatorKeyAtHeight id (blocks.length + 1) = some v.effectiveConsensusKey := by
  have sound := chain.soundKeys
  have start : Remembers id (blocks.length + 1) v.effectiveConsensusKey before.registry := by
    intro old found
    have isVoter : old = v := Option.some.inj (found.symm.trans voter)
    obtain ⟨_, _, history, stored, tracks⟩ := sound id old found
    refine ⟨history, stored, ?_⟩
    by_cases short : history.length ≤ MAX_KEY_ROTATIONS
    · rw [isVoter] at tracks
      exact .inl ⟨short, tracks.keyInHistory_later (Nat.lt_succ_self _)⟩
    · exact .inr ⟨by omega, by rw [isVoter]⟩
  have kept := @Grows.keeps_registry env config.chainId blocks.length
    (keepsKeyAt id (blocks.length + 1))
    (fun current registry => SoundKeys current registry ∧
      Remembers id (blocks.length + 1) v.effectiveConsensusKey registry)
    before state more grows kept chain.ownIds ?_ ?_ ?_ ?_ ⟨sound, start⟩
  · obtain ⟨_, _, remembers⟩ := kept
    obtain ⟨history, stored, onRecord⟩ := remembers w held
    have stored : state.tree.keyHistories.find? id = some history := stored
    unfold validatorKeyAtHeight getValidatorKeyHistory
    rw [stored, Option.bind_some]
    rcases onRecord with ⟨short, found⟩ | ⟨long, current⟩
    · rw [decodeKeyHistory_eq_some_iff.mpr ⟨short, rfl⟩]
      exact found
    · have refused : decodeKeyHistory history = none := by
        cases decoded : decodeKeyHistory history with
        | none => rfl
        | some read =>
          have short := (decodeKeyHistory_eq_some_iff.mp decoded).1
          omega
      rw [refused]
      simp [held, current]
  · exact fun current _ ⟨sound, remembers⟩ => ⟨sound.mono (Nat.le_succ current), remembers⟩
  · intro current middle _ tx account _ allowed kind signed _ ⟨sound, remembers⟩
    exact ⟨sound.registered account signed, remembers.registered (allowed.2 kind)⟩
  · intro current middle _ tx rotatedId old above allowed kind owned found valid own
      ⟨sound, remembers⟩
    refine ⟨sound.rotated own found valid (by omega), ?_⟩
    by_cases isId : rotatedId = id
    · rw [isId] at owned found ⊢
      obtain ⟨otherHeight, room⟩ := allowed.1 kind owned
      exact remembers.rotated_self sound found (by omega) room
    · exact remembers.rotated_other own found isId
  · intro current registry changed own move ⟨sound, remembers⟩
    have keeps := sound.keepsKeys own move
    exact ⟨sound.keeps keeps, remembers.keeps keeps⟩

namespace Regtest

/-- The first seed rotates its signing key. -/
def rotate (nonce : Nat) : Transaction :=
  { chainId := 1
    txType := .rotateConsensusKey
    nonce := nonce
    sender := 10
    fee := 1
    payload := bytes32 201 }

/-- A rotation in the block after the height leaves the key of the height on record. -/
theorem rotated_later_key : (stateAfter [[], [rotate 0]]).validatorKeyAtHeight 1 1 = some 101 := by
  have chain : Chain env config (blocks [[], [rotate 0]]) (stateAfter [[], [rotate 0]]) :=
    chain_of_accepts (by decide +kernel)
  have voter : (applyGenesis config).getValidator 1 = some
      { id := 1, rewardAddress := 10, consensusKey := 101, owner := 10
        stake := GlobalConfig.VALIDATOR_MIN_STAKE, isSeed := true, isActive := true } := by
    decide +kernel
  obtain ⟨held, isHeld⟩ : ∃ held, (stateAfter [[], [rotate 0]]).getValidator 1 = some held :=
    Option.isSome_iff_exists.mp (by decide +kernel)
  exact validatorKeyAtHeight_eq_voting_key .start voter chain (by decide +kernel) isHeld

/-- A rotation in the block of the height itself replaces the key the votes of that height were
checked with. -/
theorem rotated_inside_height_key :
    Chain env config (blocks [[rotate 0]]) (stateAfter [[rotate 0]]) ∧
      ((applyGenesis config).getValidator 1).map ValidatorInfo.effectiveConsensusKey = some 101 ∧
      ((stateAfter [[rotate 0]]).getValidator 1).isSome = true ∧
      (stateAfter [[rotate 0]]).validatorKeyAtHeight 1 1 = some 201 := by
  refine ⟨chain_of_accepts ?_, ?_, ?_, ?_⟩ <;> decide +kernel

end Regtest

end Clarity.Core
