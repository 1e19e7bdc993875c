import Clarity.Core.Chain
import Clarity.Core.Selection

/-!
Contract: the emergency set the engine works with, and the one a block is checked against.

Owns: `Node.activeSet`, the callback `active_set` of `Node.cpp`, which reads the height of the head;
the step of the liveness predicate from one height to the next; and when the callback and
`applyBlock`, which reads the height of the block, select the same emergency set.
-/

namespace Clarity

open Crypto Clarity.Core Library State State.StateAccess
open Clarity.Core.BlockProcessor

/-- `active_set`, as `buildConsensusDeps` builds it: the height is that of the head. -/
def Node.activeSet (sorter : Sorter) (state : StateAccess) (headHeight : Nat)
    (forceRotation : Bool) : List Nat :=
  resolveActiveSet sorter state state.loadActiveSet headHeight forceRotation

namespace Core

/-! ## Liveness from one height to the next -/

/-- A validator goes offline at the height that is the kick interval after it was last seen. -/
theorem ValidatorInfo.isOffline_succ (validator : ValidatorInfo) (height : Nat) :
    validator.isOffline (height + 1) =
      (validator.isOffline height ||
        decide (validator.lastSeenHeight + OFFLINE_KICK_BLOCKS = height + 1)) := by
  unfold ValidatorInfo.isOffline OFFLINE_KICK_BLOCKS
  rw [Bool.eq_iff_iff]
  split
  · split
    · simp
      omega
    · simp
      omega
  · split
    · simp
      omega
    · simp
      omega

/-- The member of a committed set whose record is at the edge: live at `height`, offline at the
next one. -/
def GoesOffline (registry : ValidatorRegistry) (height id : Nat) : Prop :=
  ∃ validator, registry.find id = some validator ∧
    validator.lastSeenHeight + OFFLINE_KICK_BLOCKS = height + 1

variable {sorter : Sorter} {registry : ValidatorRegistry} {committed : List Nat} {height id : Nat}

theorem mem_liveMembers : id ∈ liveMembers registry committed height ↔
      id ∈ committed ∧
        ∃ validator, registry.find id = some validator ∧ validator.isOffline height = false := by
  unfold liveMembers
  rw [List.mem_filter]
  cases registry.find id with
  | none => simp
  | some validator => simp

theorem liveMembers_succ (steady : ∀ id ∈ committed, ¬GoesOffline registry height id) :
    liveMembers registry committed (height + 1) = liveMembers registry committed height := by
  unfold liveMembers
  refine List.filter_congr fun id member => ?_
  cases found : registry.find id with
  | none => rfl
  | some validator =>
    have notNow : ¬validator.lastSeenHeight + OFFLINE_KICK_BLOCKS = height + 1 :=
      fun edge => steady id member ⟨validator, found, edge⟩
    dsimp only
    rw [validator.isOffline_succ, decide_eq_false notNow, Bool.or_false]

theorem computeEmergencyActiveSet_succ_iff :
    computeEmergencyActiveSet sorter registry committed height true =
        computeEmergencyActiveSet sorter registry committed (height + 1) true ↔
      committed.length ≤ 1 ∨ ∀ id ∈ committed, ¬GoesOffline registry height id := by
  constructor
  · intro same
    rw [or_iff_not_imp_left]
    rintro large id member ⟨validator, found, edge⟩
    -- At the edge the two heights disagree about this member.
    have live : id ∈ liveMembers registry committed height := by
      refine mem_liveMembers.mpr ⟨member, validator, found, ?_⟩
      unfold ValidatorInfo.isOffline OFFLINE_KICK_BLOCKS at *
      split
      · rfl
      · exact decide_eq_false (by omega)
    have offline : id ∉ liveMembers registry committed (height + 1) := by
      intro stillLive
      obtain ⟨_, record, isRecord, isLive⟩ := mem_liveMembers.mp stillLive
      rw [found] at isRecord
      cases isRecord
      rw [validator.isOffline_succ, decide_eq_true edge, Bool.or_true] at isLive
      cases isLive
    have selected : id ∈ computeEmergencyActiveSet sorter registry committed height true :=
      mem_computeEmergencyActiveSet_iff.mpr (.inl ⟨(mem_liveMembers.mp live).1, .inr live⟩)
    -- a committed member that is not live leaves a set of more than one member
    have fewer : (liveMembers registry committed (height + 1)).length < committed.length := by
      refine Nat.lt_of_le_of_ne (List.length_filter_le _ _) fun full => offline ?_
      have all := List.length_filter_eq_length_iff.mp full
      exact List.mem_filter.mpr ⟨member, all id member⟩
    rw [same, mem_computeEmergencyActiveSet_iff] at selected
    rcases selected with ⟨_, everyone | live⟩ | placed
    · unfold emergencyPlaces at everyone
      rw [if_neg large] at everyone
      omega
    · exact offline live
    · exact chosen_not_committed placed member
  · rintro (small | steady)
    · unfold computeEmergencyActiveSet
      rw [if_pos small, if_pos small]
    · unfold computeEmergencyActiveSet
      rw [liveMembers_succ steady]

end Core

/-! ## The two call sites -/

/-- The registry `resolveActiveSet` builds. -/
def registryOf (state : StateAccess) : ValidatorRegistry :=
  { validators := state.validators, activeSet := state.loadActiveSet }

/-- The engine and `applyBlock` select the same set for emergency blocks on top of a head. -/
def EmergencySetsAgree (env : ChainEnv) (state : StateAccess) (headHeight : Nat) : Prop :=
  ∀ block : Block, block.header.emergency = true → block.header.height = headHeight + 1 →
    Node.activeSet env.sorter state headHeight true = blockSet env state block block.header.height

theorem blockSet_emergency {env : ChainEnv} {state : StateAccess} {block : Block} (height : Nat)
    (emergency : block.header.emergency = true) :
    blockSet env state block height =
      computeEmergencyActiveSet env.sorter (registryOf state) state.loadActiveSet height true := by
  unfold blockSet resolveActiveSet
  rw [emergency, if_neg (by decide)]
  rfl

/-- **The engine and the block processor agree on the emergency set exactly when no committed
member goes offline between the head and the block.** -/
theorem emergencySets_agree_iff (env : ChainEnv) (state : StateAccess) (headHeight : Nat) :
    EmergencySetsAgree env state headHeight ↔
      state.loadActiveSet.length ≤ 1 ∨
        ∀ id ∈ state.loadActiveSet, ¬GoesOffline (registryOf state) headHeight id := by
  rw [← @computeEmergencyActiveSet_succ_iff env.sorter]
  constructor
  · intro agree
    have same := agree
      { header := { height := headHeight + 1, emergencyRotation := 1 } } rfl rfl
    rw [blockSet_emergency _ rfl] at same
    exact same
  · intro same block emergency height
    rw [blockSet_emergency _ emergency, height]
    exact same

namespace Core.Regtest

/-- The two seeds at head height 19, after blocks that named the second one only. -/
def firstSeedSilent : StateAccess := markParticipants (applyGenesis config) [2] 19

def rescueBlock : Block := { header := { height := 20, emergencyRotation := 30 } }

/-- The engine still counts the silent seed, the block processor no longer does. -/
theorem firstSeedSilent_sets_differ : Node.activeSet env.sorter firstSeedSilent 19 true = [1, 2] ∧
      blockSet env firstSeedSilent rescueBlock 20 = [2] ∧
      ¬EmergencySetsAgree env firstSeedSilent 19 := by
  have engine : Node.activeSet env.sorter firstSeedSilent 19 true = [1, 2] := by decide +kernel
  have processor : blockSet env firstSeedSilent rescueBlock 20 = [2] := by decide +kernel
  refine ⟨engine, processor, fun agree => ?_⟩
  have same := agree rescueBlock rfl rfl
  rw [engine] at same
  exact absurd (same.trans processor) (by decide)

end Core.Regtest

end Clarity
