import Clarity.Core.Selection
import Clarity.Core.Stake

/-!
Contract: who takes the place of a validator that is offline.

Owns: what the offline check promotes (`ReplacesOffline`), which members and which waiting
validators make up an emergency set, when that set can be used (`UsableSet`), and when it has a
quorum without the validators that stopped signing.

The offline check plans over a registry of the members only, so that no waiting validator is in
it. The emergency rotation plans over all records, but a member counts as live for
`OFFLINE_KICK_BLOCKS` heights after it was last seen, and while the chain stalls there are none.
-/

namespace Clarity.Core

open Common Library State State.StateAccess Clarity.Core.BlockProcessor

variable {sorter : Sorter} {state : StateAccess} {committed : List Nat} {height : Nat}

/-- All records, as `resolveActiveSet` loads them. -/
def fullRegistry (state : StateAccess) (committed : List Nat) : ValidatorRegistry :=
  { validators := state.validators, activeSet := committed }

/-- The validators that wait for a place. -/
def waitingValidators (state : StateAccess) (committed : List Nat) : List ValidatorInfo :=
  additionCandidates (fullRegistry state committed) committed

theorem length_chosen {less : ValidatorInfo → ValidatorInfo → Bool}
    {candidates : List ValidatorInfo} {places : Nat} :
    (chosen sorter less candidates places).length = min places candidates.length := by
  unfold chosen
  rw [List.length_take, List.length_map, (sorter.perm _ _).length_eq]

theorem chosen_candidate {less : ValidatorInfo → ValidatorInfo → Bool}
    {candidates : List ValidatorInfo} {places id : Nat}
    (placed : id ∈ chosen sorter less candidates places) : ∃ v ∈ candidates, v.id = id := by
  obtain ⟨v, sorted, isId⟩ := List.mem_map.mp (List.mem_of_mem_take placed)
  exact ⟨v, (sorter.perm _ _).mem_iff.mp sorted, isId⟩

/-! ## Offline removal -/

/-- The members only, as `runOfflineCheck` loads them. -/
def memberRegistry (state : StateAccess) : ValidatorRegistry :=
  { validators := state.loadActiveSet.filterMap state.getValidator
    activeSet := state.loadActiveSet }

def removedMembers (state : StateAccess) (height : Nat) : List Nat :=
  offlineMembers (memberRegistry state) height

/-- As many of the waiting validators as there are places are promoted, the preferred ones first. -/
structure ReplacesOffline (sorter : Sorter) (state : StateAccess) (height : Nat) : Prop where
  promoted : ∃ ranked, Ranks additionOrder (waitingValidators state state.loadActiveSet) ranked ∧
    (planOfflineRemoval sorter (memberRegistry state) height).promoted =
      (ranked.map ValidatorInfo.id).take (removedMembers state height).length
  size : (runOfflineCheck sorter state height).loadActiveSet.length =
    state.loadActiveSet.length - (removedMembers state height).length +
      min (removedMembers state height).length
        (waitingValidators state state.loadActiveSet).length

/-- The members that stay and are taken for waiting: their records are not flagged active. -/
def strayMembers (state : StateAccess) (height : Nat) : List ValidatorInfo :=
  additionCandidates (memberRegistry state) (removedMembers state height)

theorem length_without_filter (ids : List Nat) (leaves : Nat → Bool) :
    (ids.filter fun id => !(ids.filter leaves).contains id).length =
      ids.length - (ids.filter leaves).length := by
  have same : ∀ id ∈ ids, (!(ids.filter leaves).contains id) = !leaves id := by
    intro id member
    congr 1
    rw [Bool.eq_iff_iff, List.contains_iff_mem, List.mem_filter]
    exact ⟨And.right, fun isLeaving => ⟨member, isLeaving⟩⟩
  rw [List.filter_congr same]
  exact (Nat.sub_eq_of_eq_add' (List.length_eq_length_filter_add leaves)).symm

theorem runOfflineCheck_length (removes : removedMembers state height ≠ [])
    (noStray : strayMembers state height = []) :
    (runOfflineCheck sorter state height).loadActiveSet.length =
      state.loadActiveSet.length - (removedMembers state height).length := by
  obtain ⟨removed, promoted⟩ := planOfflineRemoval_chosen sorter (memberRegistry state) height
  have nobody : (planOfflineRemoval sorter (memberRegistry state) height).promoted = [] := by
    rw [promoted, ← List.length_eq_zero_iff, length_chosen]
    change min _ (strayMembers state height).length = 0
    rw [noStray, List.length_nil, Nat.min_zero]
  have someone : state.loadActiveSet.isEmpty = false := by
    rw [List.isEmpty_eq_false_iff]
    intro empty
    apply removes
    unfold removedMembers offlineMembers memberRegistry
    rw [empty, List.filter_nil]
  have written : (runOfflineCheck sorter state height).loadActiveSet =
      (applyOfflineRemoval (memberRegistry state)
        (planOfflineRemoval sorter (memberRegistry state) height) height).activeSet.map u64 := by
    unfold runOfflineCheck
    dsimp only
    rw [someone, if_neg Bool.false_ne_true]
    change StateAccess.loadActiveSet (if ((planOfflineRemoval sorter (memberRegistry state)
      height).removed.isEmpty && _) = true then _ else _) = _
    rw [if_neg]
    · rfl
    · rw [removed, Bool.and_eq_true, List.isEmpty_iff]
      exact fun empty => removes empty.1
  rw [written, List.length_map]
  unfold applyOfflineRemoval replaceMembers
  rw [removed, nobody, (List.perm_insertionSort _ _).length_eq]
  exact length_without_filter _ _

/-- **Removed members are replaced exactly when nobody waits**, and none of the members that stay
is taken for waiting. -/
theorem replacesOffline_iff (sorter : Sorter) (state : StateAccess) (height : Nat)
    (own : OwnIds state.registry) (removes : removedMembers state height ≠ []) :
    ReplacesOffline sorter state height ↔
      waitingValidators state state.loadActiveSet = [] ∧ strayMembers state height = [] := by
  have planned := (planOfflineRemoval_chosen sorter (memberRegistry state) height).2
  constructor
  · rintro ⟨⟨ranked, ranks, promoted⟩, _⟩
    have empty : ranked = [] := by
      -- the first of the ranked would be promoted, but only members can be
      cases ranked with
      | nil => rfl
      | cons first rest =>
        have waits := ranks.perm.mem_iff.mp (List.mem_cons_self (a := first) (l := rest))
        obtain ⟨places, isLength⟩ :=
          Nat.exists_eq_succ_of_ne_zero (mt List.length_eq_zero_iff.mp removes)
        rw [isLength, List.map_cons, List.take_succ_cons] at promoted
        have placed : first.id ∈ (planOfflineRemoval sorter (memberRegistry state)
            height).promoted := promoted ▸ List.mem_cons_self
        rw [planned] at placed
        obtain ⟨v, candidate, isFirst⟩ := chosen_candidate placed
        obtain ⟨id, active, found⟩ := List.mem_filterMap.mp (List.mem_of_mem_filter candidate)
        have isId : first.id = id := isFirst.symm.trans (own id v found)
        have outside := (List.mem_filter.mp waits).2
        simp [isId, active] at outside
    rw [empty] at ranks promoted
    refine ⟨ranks.perm.symm.eq_nil, ?_⟩
    have nobody := congrArg List.length (planned.symm.trans promoted)
    rw [length_chosen, List.map_nil, List.take_nil, List.length_nil, Nat.min_eq_zero_iff] at nobody
    exact List.length_eq_zero_iff.mp
      (nobody.resolve_left fun zero => removes (List.length_eq_zero_iff.mp zero))
  · rintro ⟨noneWaits, noStray⟩
    constructor
    · refine ⟨[], ⟨by rw [noneWaits], List.Pairwise.nil⟩, ?_⟩
      rw [planned, List.map_nil, List.take_nil, ← List.length_eq_zero_iff, length_chosen]
      change min _ (strayMembers state height).length = 0
      rw [noStray, List.length_nil, Nat.min_zero]
    · rw [runOfflineCheck_length removes noStray, noneWaits, List.length_nil, Nat.min_zero,
        Nat.add_zero]

/-! ## The emergency set -/

/-- The committed members that stay. -/
def keptMembers (state : StateAccess) (committed : List Nat) (height : Nat) : List Nat :=
  if emergencyPlaces (fullRegistry state committed) committed height = 0 then committed
  else liveMembers (fullRegistry state committed) committed height

/-- The waiting validators that take the places of the others. -/
def enteringMembers (sorter : Sorter) (state : StateAccess) (committed : List Nat) (height : Nat) :
    List Nat :=
  chosen sorter additionOrder (waitingValidators state committed)
    (emergencyPlaces (fullRegistry state committed) committed height)

theorem resolveActiveSet_eq : resolveActiveSet sorter state committed height true =
      if emergencyPlaces (fullRegistry state committed) committed height = 0 then committed
      else (keptMembers state committed height ++
        enteringMembers sorter state committed height).insertionSort (· ≤ ·) := by
  change computeEmergencyActiveSet sorter (fullRegistry state committed) committed height true = _
  unfold computeEmergencyActiveSet keptMembers enteringMembers emergencyPlaces
  by_cases small : committed.length ≤ 1
  · rw [if_pos small, if_pos (if_pos small)]
  · rw [if_neg small, if_neg (by decide), if_neg small]
    dsimp only
    split
    · rfl
    · rfl

theorem resolveActiveSet_perm : (resolveActiveSet sorter state committed height true).Perm
      (keptMembers state committed height ++ enteringMembers sorter state committed height) := by
  rw [resolveActiveSet_eq]
  split
  next none =>
    unfold keptMembers enteringMembers chosen
    rw [if_pos none, none, List.take_zero, List.append_nil]
  · exact List.perm_insertionSort _ _

theorem enteringMembers_not_committed {id : Nat}
    (enters : id ∈ enteringMembers sorter state committed height) : id ∉ committed :=
  chosen_not_committed enters

theorem enteringMembers_nodup (own : OwnIds state.registry) :
    (enteringMembers sorter state committed height).Nodup := by
  refine List.Nodup.sublist (List.take_sublist _ _) ?_
  refine ((sorter.perm _ _).map _).nodup_iff.mpr ?_
  exact (validators_ids own).sublist (List.filter_sublist.map _)

def Bonded (state : StateAccess) (id : Nat) : Prop :=
  ∃ v, state.getValidator id = some v ∧ v.pendingUnbondHeight = 0

/-- A set a block can be validated against. -/
structure UsableSet (state : StateAccess) (set : List Nat) : Prop where
  nonempty : set ≠ []
  increasing : set.Pairwise (· < ·)
  bonded : ∀ id ∈ set, Bonded state id

theorem pairwise_lt_insertionSort {ids : List Nat} :
    (ids.insertionSort (· ≤ ·)).Pairwise (· < ·) ↔ ids.Nodup := by
  rw [← (List.perm_insertionSort (· ≤ ·) ids).nodup_iff]
  constructor
  · exact fun increasing => increasing.imp Nat.ne_of_lt
  · intro distinct
    have sorted := List.pairwise_insertionSort (· ≤ ·) ids
    exact (sorted.and distinct).imp fun both => Nat.lt_of_le_of_ne both.1 both.2

/-- **The emergency set is usable exactly when someone is in it and the members that stay are
distinct and bonded**; a set that is returned as it was must have been increasing. -/
theorem emergency_usable_iff (sorter : Sorter) (state : StateAccess) (committed : List Nat)
    (height : Nat) (own : OwnIds state.registry) (nonempty : committed ≠ []) :
    UsableSet state (resolveActiveSet sorter state committed height true) ↔
      (∀ id ∈ keptMembers state committed height, Bonded state id) ∧
        if emergencyPlaces (fullRegistry state committed) committed height = 0 then
          committed.Pairwise (· < ·)
        else (keptMembers state committed height).Nodup ∧
          (keptMembers state committed height ≠ [] ∨ waitingValidators state committed ≠ []) := by
  have members : ∀ id, id ∈ resolveActiveSet sorter state committed height true ↔
      id ∈ keptMembers state committed height ∨
        id ∈ enteringMembers sorter state committed height :=
    fun id => resolveActiveSet_perm.mem_iff.trans List.mem_append
  have bonded : (∀ id ∈ resolveActiveSet sorter state committed height true, Bonded state id) ↔
      ∀ id ∈ keptMembers state committed height, Bonded state id := by
    constructor
    · exact fun all id kept => all id ((members id).mpr (.inl kept))
    · intro all id member
      rcases (members id).mp member with kept | enters
      · exact all id kept
      · obtain ⟨v, candidate, isId⟩ := chosen_candidate enters
        obtain ⟨member, conditions⟩ := List.mem_filter.mp candidate
        refine ⟨v, isId ▸ (mem_validators_iff own).mp member, ?_⟩
        simp only [ValidatorInfo.canBeActive, Bool.and_eq_true, beq_iff_eq] at conditions
        exact conditions.2.1.1.1
  split
  next none =>
    have same : resolveActiveSet sorter state committed height true = committed := by
      rw [resolveActiveSet_eq, if_pos none]
    rw [same] at bonded ⊢
    constructor
    · exact fun usable => ⟨bonded.mp usable.bonded, usable.increasing⟩
    · exact fun conditions => ⟨nonempty, conditions.2, bonded.mpr conditions.1⟩
  next some =>
    have distinct : (keptMembers state committed height ++
        enteringMembers sorter state committed height).Nodup ↔
        (keptMembers state committed height).Nodup := by
      rw [List.nodup_append']
      refine ⟨And.left, fun kept => ⟨kept, enteringMembers_nodup own, fun id isKept enters => ?_⟩⟩
      have member : id ∈ committed := by
        unfold keptMembers at isKept
        rw [if_neg some] at isKept
        exact List.mem_of_mem_filter isKept
      exact enteringMembers_not_committed enters member
    have increasing : (resolveActiveSet sorter state committed height true).Pairwise (· < ·) ↔
        (keptMembers state committed height).Nodup := by
      rw [resolveActiveSet_eq, if_neg some, pairwise_lt_insertionSort, distinct]
    have inhabited : resolveActiveSet sorter state committed height true ≠ [] ↔
        keptMembers state committed height ≠ [] ∨ waitingValidators state committed ≠ [] := by
      rw [← List.length_pos_iff, resolveActiveSet_perm.length_eq, List.length_append,
        Nat.add_pos_iff_pos_or_pos, List.length_pos_iff]
      refine or_congr Iff.rfl ?_
      rw [← List.length_pos_iff]
      unfold enteringMembers
      rw [length_chosen, Nat.lt_min]
      exact ⟨And.right, fun waits => ⟨Nat.pos_of_ne_zero some, waits⟩⟩
    constructor
    · exact fun usable => ⟨bonded.mp usable.bonded, increasing.mp usable.increasing,
        inhabited.mp usable.nonempty⟩
    · exact fun conditions => ⟨inhabited.mpr conditions.2.2, increasing.mpr conditions.2.1,
        bonded.mpr conditions.1⟩

/-! ## A quorum without the silent members -/

/-- The size of the emergency set. -/
def emergencySize (state : StateAccess) (committed : List Nat) (height : Nat) : Nat :=
  (keptMembers state committed height).length +
    min (emergencyPlaces (fullRegistry state committed) committed height)
      (waitingValidators state committed).length

/-- **The emergency set has a quorum outside the silent members exactly when few of them are kept.**
A member that stopped signing a moment ago still counts as live, and is kept. -/
theorem emergency_quorum_iff (sorter : Sorter) (state : StateAccess) (silent : List Nat)
    (height : Nat) (members : ∀ id ∈ silent, id ∈ state.loadActiveSet) :
    bftQuorum (resolveActiveSet sorter state state.loadActiveSet height true).length ≤
        ((resolveActiveSet sorter state state.loadActiveSet height true).filter
          fun id => !silent.contains id).length ↔
      ((keptMembers state state.loadActiveSet height).filter fun id => silent.contains id).length +
          bftQuorum (emergencySize state state.loadActiveSet height) ≤
        emergencySize state state.loadActiveSet height := by
  have size : (resolveActiveSet sorter state state.loadActiveSet height true).length =
      emergencySize state state.loadActiveSet height := by
    rw [resolveActiveSet_perm.length_eq, List.length_append]
    unfold enteringMembers emergencySize
    rw [length_chosen]
  have speaking : ((enteringMembers sorter state state.loadActiveSet height).filter
      fun id => silent.contains id) = [] := by
    rw [List.filter_eq_nil_iff]
    intro id enters isSilent
    exact enteringMembers_not_committed enters (members id (by simpa using isSilent))
  have silentKept : ((resolveActiveSet sorter state state.loadActiveSet height true).filter
      fun id => silent.contains id).length =
      ((keptMembers state state.loadActiveSet height).filter fun id => silent.contains id).length := by
    rw [(resolveActiveSet_perm.filter _).length_eq, List.filter_append, speaking, List.append_nil]
  have parts := List.length_eq_length_filter_add
    (l := resolveActiveSet sorter state state.loadActiveSet height true) fun id => silent.contains id
  rw [size] at parts ⊢
  omega

namespace Regtest

/-- A seed that was seen at height 29 and a member that was last seen at height 9. -/
def silentMember : StateAccess :=
  ((({} : StateAccess).putValidator
    { id := 1, isSeed := true, isActive := true, lastSeenHeight := 29 }).putValidator
      { id := 2, isActive := true, lastSeenHeight := 9 }).saveActiveSet [1, 2]

theorem ownIds_of_entries {state : StateAccess}
    (all : ∀ entry ∈ state.tree.validators.entries, entry.2.id = entry.1) :
    OwnIds state.registry := by
  intro id v found
  exact all (id, v) (Table.find?_eq_some_iff.mp found)

theorem silentMember_replaced : ReplacesOffline stableSort silentMember 29 := by
  have own : OwnIds silentMember.registry := ownIds_of_entries (by decide)
  refine (replacesOffline_iff stableSort silentMember 29 own (by decide)).mpr ⟨?_, ?_⟩
  · decide
  · decide

/-- One validator is removed, one waits, and the set shrinks. -/
theorem waiting_not_promoted :
    removedMembers (silentMember.putValidator (waitingRecord 3)) 29 = [2] ∧
      waitingValidators (silentMember.putValidator (waitingRecord 3)) [1, 2] = [waitingRecord 3] ∧
      (runOfflineCheck stableSort (silentMember.putValidator (waitingRecord 3)) 29).loadActiveSet =
        [1] := by
  decide +kernel

/-- The silent member with a validator that waits. -/
def replaceableMember : StateAccess := silentMember.putValidator (waitingRecord 3)

/-- The waiting validator takes the place of the silent member. -/
theorem replaced_set_usable :
    resolveActiveSet stableSort replaceableMember [1, 2] 29 true = [1, 3] ∧
      UsableSet replaceableMember (resolveActiveSet stableSort replaceableMember [1, 2] 29 true) := by
  have own : OwnIds replaceableMember.registry := ownIds_of_entries (by decide)
  refine ⟨by decide +kernel, ?_⟩
  exact (emergency_usable_iff stableSort replaceableMember [1, 2] 29 own (by decide)).mpr
    ⟨by unfold Bonded; decide, by decide⟩

/-- Nobody was seen for twenty heights, and nobody waits. -/
theorem genesis_set_empties : (applyGenesis config).loadActiveSet = [1, 2] ∧
      resolveActiveSet stableSort (applyGenesis config) [1, 2] 20 true = [] := by
  decide +kernel

/-- The second seed alone was seen at height 19. -/
theorem silent_seed_replaced :
    bftQuorum (resolveActiveSet stableSort (markParticipants (applyGenesis config) [2] 19)
        (markParticipants (applyGenesis config) [2] 19).loadActiveSet 20 true).length ≤
      ((resolveActiveSet stableSort (markParticipants (applyGenesis config) [2] 19)
        (markParticipants (applyGenesis config) [2] 19).loadActiveSet 20 true).filter
          fun id => !([1] : List Nat).contains id).length :=
  (emergency_quorum_iff stableSort (markParticipants (applyGenesis config) [2] 19) [1] 20
    (by decide)).mpr (by decide)

/-- The first block of an honest proposer, with a registration. -/
def registeringBlock : Block := { block 1 [register] with participants := [1, 2] }

/-- The second seed stops, a validator waits, and the emergency set is the old one. -/
theorem stalled_set_kept :
    Chain env config [registeringBlock] (applied env 1 1 (applyGenesis config) registeringBlock) ∧
      (waitingValidators (applied env 1 1 (applyGenesis config) registeringBlock) [1, 2]).map
        ValidatorInfo.id = [3] ∧
      resolveActiveSet stableSort (applied env 1 1 (applyGenesis config) registeringBlock) [1, 2] 2
        true = [1, 2] ∧
      ¬bftQuorum 2 ≤ ([1, 2].filter fun id => !([2] : List Nat).contains id).length := by
  refine ⟨?_, ?_⟩
  · exact Chain.of_acceptsAll .start (by decide +kernel)
  · decide +kernel

end Regtest

end Clarity.Core
