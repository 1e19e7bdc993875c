import Mathlib.Data.List.Sort
import Clarity.Library.Outcome
import Clarity.Core.ValidatorTypes

/-!
Contract: the planning of validator sets, `Core/ValidatorRotation.cpp`.

Owns: the rotation count and the target size, the plans of a rotation and of an offline
removal and their application to a registry, and the emergency set; that applying a plan keeps
the identity of every record; and when a rotation keeps a quorum of the old set.

Sorting is `std::sort`, which leaves the order of equal elements open: it is a parameter that
returns some sorted permutation.
-/

namespace Clarity.Core

open Crypto Library GlobalConfig

variable (sorter : Sorter) (registry : ValidatorRegistry)

/-- `std::sort` on validators: some permutation in which no element is below an earlier one. -/
structure Sorter where
  sort : (ValidatorInfo → ValidatorInfo → Bool) → List ValidatorInfo → List ValidatorInfo
  perm : ∀ less validators, (sort less validators).Perm validators
  sorted : ∀ less validators,
    (∀ a b, less a b = true → less b a = false) →
    (∀ a b c, less b a = false → less c b = false → less c a = false) →
    (sort less validators).Pairwise fun earlier later => less later earlier = false

def stableSort : Sorter where
  sort less validators := validators.mergeSort fun a b => !less b a
  perm _ validators := List.mergeSort_perm validators _
  sorted less validators asymmetric transitive := by
    have sorted := @List.pairwise_mergeSort ValidatorInfo (fun a b => !less b a) ?_ ?_ validators
    · simpa using sorted
    · intro a b c first second
      simp only [Bool.not_eq_true'] at *
      exact transitive a b c first second
    · intro a b
      cases below : less b a
      · simp
      · simpa using asymmetric b a below

/-! ## Sizes -/

def computeRotationCount (activeSetSize : Nat) : Nat :=
  if activeSetSize = 0 then 0
  else
    let count := (activeSetSize + TARGET_ROTATION_EPOCHS - 1) / TARGET_ROTATION_EPOCHS
    let quorum := bftQuorum activeSetSize
    if quorum ≥ activeSetSize then 0 else min count (activeSetSize - quorum)

def computeTargetActiveSetSize (avgTxPerBlock : Nat) : Nat :=
  if avgTxPerBlock ≥ TRAFFIC_SATURATION_TX then ACTIVE_SET_MAX
  else
    let range := ACTIVE_SET_MAX - ACTIVE_SET_MIN
    let target := ACTIVE_SET_MIN + avgTxPerBlock * range / TRAFFIC_SATURATION_TX
    max ACTIVE_SET_MIN (min target ACTIVE_SET_MAX)

/-! ## Orders of preference -/

/-- The worst uptime leaves first, then who became active first. -/
def removalOrder (a b : ValidatorInfo) : Bool :=
  if a.uptimeScore ≠ b.uptimeScore then a.uptimeScore < b.uptimeScore
  else a.becameActiveAt < b.becameActiveAt

/-- The best uptime enters first, then who was last active longest ago. -/
def additionOrder (a b : ValidatorInfo) : Bool :=
  if a.uptimeScore ≠ b.uptimeScore then a.uptimeScore > b.uptimeScore
  else a.lastActiveAt < b.lastActiveAt

/-- The active validators a rotation may remove, in the order it removes them. -/
def removable : List Nat :=
  let candidates := (registry.activeSet.filterMap registry.find).filter fun v => !v.isSeed
  (sorter.sort removalOrder candidates).map ValidatorInfo.id

/-- The waiting validators, in the order they are promoted. -/
def addable (excluded : List Nat) : List Nat :=
  let candidates := registry.validators.filter fun v =>
    v.id != INVALID_ID && !v.isActive && !excluded.contains v.id && v.canBeActive
  (sorter.sort additionOrder candidates).map ValidatorInfo.id

/-! ## Rotation -/

structure RotationPlan where
  toRemove : List Nat := []
  toAdd : List Nat := []
  newTargetSize : Nat := 0
deriving DecidableEq, Repr

def planRotation (avgTxPerBlock : Nat) : RotationPlan :=
  let targetSize := max (computeTargetActiveSetSize avgTxPerBlock) SEED_NODES_COUNT
  let currentSize := registry.activeSet.length
  if targetSize < currentSize then
    { toRemove := (removable sorter registry).take (currentSize - targetSize)
      newTargetSize := targetSize }
  else if targetSize > currentSize then
    { toAdd := (addable sorter registry []).take (targetSize - currentSize)
      newTargetSize := targetSize }
  else
    let toRemove := (removable sorter registry).take (computeRotationCount currentSize)
    { toRemove := toRemove
      toAdd := (addable sorter registry []).take toRemove.length
      newTargetSize := targetSize }

/-- The change of the record `find` returns, the first one with the id. -/
def modifyRecord (id : Nat) (change : ValidatorInfo → ValidatorInfo) :
    List ValidatorInfo → List ValidatorInfo
  | [] => []
  | v :: rest => if v.id = id then change v :: rest else v :: modifyRecord id change rest

/-- The members `removed` leave the set. -/
def deactivate (removed : List Nat) (height : Nat) : ValidatorRegistry :=
  { registry with
    activeSet := registry.activeSet.filter fun id => !removed.contains id
    validators := removed.foldl
      (fun records id =>
        if id = INVALID_ID then records
        else modifyRecord id (fun v => { v with isActive := false, lastActiveAt := height }) records)
      registry.validators }

/-- One validator enters the set, if the registry has it. -/
def activate (height : Nat) (registry : ValidatorRegistry) (id : Nat) : ValidatorRegistry :=
  match registry.find id with
  | none => registry
  | some _ =>
    { registry with
      activeSet := registry.activeSet ++ [id]
      validators := modifyRecord id
        (fun v => { v with isActive := true, becameActiveAt := height }) registry.validators }

/-- What `applyRotation` and `applyOfflineRemoval` both do. -/
def replaceMembers (removed added : List Nat) (height : Nat) : ValidatorRegistry :=
  let changed := added.foldl (activate height) (deactivate registry removed height)
  { changed with activeSet := changed.activeSet.insertionSort (· ≤ ·) }

def applyRotation (plan : RotationPlan) (currentHeight : Nat) : ValidatorRegistry :=
  { replaceMembers registry plan.toRemove plan.toAdd currentHeight with
    lastRotationHeight := currentHeight
    targetSize := plan.newTargetSize }

/-! ## Offline removal -/

structure OfflineCheckResult where
  removed : List Nat := []
  promoted : List Nat := []
deriving DecidableEq, Repr

def planOfflineRemoval (currentHeight : Nat) : OfflineCheckResult :=
  let removed := registry.activeSet.filter fun id =>
    match registry.find id with
    | none => false
    | some v => !v.isSeed && v.isOffline currentHeight
  if removed.isEmpty then {}
  else
    { removed := removed
      promoted := (addable sorter registry removed).take removed.length }

def applyOfflineRemoval (plan : OfflineCheckResult) (currentHeight : Nat) : ValidatorRegistry :=
  replaceMembers registry plan.removed plan.promoted currentHeight

/-! ## The emergency set -/

/-- The committed members that count as live at a height. -/
def liveMembers (committed : List Nat) (height : Nat) : List Nat :=
  committed.filter fun id =>
    match registry.find id with
    | none => false
    | some v => !v.isOffline height

def computeEmergencyActiveSet
    (committed : List Nat) (currentHeight : Nat) (forceRotation : Bool) : List Nat :=
  if committed.length ≤ 1 then committed
  else if forceRotation = false then committed
  else
    let live := liveMembers registry committed currentHeight
    let offlineCount := committed.length - live.length
    if offlineCount = 0 then committed
    else
      (live ++ (addable sorter registry committed).take offlineCount).insertionSort (· ≤ ·)

/-! ## Identities are kept -/

theorem mem_modifyRecord {id : Nat} {change : ValidatorInfo → ValidatorInfo}
    {records : List ValidatorInfo} {v : ValidatorInfo} (member : v ∈ modifyRecord id change records) :
    v ∈ records ∨ ∃ old ∈ records, v = change old := by
  induction records with
  | nil => exact absurd member List.not_mem_nil
  | cons head tail ih =>
    unfold modifyRecord at member
    split at member
    · rcases List.mem_cons.mp member with changed | kept
      · exact .inr ⟨head, List.mem_cons_self, changed⟩
      · exact .inl (List.mem_cons_of_mem head kept)
    · rcases List.mem_cons.mp member with same | later
      · exact .inl (same ▸ List.mem_cons_self)
      · rcases ih later with kept | ⟨old, oldMember, changed⟩
        · exact .inl (List.mem_cons_of_mem head kept)
        · exact .inr ⟨old, List.mem_cons_of_mem head oldMember, changed⟩

/-- Every record is a record of the old list, up to what tells neither who the validator is nor
when it was present. -/
def Derived (old new : List ValidatorInfo) : Prop :=
  ∀ v ∈ new, ∃ source ∈ old, Alike ⟨true, false⟩ source v

theorem Derived.modifyRecord {old records : List ValidatorInfo} (derived : Derived old records)
    (id : Nat) {change : ValidatorInfo → ValidatorInfo} (keeps : ∀ v, Alike ⟨true, false⟩ v (change v)) :
    Derived old (modifyRecord id change records) := by
  intro v member
  rcases mem_modifyRecord member with kept | ⟨previous, previousMember, rfl⟩
  · exact derived v kept
  · obtain ⟨source, sourceMember, same⟩ := derived previous previousMember
    exact ⟨source, sourceMember, same.trans (keeps previous)⟩

/-- Applying a plan changes who is active, not who is who or when it was present. -/
theorem replaceMembers_derived (registry : ValidatorRegistry) (removed added : List Nat)
    (height : Nat) :
    Derived registry.validators (replaceMembers registry removed added height).validators := by
  refine @foldl_keeps ValidatorRegistry Nat
    (fun changed => Derived registry.validators changed.validators) (activate height) added ?_ _
    (foldl_keeps removed ?_ fun v member => ⟨v, member, .refl v⟩)
  · intro id _ changed derived
    unfold activate
    split
    · exact derived
    · exact derived.modifyRecord id fun _ =>
        ⟨⟨rfl, rfl, rfl, rfl, rfl, rfl⟩, fun _ => rfl, (by cases ·)⟩
  intro id _ records derived
  split
  · exact derived
  · exact derived.modifyRecord id fun _ => ⟨⟨rfl, rfl, rfl, rfl, rfl, rfl⟩, fun _ => rfl, (by cases ·)⟩

/-! ## A quorum of the old set -/

/-- The active validators a rotation may remove. -/
def removableCount : Nat :=
  ((registry.activeSet.filterMap registry.find).filter fun v => !v.isSeed).length

def rotationTarget (avgTxPerBlock : Nat) : Nat :=
  max (computeTargetActiveSetSize avgTxPerBlock) SEED_NODES_COUNT

variable {sorter registry} {avgTxPerBlock : Nat}

theorem length_removable : (removable sorter registry).length = removableCount registry := by
  unfold removable removableCount
  rw [List.length_map]
  exact (sorter.perm _ _).length_eq

theorem bftQuorum_le {size : Nat} (nonempty : size ≠ 0) : bftQuorum size ≤ size := by
  unfold bftQuorum
  omega

theorem computeRotationCount_le {size : Nat} (nonempty : size ≠ 0) :
    computeRotationCount size + bftQuorum size ≤ size := by
  have quorum := bftQuorum_le nonempty
  unfold computeRotationCount
  rw [if_neg nonempty]
  dsimp only
  split
  · omega
  · omega

/-- How many members a plan removes, branch by branch: only the last one looks at the quorum. -/
theorem length_toRemove : (planRotation sorter registry avgTxPerBlock).toRemove.length =
      if rotationTarget avgTxPerBlock < registry.activeSet.length then
        min (registry.activeSet.length - rotationTarget avgTxPerBlock) (removableCount registry)
      else if registry.activeSet.length < rotationTarget avgTxPerBlock then 0
      else
        min (computeRotationCount registry.activeSet.length) (removableCount registry) := by
  unfold planRotation
  dsimp only
  change (if rotationTarget avgTxPerBlock < _ then _ else if rotationTarget avgTxPerBlock > _ then _
    else _ : RotationPlan).toRemove.length = _
  split
  · rw [List.length_take, length_removable]
    rfl
  · split
    · rfl
    · rw [List.length_take, length_removable]

/-- A rotation removes no more than the quorum of the old set allows, so that a quorum of the old
set is active afterwards. -/
structure KeepsQuorum (sorter : Sorter) (registry : ValidatorRegistry) (avgTxPerBlock height : Nat) :
    Prop where
  bounded : (planRotation sorter registry avgTxPerBlock).toRemove.length +
    bftQuorum registry.activeSet.length ≤ registry.activeSet.length
  remain : registry.activeSet.Nodup → bftQuorum registry.activeSet.length ≤
    (registry.activeSet.filter fun id => (applyRotation registry
      (planRotation sorter registry avgTxPerBlock) height).activeSet.contains id).length

/-- Who is not removed stays active. -/
theorem mem_replaceMembers {removed added : List Nat} {height id : Nat}
    (active : id ∈ registry.activeSet) (stays : id ∉ removed) :
    id ∈ (replaceMembers registry removed added height).activeSet := by
  have kept : id ∈ (deactivate registry removed height).activeSet := by
    unfold deactivate
    simp [active, stays]
  refine (List.perm_insertionSort _ _).mem_iff.mpr (@foldl_keeps ValidatorRegistry Nat
    (fun changed => id ∈ changed.activeSet) (activate height) added ?_ _ kept)
  intro _ _ changed member
  unfold activate
  split
  · exact member
  · exact List.mem_append_left _ member

theorem length_filter_notMem {members removed : List Nat} (distinct : members.Nodup) :
    members.length ≤ (members.filter fun id => !removed.contains id).length + removed.length := by
  have left : (members.filter fun id => removed.contains id).length ≤ removed.length := by
    apply (List.subperm_of_subset (distinct.filter _) ?_).length_le
    intro id member
    simpa using (List.mem_filter.mp member).2
  have parts := List.length_eq_length_filter_add (l := members) fun id => removed.contains id
  omega

/-- **A rotation keeps a quorum of the old set exactly when its shrinking does.** -/
theorem planRotation_keepsQuorum_iff (sorter : Sorter) (registry : ValidatorRegistry)
    (avgTxPerBlock height : Nat) :
    KeepsQuorum sorter registry avgTxPerBlock height ↔
      registry.activeSet ≠ [] ∧
        (rotationTarget avgTxPerBlock < registry.activeSet.length →
          min (registry.activeSet.length - rotationTarget avgTxPerBlock) (removableCount registry) +
            bftQuorum registry.activeSet.length ≤ registry.activeSet.length) := by
  have removed := @length_toRemove sorter registry avgTxPerBlock
  constructor
  · intro keeps
    have bounded := keeps.bounded
    refine ⟨?_, fun shrinks => ?_⟩
    · intro none
      rw [none] at bounded
      unfold bftQuorum at bounded
      simp at bounded
    · rw [removed, if_pos shrinks] at bounded
      exact bounded
  · rintro ⟨nonempty, allowed⟩
    have size : registry.activeSet.length ≠ 0 := fun none => nonempty (List.length_eq_zero_iff.mp none)
    have bounded : (planRotation sorter registry avgTxPerBlock).toRemove.length +
        bftQuorum registry.activeSet.length ≤ registry.activeSet.length := by
      have quorum := bftQuorum_le size
      have rotated := computeRotationCount_le size
      rw [removed]
      split
      next shrinks => exact allowed shrinks
      · split
        · omega
        · omega
    refine ⟨bounded, fun distinct => ?_⟩
    have stay := @length_filter_notMem registry.activeSet
      (planRotation sorter registry avgTxPerBlock).toRemove distinct
    have remain : (registry.activeSet.filter fun id =>
        !(planRotation sorter registry avgTxPerBlock).toRemove.contains id).length ≤
        (registry.activeSet.filter fun id => (applyRotation registry
          (planRotation sorter registry avgTxPerBlock) height).activeSet.contains id).length := by
      rw [← List.countP_eq_length_filter, ← List.countP_eq_length_filter]
      apply List.countP_mono_left
      intro id active stays
      have isKept : id ∈ (applyRotation registry (planRotation sorter registry avgTxPerBlock)
        height).activeSet := mem_replaceMembers active (by simpa using stays)
      simpa using isKept
    omega

namespace Regtest

/-- Four active validators, none of them a seed. -/
def fourActive : ValidatorRegistry :=
  { validators := [1, 2, 3, 4].map fun id => { id := id, isActive := true }
    activeSet := [1, 2, 3, 4] }

/-- Without traffic the target is two, and half of the set leaves at once, however it is sorted. -/
theorem fourActive_loses_quorum : (planRotation stableSort fourActive 0).toRemove.length = 2 ∧
      bftQuorum fourActive.activeSet.length = 3 ∧ ¬KeepsQuorum stableSort fourActive 0 7 := by
  have removed : (planRotation stableSort fourActive 0).toRemove.length = 2 := by
    rw [length_toRemove]
    decide
  refine ⟨removed, by decide, ?_⟩
  intro keeps
  have bounded := keeps.bounded
  rw [removed] at bounded
  revert bounded
  decide

end Regtest

end Clarity.Core
