import Clarity.Library.Ranking
import Clarity.Core.ValidatorRotation

/-!
Contract: when the choice of validators depends on the set of records only.

Owns: the candidates and the number of places of each of the three planners, and that rotation,
offline removal and emergency rotation select the same validators for every order of the records
and every sort exactly when no tie is cut in any of them.

Both comparators end with a height and not with the id, so that two records may tie. Validators
that are registered at one height and were never active tie in `additionOrder`.
-/

namespace Clarity.Core

open Library

variable {registry other : ValidatorRegistry} {committed : List Nat} {avgTxPerBlock height : Nat}
  {less : ValidatorInfo → ValidatorInfo → Bool} {places : Nat} {sorter : Sorter}
  {candidates : List ValidatorInfo}

/-! ## The comparators -/

theorem removalOrder_preference : Preference removalOrder := by
  constructor
  · intro a b
    unfold removalOrder
    grind
  · intro a b c
    unfold removalOrder
    grind

theorem additionOrder_preference : Preference additionOrder := by
  constructor
  · intro a b
    unfold additionOrder
    grind
  · intro a b c
    unfold additionOrder
    grind

theorem Sorter.ranks (sorter : Sorter) (preference : Preference less)
    (candidates : List ValidatorInfo) : Ranks less candidates (sorter.sort less candidates) :=
  ⟨sorter.perm _ _, sorter.sorted _ _ preference.asymm preference.trans⟩

/-- A sort that breaks ties in favour of some records. -/
def tiltedSort (front : ValidatorInfo → Bool) : Sorter where
  sort less := stableSort.sort (tilt front less)
  perm _ := stableSort.perm _
  sorted _ validators asymm trans :=
    (stableSort.ranks (Preference.tilt ⟨asymm, trans⟩ front) validators).of_tilt.sorted

theorem tiltedSort_ranks (preference : Preference less) (front : ValidatorInfo → Bool)
    (candidates : List ValidatorInfo) :
    Ranks (tilt front less) candidates ((tiltedSort front).sort less candidates) :=
  stableSort.ranks (preference.tilt front) candidates

def chosen (sorter : Sorter) (less : ValidatorInfo → ValidatorInfo → Bool)
    (candidates : List ValidatorInfo) (places : Nat) : List Nat :=
  ((sorter.sort less candidates).map ValidatorInfo.id).take places

theorem mem_chosen {v : ValidatorInfo}
    (ids : ∀ first ∈ candidates, ∀ second ∈ candidates, first.id = second.id → first = second)
    (member : v ∈ candidates) :
    v.id ∈ chosen sorter less candidates places ↔ v ∈ (sorter.sort less candidates).take places := by
  unfold chosen
  rw [← List.map_take]
  refine ⟨fun placed => ?_, List.mem_map_of_mem⟩
  obtain ⟨found, isPlaced, same⟩ := List.mem_map.mp placed
  have candidate := (sorter.perm _ _).mem_iff.mp (List.mem_of_mem_take isPlaced)
  exact ids found candidate v member same ▸ isPlaced

/-- Behind a clean cut neither the sort nor the order of the candidates matters. -/
theorem chosen_perm {reordered : List ValidatorInfo} (clean : CleanCut less candidates places)
    (preference : Preference less) (perm : reordered.Perm candidates) (first second : Sorter)
    (id : Nat) :
    id ∈ chosen first less candidates places ↔ id ∈ chosen second less reordered places := by
  unfold chosen
  rw [← List.map_take, ← List.map_take, List.mem_map, List.mem_map]
  refine exists_congr fun v => and_congr_left fun _ => ?_
  rw [clean.mem_take preference (first.ranks preference _),
    (clean.perm perm).mem_take preference (second.ranks preference _), perm.mem_iff]
  unfold preferred
  rw [perm.countP_eq]

/-- The same candidates are chosen by every sort exactly if no tie is cut. -/
theorem chosen_eq_iff (preference : Preference less)
    (ids : ∀ first ∈ candidates, ∀ second ∈ candidates, first.id = second.id → first = second) :
    (∀ (first second : Sorter) id,
      id ∈ chosen first less candidates places ↔ id ∈ chosen second less candidates places) ↔
        CleanCut less candidates places := by
  constructor
  · intro same v member
    by_contra cut
    rw [not_or, Nat.not_le, Nat.not_lt] at cut
    have agree := same (tiltedSort fun w => decide (w = v)) (tiltedSort fun w => decide (w ≠ v)) v.id
    rw [mem_chosen ids member, mem_chosen ids member] at agree
    have placed := mem_take_of_tilt preference member (tiltedSort_ranks preference _ _) cut.1
    exact not_mem_take_of_tilt preference member (tiltedSort_ranks preference _ _) cut.2
      (agree.mp placed)
  · intro clean first second id
    exact chosen_perm clean preference (.refl _) first second id

/-! ## The registry -/

/-- Ids are the keys of a registry. -/
def DistinctIds (registry : ValidatorRegistry) : Prop :=
  (registry.validators.map ValidatorInfo.id).Nodup

instance (registry : ValidatorRegistry) : Decidable (DistinctIds registry) :=
  inferInstanceAs (Decidable (List.Nodup _))

theorem DistinctIds.eq (distinct : DistinctIds registry) {first second : ValidatorInfo}
    (inFirst : first ∈ registry.validators) (inSecond : second ∈ registry.validators)
    (same : first.id = second.id) : first = second :=
  List.inj_on_of_nodup_map distinct inFirst inSecond same

theorem find_eq_some_iff (distinct : DistinctIds registry) {id : Nat} {v : ValidatorInfo} :
    registry.find id = some v ↔ id ≠ INVALID_ID ∧ v ∈ registry.validators ∧ v.id = id := by
  unfold ValidatorRegistry.find
  split
  next invalid => simp [invalid]
  next valid =>
    constructor
    · intro found
      exact ⟨valid, List.mem_of_find?_eq_some found, by simpa using List.find?_some found⟩
    · rintro ⟨_, member, isId⟩
      obtain ⟨w, found⟩ := Option.isSome_iff_exists.mp
        (List.find?_isSome.mpr ⟨v, member, beq_iff_eq.mpr isId⟩ :
          (registry.validators.find? fun w => w.id == id).isSome = true)
      have same : w.id = v.id := isId ▸ by simpa using List.find?_some found
      rw [found, distinct.eq (List.mem_of_find?_eq_some found) member same]

/-- The same records in any order. -/
def Reordered (registry other : ValidatorRegistry) : Prop :=
  other.validators.Perm registry.validators ∧ other.activeSet = registry.activeSet

theorem Reordered.find (distinct : DistinctIds registry) (reordered : Reordered registry other)
    (id : Nat) : other.find id = registry.find id := by
  have otherDistinct : DistinctIds other := (reordered.1.map _).nodup_iff.mpr distinct
  refine Option.ext fun v => ?_
  rw [find_eq_some_iff otherDistinct, find_eq_some_iff distinct, reordered.1.mem_iff]

/-! ## Candidates and places -/

def removalCandidates (registry : ValidatorRegistry) : List ValidatorInfo :=
  (registry.activeSet.filterMap registry.find).filter fun v => !v.isSeed

def additionCandidates (registry : ValidatorRegistry) (excluded : List Nat) : List ValidatorInfo :=
  registry.validators.filter fun v =>
    v.id != INVALID_ID && !v.isActive && !excluded.contains v.id && v.canBeActive

/-- How many members a rotation removes, as far as there are candidates. -/
def removalPlaces (registry : ValidatorRegistry) (avgTxPerBlock : Nat) : Nat :=
  let size := registry.activeSet.length
  if rotationTarget avgTxPerBlock < size then size - rotationTarget avgTxPerBlock
  else if size < rotationTarget avgTxPerBlock then 0
  else computeRotationCount size

/-- How many validators a rotation adds, as far as there are candidates. -/
def additionPlaces (registry : ValidatorRegistry) (avgTxPerBlock : Nat) : Nat :=
  let size := registry.activeSet.length
  if rotationTarget avgTxPerBlock < size then 0
  else if size < rotationTarget avgTxPerBlock then rotationTarget avgTxPerBlock - size
  else min (computeRotationCount size) (removableCount registry)

def offlineMembers (registry : ValidatorRegistry) (height : Nat) : List Nat :=
  registry.activeSet.filter fun id =>
    match registry.find id with
    | none => false
    | some v => !v.isSeed && v.isOffline height

def emergencyPlaces (registry : ValidatorRegistry) (committed : List Nat) (height : Nat) : Nat :=
  if committed.length ≤ 1 then 0
  else committed.length - (liveMembers registry committed height).length

theorem planRotation_chosen (sorter : Sorter) (registry : ValidatorRegistry) (avgTxPerBlock : Nat) :
    (planRotation sorter registry avgTxPerBlock).toRemove = chosen sorter removalOrder
        (removalCandidates registry) (removalPlaces registry avgTxPerBlock) ∧
      (planRotation sorter registry avgTxPerBlock).toAdd = chosen sorter additionOrder
        (additionCandidates registry []) (additionPlaces registry avgTxPerBlock) := by
  have removable : ∀ places, (removable sorter registry).take places =
      chosen sorter removalOrder (removalCandidates registry) places := fun _ => rfl
  have addable : ∀ places, (addable sorter registry []).take places =
      chosen sorter additionOrder (additionCandidates registry []) places := fun _ => rfl
  unfold planRotation removalPlaces additionPlaces rotationTarget
  dsimp only
  split
  · exact ⟨removable _, (List.take_zero).symm⟩
  · split
    · exact ⟨(List.take_zero).symm, addable _⟩
    · refine ⟨removable _, ?_⟩
      rw [List.length_take, length_removable]
      exact addable _

theorem planOfflineRemoval_chosen (sorter : Sorter) (registry : ValidatorRegistry) (height : Nat) :
    (planOfflineRemoval sorter registry height).removed = offlineMembers registry height ∧
      (planOfflineRemoval sorter registry height).promoted = chosen sorter additionOrder
        (additionCandidates registry (offlineMembers registry height))
        (offlineMembers registry height).length := by
  change (if (offlineMembers registry height).isEmpty = true then {} else _ :
    OfflineCheckResult).removed = _ ∧ (if (offlineMembers registry height).isEmpty = true then {}
      else _ : OfflineCheckResult).promoted = _
  split
  next none =>
    rw [List.isEmpty_iff.mp none]
    exact ⟨rfl, (List.take_zero).symm⟩
  · exact ⟨rfl, rfl⟩

/-- The emergency set: who stays, and who is chosen for the places of the others. -/
theorem mem_computeEmergencyActiveSet_iff {id : Nat} :
    id ∈ computeEmergencyActiveSet sorter registry committed height true ↔
      (id ∈ committed ∧ (emergencyPlaces registry committed height = 0 ∨
        id ∈ liveMembers registry committed height)) ∨
      id ∈ chosen sorter additionOrder (additionCandidates registry committed)
        (emergencyPlaces registry committed height) := by
  unfold computeEmergencyActiveSet emergencyPlaces
  dsimp only
  split
  · simp [chosen]
  · rw [if_neg (by decide)]
    split
    next none => simp [none, chosen]
    next some =>
      rw [(List.perm_insertionSort _ _).mem_iff, List.mem_append]
      refine or_congr ?_ Iff.rfl
      simp only [some, false_or]
      exact ⟨fun live => ⟨List.mem_of_mem_filter live, live⟩, And.right⟩

theorem chosen_not_committed {id : Nat}
    (placed : id ∈ chosen sorter additionOrder (additionCandidates registry committed) places) :
    id ∉ committed := by
  obtain ⟨v, sorted, isId⟩ := List.mem_map.mp (List.mem_of_mem_take placed)
  have candidate := (List.mem_filter.mp ((sorter.perm _ _).mem_iff.mp sorted)).2
  intro member
  simp [isId, member] at candidate

/-! ## The result -/

/-- Two sorts and two orders of the records lead to the same sets. -/
structure SelectAlike (first second : Sorter) (registry other : ValidatorRegistry)
    (committed : List Nat) (avgTxPerBlock height : Nat) : Prop where
  removed : ∀ id, id ∈ (planRotation first registry avgTxPerBlock).toRemove ↔
    id ∈ (planRotation second other avgTxPerBlock).toRemove
  added : ∀ id, id ∈ (planRotation first registry avgTxPerBlock).toAdd ↔
    id ∈ (planRotation second other avgTxPerBlock).toAdd
  offline : ∀ id, id ∈ (planOfflineRemoval first registry height).removed ↔
    id ∈ (planOfflineRemoval second other height).removed
  promoted : ∀ id, id ∈ (planOfflineRemoval first registry height).promoted ↔
    id ∈ (planOfflineRemoval second other height).promoted
  emergency : ∀ id, id ∈ computeEmergencyActiveSet first registry committed height true ↔
    id ∈ computeEmergencyActiveSet second other committed height true

/-- None of the four choices cuts a tie. -/
structure CleanCuts (registry : ValidatorRegistry) (committed : List Nat)
    (avgTxPerBlock height : Nat) : Prop where
  removed : CleanCut removalOrder (removalCandidates registry) (removalPlaces registry avgTxPerBlock)
  added : CleanCut additionOrder (additionCandidates registry [])
    (additionPlaces registry avgTxPerBlock)
  promoted : CleanCut additionOrder (additionCandidates registry (offlineMembers registry height))
    (offlineMembers registry height).length
  emergency : CleanCut additionOrder (additionCandidates registry committed)
    (emergencyPlaces registry committed height)

theorem CleanCuts.selectAlike (clean : CleanCuts registry committed avgTxPerBlock height)
    (distinct : DistinctIds registry) (reordered : Reordered registry other)
    (first second : Sorter) :
    SelectAlike first second registry other committed avgTxPerBlock height := by
  have find : other.find = registry.find := funext (reordered.find distinct)
  have removal : removalCandidates other = removalCandidates registry := by
    unfold removalCandidates
    rw [find, reordered.2]
  have addition : ∀ excluded, (additionCandidates other excluded).Perm
      (additionCandidates registry excluded) := fun excluded => reordered.1.filter _
  have removalSame : removalPlaces other avgTxPerBlock = removalPlaces registry avgTxPerBlock := by
    unfold removalPlaces
    rw [reordered.2]
  have additionSame : additionPlaces other avgTxPerBlock = additionPlaces registry avgTxPerBlock := by
    unfold additionPlaces removableCount
    rw [find, reordered.2]
  have offline : offlineMembers other height = offlineMembers registry height := by
    unfold offlineMembers
    rw [find, reordered.2]
  have live : liveMembers other committed height = liveMembers registry committed height := by
    unfold liveMembers
    rw [find]
  have emergencySame : emergencyPlaces other committed height =
      emergencyPlaces registry committed height := by
    unfold emergencyPlaces
    rw [live]
  constructor
  · intro id
    rw [(planRotation_chosen _ _ _).1, (planRotation_chosen _ _ _).1, removal, removalSame]
    exact chosen_perm clean.removed removalOrder_preference (.refl _) first second id
  · intro id
    rw [(planRotation_chosen _ _ _).2, (planRotation_chosen _ _ _).2, additionSame]
    exact chosen_perm clean.added additionOrder_preference (addition _) first second id
  · intro id
    rw [(planOfflineRemoval_chosen _ _ _).1, (planOfflineRemoval_chosen _ _ _).1, offline]
  · intro id
    rw [(planOfflineRemoval_chosen _ _ _).2, (planOfflineRemoval_chosen _ _ _).2, offline]
    exact chosen_perm clean.promoted additionOrder_preference (addition _) first second id
  · intro id
    rw [mem_computeEmergencyActiveSet_iff, mem_computeEmergencyActiveSet_iff, emergencySame, live]
    refine or_congr Iff.rfl ?_
    exact chosen_perm clean.emergency additionOrder_preference (addition _) first second id

/-- **The selection depends on the set of records only exactly when no tie is cut.** -/
theorem selection_determined_iff (registry : ValidatorRegistry) (committed : List Nat)
    (avgTxPerBlock height : Nat) (distinct : DistinctIds registry) :
    (∀ first second other, Reordered registry other →
      SelectAlike first second registry other committed avgTxPerBlock height) ↔
        CleanCuts registry committed avgTxPerBlock height := by
  constructor
  · intro same
    have alike := fun first second => same first second registry ⟨.refl _, rfl⟩
    have waiting : ∀ excluded, ∀ v ∈ additionCandidates registry excluded,
        ∀ w ∈ additionCandidates registry excluded, v.id = w.id → v = w :=
      fun _ _ inFirst _ inSecond =>
        distinct.eq (List.mem_of_mem_filter inFirst) (List.mem_of_mem_filter inSecond)
    have active : ∀ v ∈ removalCandidates registry, v ∈ registry.validators := by
      intro v member
      obtain ⟨id, _, found⟩ := List.mem_filterMap.mp (List.mem_of_mem_filter member)
      exact ((find_eq_some_iff distinct).mp found).2.1
    constructor
    · refine (chosen_eq_iff removalOrder_preference ?_).mp fun first second id => ?_
      · exact fun _ inFirst _ inSecond => distinct.eq (active _ inFirst) (active _ inSecond)
      · have removed := (alike first second).removed id
        rwa [(planRotation_chosen _ _ _).1, (planRotation_chosen _ _ _).1] at removed
    · refine (chosen_eq_iff additionOrder_preference (waiting _)).mp fun first second id => ?_
      have added := (alike first second).added id
      rwa [(planRotation_chosen _ _ _).2, (planRotation_chosen _ _ _).2] at added
    · refine (chosen_eq_iff additionOrder_preference (waiting _)).mp fun first second id => ?_
      have promoted := (alike first second).promoted id
      rwa [(planOfflineRemoval_chosen _ _ _).2, (planOfflineRemoval_chosen _ _ _).2] at promoted
    · refine (chosen_eq_iff additionOrder_preference (waiting _)).mp fun first second id => ?_
      have emergency := (alike first second).emergency id
      rw [mem_computeEmergencyActiveSet_iff, mem_computeEmergencyActiveSet_iff] at emergency
      -- who stays is committed, who is chosen is not
      constructor
      · intro placed
        have outside := chosen_not_committed placed
        exact (emergency.mp (.inr placed)).resolve_left fun stays => outside stays.1
      · intro placed
        have outside := chosen_not_committed placed
        exact (emergency.mpr (.inr placed)).resolve_left fun stays => outside stays.1
  · intro clean first second other reordered
    exact clean.selectAlike distinct reordered first second

namespace Regtest

/-- A validator that waits since its registration. -/
def waitingRecord (id : Nat) : ValidatorInfo :=
  { id := id, stake := GlobalConfig.VALIDATOR_MIN_STAKE }

def twoWaiting : ValidatorRegistry :=
  { validators := [{ id := 1, isSeed := true, isActive := true },
      { id := 2, isSeed := true, isActive := true }, waitingRecord 3, waitingRecord 4]
    activeSet := [1, 2] }

theorem twoWaiting_both_enter :
    DistinctIds twoWaiting ∧ ∀ first second other, Reordered twoWaiting other →
      SelectAlike first second twoWaiting other [1, 2] 21 0 :=
  ⟨by decide, (selection_determined_iff twoWaiting [1, 2] 21 0 (by decide)).mpr
    ⟨by decide, by decide, by decide, by decide⟩⟩

/-- The one that stands first in the vector enters. -/
theorem twoWaiting_first_enters :
    Reordered twoWaiting { twoWaiting with validators := twoWaiting.validators.reverse } ∧
      (planRotation stableSort twoWaiting 11).toAdd = [3] ∧
      (planRotation stableSort
        { twoWaiting with validators := twoWaiting.validators.reverse } 11).toAdd = [4] := by
  have tied : ∀ candidates : List ValidatorInfo,
      candidates.Pairwise (fun earlier later => (!additionOrder later earlier) = true) →
        chosen stableSort additionOrder candidates 1 = (candidates.map ValidatorInfo.id).take 1 := by
    intro candidates sorted
    unfold chosen stableSort
    dsimp only
    rw [List.mergeSort_of_pairwise sorted]
  refine ⟨⟨List.reverse_perm _, rfl⟩, ?_, ?_⟩
  · exact (planRotation_chosen _ _ _).2.trans (tied _ (by decide))
  · exact (planRotation_chosen _ _ _).2.trans (tied _ (by decide))

end Regtest

end Clarity.Core
