import Clarity.Core.Stake

/-!
Contract: the height a validator was last seen at, through an accepted block.

Owns: `KeepsView`, that a view shows the same of every record, for every move of the registry that
keeps what the view shows; `Present`, that every transaction keeps it; and `Extends.lastSeen`, what
an accepted block writes into the record of a validator it had before: the height of the block, for
a participant, and nothing for anybody else.
-/

namespace Clarity.Core

open Common Crypto Library State State.StateAccess
open Clarity.Core.TransactionExecutor Clarity.Core.BlockProcessor
open Relation ValidatorInfo

variable {tx : Transaction}

/-! ## Views of the records -/

section Views

variable {α : Type} {view : ValidatorInfo → α} {kept : Kept} {before registry after : Registry}

/-- What a view shows of the record of an id. -/
def viewOf (view : ValidatorInfo → α) (registry : Registry) (id : Nat) : Option α :=
  (registry.validators.find? id).map view

/-- The view shows nothing of a record but what is kept. -/
structure Shown (kept : Kept) (view : ValidatorInfo → α) : Prop where
  stays : kept ≠ ⟨false, false⟩
  alike : ∀ old new, Alike kept old new → view new = view old
  readdress : ∀ v address, view (readdressed v address) = view v

/-- The view shows the same of every record, and no id is given out. -/
structure KeepsView (view : ValidatorInfo → α) (before after : Registry) : Prop where
  own : OwnIds after
  records : ∀ id, viewOf view after id = viewOf view before id
  next : after.nextValidatorId = before.nextValidatorId

namespace KeepsView

theorem trans (first : KeepsView view before registry) (second : KeepsView view registry after) :
    KeepsView view before after :=
  ⟨second.own, fun id => (second.records id).trans (first.records id), second.next.trans first.next⟩

/-- A record is written back that shows the same. -/
theorem put {id : Nat} {old new : ValidatorInfo} (own : OwnIds before)
    (found : before.validators.find? id = some old) (sameId : new.id = old.id)
    (same : view new = view old) (validators : after.validators = before.validators.put new.id new)
    (next : after.nextValidatorId = before.nextValidatorId) : KeepsView view before after where
  own := own.put validators rfl
  records := by
    intro other
    have isId : new.id = id := sameId.trans (own id old found)
    unfold viewOf
    rw [validators, Table.find?_put, isId]
    split
    next isOther => rw [isOther, found, Option.map_some, Option.map_some, same]
    · rfl
  next := next

theorem of_path (shown : Shown kept view) (own : OwnIds before)
    (path : ReflTransGen (RegistryMove kept) before after) : KeepsView view before after := by
  refine @path_invariant Registry (RegistryMove kept) (KeepsView view before)
    (fun _ _ move keeps => keeps.trans ?_) before after path ⟨own, fun _ => rfl, rfl⟩
  cases move with
  | update id old new found same =>
    exact put keeps.own found same.id (shown.alike old new same) rfl rfl
  | activeSet ids _ => exact ⟨keeps.own, fun _ => rfl, rfl⟩
  | readdress id old address found valid =>
    exact @put _ _ _ _ id old (readdressed old address) keeps.own found rfl
      (shown.readdress old address) rfl rfl
  | remove id old found leaves => exact absurd leaves shown.stays

end KeepsView

theorem KeepsView.map {β : Type} (keeps : KeepsView view before after) (f : α → β) :
    KeepsView (f ∘ view) before after := by
  refine ⟨keeps.own, fun id => ?_, keeps.next⟩
  unfold viewOf
  rw [← Option.map_map, ← Option.map_map]
  exact congrArg (Option.map f) (keeps.records id)

theorem attendance_shown (seated : Bool) : Shown ⟨true, seated⟩ attendance :=
  ⟨by simp, fun _ _ same => same.attendance rfl, fun _ _ => rfl⟩

/-- Everything that a quiet move keeps. -/
def profile (v : ValidatorInfo) : Bool × (Nat × Nat × Nat) × Bool × Nat :=
  (v.isSeed, v.attendance, v.seat)

theorem profile_shown : Shown ⟨true, true⟩ profile := by
  refine ⟨by simp, fun old new same => ?_, fun _ _ => rfl⟩
  unfold profile
  rw [same.isSeed, same.attendance rfl, same.seat rfl]

/-- A path on which the seats are kept keeps the set. -/
theorem activeSet_of_path {present : Bool}
    (path : ReflTransGen (RegistryMove ⟨present, true⟩) before after) :
    after.activeSet = before.activeSet := by
  refine @path_invariant Registry (RegistryMove ⟨present, true⟩)
    (fun registry => registry.activeSet = before.activeSet) ?_ before after path rfl
  intro _ _ move same
  cases move with
  | update | readdress => exact same
  | activeSet ids reseats => cases reseats
  | remove id old found leaves => cases leaves

end Views

variable {before state after : StateAccess} {id height seen : Nat}

theorem Orderly.keepsAttendance {seated : Bool} (orderly : Orderly ⟨true, seated⟩ before after)
    (own : OwnIds before.registry) : KeepsView attendance before.registry after.registry :=
  .of_path (attendance_shown seated) own orderly

/-! ## Transactions -/

/-- The id that the next registration gets. -/
def nextValidator (state : StateAccess) : Nat := (state.getGlobal .nextValidatorId).getD 1

theorem nextValidator_of_registry
    (same : after.registry.nextValidatorId = before.registry.nextValidatorId) :
    nextValidator after = nextValidator before :=
  congrArg (Option.getD · 1) same

/-- What a transaction does to the presence and the seats of validators. -/
inductive ProfileEffect (height : Nat) (tx : Transaction) (before after : Registry) : Prop
  | keeps (profiles : KeepsView profile before after)
      (activeSet : after.activeSet = before.activeSet)
  | leaves (id : Nat) (validator : ValidatorInfo) (kind : tx.txType = .unregisterValidator)
      (found : before.validators.find? id = some validator) (notSeed : validator.isSeed = false)
      (left : after = leftRegistry before validator (withoutMember before.activeSet id) height)
  | registers (account : Account) (registered : after = registeredRegistry before tx account height)

theorem TxEffect.profiles (effect : TxEffect height tx before after)
    (own : OwnIds before.registry) : ProfileEffect height tx before.registry after.registry := by
  cases effect with
  | user _ _ registry _ =>
    cases registry with
    | moves path => exact .keeps (.of_path profile_shown own path) (activeSet_of_path path)
    | leaves id validator kind found notSeed left =>
      exact .leaves id validator kind found notSeed left
    | registers _ account _ _ registered => exact .registers account registered
    | rotates _ id validator _ found _ rotated =>
      rw [rotated]
      exact .keeps (@KeepsView.put _ _ _ _ id validator
        { validator with consensusKey := read32At tx.payload 0 } own found rfl rfl rfl rfl) rfl
  | system _ _ orderly => exact .keeps (.of_path profile_shown own orderly) (activeSet_of_path orderly)

/-- A transaction gives out at most one id. -/
theorem TxEffect.next (effect : TxEffect height tx before after)
    (own : OwnIds before.registry) (room : nextValidator before + 1 < 2 ^ 64) :
    nextValidator before ≤ nextValidator after ∧ nextValidator after ≤ nextValidator before + 1 := by
  have kept (same : nextValidator after = nextValidator before) :
      nextValidator before ≤ nextValidator after ∧
        nextValidator after ≤ nextValidator before + 1 := by
    omega
  cases TxEffect.profiles effect own with
  | keeps profiles _ => exact kept (nextValidator_of_registry profiles.next)
  | leaves _ _ _ _ _ left => exact kept (nextValidator_of_registry (by rw [left]; rfl))
  | registers _ registered =>
    -- one more id is given out
    have written : after.getGlobal .nextValidatorId = some (u64 (nextValidator before + 1)) :=
      congrArg Registry.nextValidatorId registered
    unfold nextValidator at room written ⊢
    rw [written, Option.getD_some, u64, Nat.mod_eq_of_lt room]
    omega

/-- What every transaction of a block keeps, as long as the ids last, holds after them. -/
theorem txSteps_keep {crypto : Primitives} {ctx : BlockContext} {txs : List Transaction}
    {Property : StateAccess → Prop} (steps : TxSteps crypto ctx before txs after)
    (each : ∀ tx ∈ txs, ∀ before after, OwnIds before.registry → nextValidator before + 1 < 2 ^ 64 →
      TxEffect ctx.currentHeight tx before after → Property before → Property after)
    (own : OwnIds before.registry) (room : nextValidator before + txs.length < 2 ^ 64)
    (start : Property before) :
    OwnIds after.registry ∧ nextValidator after ≤ nextValidator before + txs.length ∧
      Property after := by
  induction steps with
  | nil => exact ⟨own, Nat.le_refl _, start⟩
  | cons applied _ ih =>
    rw [List.length_cons] at room ⊢
    have effect := applyTransaction_effect applied
    have next := TxEffect.next effect own (by omega)
    obtain ⟨ownAfter, later, kept⟩ := ih
      (fun tx member => each tx (List.mem_cons_of_mem _ member)) (own.txEffect effect) (by omega)
      (each _ List.mem_cons_self _ _ own (by omega) effect start)
    exact ⟨ownAfter, by omega, kept⟩

/-- The validator has a record below the ids to come, was last seen at `seen`, and is not about to
leave at `height`. -/
structure Present (height id seen : Nat) (state : StateAccess) : Prop where
  own : OwnIds state.registry
  known : id < nextValidator state
  record : ∃ pending, viewOf attendance state.registry id = some (id, seen, pending) ∧
    (pending = 0 ∨ height < pending)

/-- A transaction keeps a validator present. -/
theorem TxEffect.present (effect : TxEffect height tx before after)
    (fits : height + UNBONDING_PERIOD < 2 ^ 64) (room : nextValidator before + 1 < 2 ^ 64)
    (present : Present height id seen before) : Present height id seen after := by
  have known := Nat.lt_of_lt_of_le present.known (TxEffect.next effect present.own room).1
  obtain ⟨pending, stored, bonded⟩ := present.record
  refine ⟨present.own.txEffect effect, known, ?_⟩
  cases TxEffect.profiles effect present.own with
  | keeps profiles _ =>
    exact ⟨pending, ((profiles.map fun entry => entry.2.1).records id).trans stored, bonded⟩
  | registers _ registered =>
    -- the new record lies under the next id
    refine ⟨pending, Eq.trans ?_ stored, bonded⟩
    have validators := congrArg Registry.validators registered
    unfold viewOf
    rw [validators, registeredRegistry, Table.find?_put]
    exact congrArg _ (if_neg (Nat.ne_of_lt present.known))
  | leaves leaving validator _ found _ left =>
    rw [left]
    unfold viewOf leftRegistry
    rw [Table.find?_put, present.own leaving validator found]
    split
    next isLeaving =>
      have isId := present.own leaving validator found
      unfold viewOf at stored
      rw [isLeaving, found, Option.map_some, Option.some.injEq] at stored
      have lastSeen : validator.lastSeenHeight = seen := congrArg (fun entry => entry.2.1) stored
      refine ⟨height + UNBONDING_PERIOD, ?_, Or.inr (Nat.lt_add_of_pos_right (by decide))⟩
      rw [Option.map_some, attendance, leftRecord]
      dsimp only
      rw [isId, isLeaving, lastSeen, u64, Nat.mod_eq_of_lt fits]
    · exact ⟨pending, stored, bonded⟩

/-! ## Marks and expiries -/

/-- The record of a participant gets the height of the block. -/
def marked (participants : List Nat) (height id : Nat) (attendance : Nat × Nat × Nat) :
    Nat × Nat × Nat :=
  if id ∈ participants then (attendance.1, height, attendance.2.2) else attendance

/-- An edit of a record is read under its id. -/
theorem getValidator_editValidator {change : ValidatorInfo → ValidatorInfo}
    (own : OwnIds state.registry) (keepsId : ∀ v, (change v).id = v.id) (target id : Nat) :
    (editValidator change state target).getValidator id =
      (state.getValidator id).map fun v => if id = target then change v else v := by
  unfold editValidator
  cases found : state.getValidator target with
  | none =>
    dsimp only
    by_cases isTarget : id = target
    · rw [isTarget, found]
      rfl
    · simp [isTarget]
  | some v =>
    have read : (state.putValidator (change v)).getValidator id =
        if id = (change v).id then some (change v) else state.getValidator id :=
      Table.find?_put state.tree.validators (change v).id _ id
    dsimp only
    rw [read, keepsId, own target v found]
    by_cases isTarget : id = target
    · rw [if_pos isTarget, isTarget, found, Option.map_some, if_pos rfl]
    · simp [isTarget]

theorem getValidator_editAll {change : ValidatorInfo → ValidatorInfo}
    (own : OwnIds state.registry) (keepsId : ∀ v, (change v).id = v.id)
    (again : ∀ v, change (change v) = change v) (targets : List Nat) (id : Nat) :
    (targets.foldl (editValidator change) state).getValidator id =
      (state.getValidator id).map fun v => if id ∈ targets then change v else v := by
  induction targets generalizing state with
  | nil => simp
  | cons first rest ih =>
    have edited : OwnIds (editValidator change state first).registry := by
      intro other v found
      have read := getValidator_editValidator own keepsId first other
      obtain ⟨w, stored, isV⟩ := Option.map_eq_some_iff.mp (read.symm.trans found)
      rw [← isV, ← own other w stored]
      split
      · exact keepsId w
      · rfl
    rw [List.foldl_cons, ih edited, getValidator_editValidator own keepsId,
      Option.map_map]
    apply congrArg (Option.map · (state.getValidator id))
    funext v
    by_cases isFirst : id = first
    · by_cases isLater : first ∈ rest <;> simp [isFirst, isLater, again]
    · simp [isFirst]

theorem markParticipants_attendance (own : OwnIds state.registry) (participants : List Nat)
    (height id : Nat) :
    viewOf attendance (markParticipants state participants height).registry id =
      (viewOf attendance state.registry id).map (marked participants height id) := by
  have read := @getValidator_editAll state (fun v => { v with lastSeenHeight := height }) own
    (fun _ => rfl) (fun _ => rfl) participants id
  refine (congrArg (Option.map ValidatorInfo.attendance) read).trans ?_
  unfold viewOf
  rw [Option.map_map, Option.map_map]
  apply congrArg (Option.map · (state.getValidator id))
  funext v
  unfold marked
  by_cases listed : id ∈ participants
  · simp [listed, ValidatorInfo.attendance]
  · simp [listed]

/-- A validator that is not about to leave stays. -/
theorem processUnbondExpiries_bonded {v : ValidatorInfo} (own : OwnIds state.registry)
    (found : state.getValidator id = some v) (bonded : v.isUnbondExpired height = false) :
    (processUnbondExpiries state height).getValidator id = some v := by
  have kept := @foldl_keeps StateAccess Nat
    (fun middle => OwnIds middle.registry ∧ middle.getValidator id = some v) unbond
    ((state.validators.filter fun w => w.isUnbondExpired height).map ValidatorInfo.id) ?_ state
    ⟨own, found⟩
  · exact kept.2
  · rintro leaving member middle ⟨ownMiddle, still⟩
    refine ⟨ownMiddle.path (unbond_orderly middle leaving), ?_⟩
    obtain ⟨w, expired, isLeaving⟩ := List.mem_map.mp member
    obtain ⟨stored, isExpired⟩ := List.mem_filter.mp expired
    have other : id ≠ leaving := by
      intro same
      have foundLeaving := (mem_validators_iff own).mp stored
      rw [isLeaving, ← same, found] at foundLeaving
      cases foundLeaving
      exact absurd (bonded.symm.trans isExpired) Bool.false_ne_true
    rw [unbond_getValidator ownMiddle other]
    exact still

/-! ## A block -/

theorem rewards_orderly (header : BlockHeader) (height : Nat) :
    Orderly ⟨true, false⟩ state (updateGlobalState (countProduced (distributeRewards
      (if (height + 1) % ROTATION_INTERVAL = 0 then evaluateOrderConditions state height
        else (state, [])).1 header) header) height) := by
  have evaluated : Orderly ⟨true, false⟩ state
      (if (height + 1) % ROTATION_INTERVAL = 0 then evaluateOrderConditions state height
        else (state, [])).1 := by
    split
    · exact .of_within (evaluateOrderConditions_within height) (by decide)
    · exact .refl state
  exact ((evaluated.trans (distributeRewards_orderly header)).trans
    (countProduced_orderly header)).trans
    (.of_within (updateGlobalState_within height) (by decide))

theorem closeBlock_orderly (own : OwnIds state.registry) (env : ChainEnv) (block : Block)
    (height : Nat) : Orderly ⟨true, false⟩ state (closeBlock env block height false state) := by
  have counted : Orderly ⟨true, false⟩ state (bumpLifetimeCounters state block) :=
    .of_within (bumpLifetimeCounters_within block) (by decide)
  unfold closeBlock
  simp only [Bool.false_eq_true, if_false]
  split
  · have settled := counted.trans (.of_within (processEpochBoundary_within height) (by decide))
    exact settled.trans (processRotation_orderly (own.path settled) env.sorter height _)
  · exact counted

/-- The passes write the height of the block into the records of its participants. -/
theorem passes_lastSeen {env : ChainEnv} {block : Block} {committedSet activeSet : List Nat}
    (present : Present height id seen state) :
    ∃ v, (closeBlock env block height false
        (runPasses env block height committedSet activeSet state).1).getValidator id = some v ∧
      v.lastSeenHeight = if id ∈ block.participants then height else seen := by
  obtain ⟨pending, found, bonded⟩ := present.record
  unfold runPasses
  dsimp only
  -- up to the marks
  have switched : Orderly ⟨true, false⟩ state
      (if block.header.emergency = true ∧ activeSet ≠ committedSet then
        switchActiveSet state committedSet activeSet height else state) :=
    .ite (switchActiveSet_orderly _ _ height) (.refl state)
  generalize (if block.header.emergency = true ∧ activeSet ≠ committedSet then
    switchActiveSet state committedSet activeSet height else state) = first at switched ⊢
  have keepsFirst := switched.keepsAttendance present.own
  have marks := markParticipants_attendance keepsFirst.own block.participants height id
  have ownMarked := keepsFirst.own.path (@markParticipants_orderly _ true block.participants height)
  generalize markParticipants first block.participants height = second at marks ownMarked ⊢
  rw [keepsFirst.records, found] at marks
  -- up to the expiries
  have checked : Orderly ⟨true, false⟩ second
      (if (height + 1) % OFFLINE_CHECK_INTERVAL = 0 then runOfflineCheck env.sorter second height
        else second) :=
    .ite (runOfflineCheck_orderly ownMarked env.sorter height) (.refl second)
  generalize (if (height + 1) % OFFLINE_CHECK_INTERVAL = 0 then
    runOfflineCheck env.sorter second height else second) = third at checked ⊢
  have expired := (checked.trans (.of_within (processOrderExpiries_within height)
    (by decide))).keepsAttendance ownMarked
  generalize processOrderExpiries third height = fourth at expired ⊢
  obtain ⟨v, isRecord, attended⟩ := Option.map_eq_some_iff.mp ((expired.records id).trans marks)
  have pendingSame : v.pendingUnbondHeight = pending := by
    have read := congrArg (fun entry => entry.2.2) attended
    unfold marked at read
    split at read
    · exact read
    · exact read
  have stays : v.isUnbondExpired height = false := by
    unfold ValidatorInfo.isUnbondExpired
    rw [pendingSame]
    rcases bonded with none | later
    · simp [none]
    · simp [Nat.not_le.mpr later]
  have unbonded := processUnbondExpiries_bonded expired.own isRecord stays
  have ownUnbonded := expired.own.path (processUnbondExpiries_orderly height)
  generalize processUnbondExpiries fourth height = fifth at unbonded ownUnbonded ⊢
  -- up to the end
  have rewarded := @rewards_orderly fifth block.header height
  have closed := (rewarded.trans (closeBlock_orderly (ownUnbonded.path rewarded) env block
    height)).keepsAttendance ownUnbonded
  have final : viewOf attendance fifth.registry id = some v.attendance :=
    Option.map_eq_some_iff.mpr ⟨v, unbonded, rfl⟩
  obtain ⟨w, isFinal, same⟩ := Option.map_eq_some_iff.mp ((closed.records id).trans final)
  refine ⟨w, isFinal, ?_⟩
  have read : w.lastSeenHeight = (marked block.participants height id (id, seen, pending)).2.1 :=
    congrArg (fun entry => entry.2.1) (same.trans attended)
  rw [read, marked]
  split
  · rfl
  · rfl

/-- An accepted block writes its height into the record of a participant that it finds, and leaves
the record of anybody else as it was last seen. -/
theorem Extends.lastSeen {env : ChainEnv} {chainId : Nat} {block : Block} {v : ValidatorInfo}
    (accepted : Extends env chainId height before block after) (own : OwnIds before.registry)
    (found : before.getValidator id = some v) (known : id < nextValidator before)
    (bonded : v.isUnbondExpired height = false) (fits : height + UNBONDING_PERIOD < 2 ^ 64)
    (room : nextValidator before + block.transactions.length < 2 ^ 64) :
    ∃ w, after.getValidator id = some w ∧
      w.lastSeenHeight = if id ∈ block.participants then height else v.lastSeenHeight := by
  obtain ⟨nowMs, result, applied⟩ := accepted
  obtain ⟨run, checks, isOutcome⟩ := applyBlock_ok_iff.mp applied
  have present : Present height id v.lastSeenHeight (opened before height) := by
    refine ⟨own, known, v.pendingUnbondHeight, ?_, ?_⟩
    · refine Option.map_eq_some_iff.mpr ⟨v, found, ?_⟩
      rw [ValidatorInfo.attendance, own id v found]
    · unfold ValidatorInfo.isUnbondExpired at bonded
      simp only [Bool.and_eq_false_imp, bne_iff_ne, decide_eq_false_iff_not, Nat.not_le] at bonded
      by_cases none : v.pendingUnbondHeight = 0
      · exact Or.inl none
      · exact Or.inr (bonded none)
  obtain ⟨_, _, executed⟩ := txSteps_keep (applyFrom_steps checks.transactions)
    (fun tx _ _ _ _ room effect => TxEffect.present effect fits room) own room present
  have isAfter := congrArg Prod.fst isOutcome
  dsimp only at isAfter
  rw [isAfter]
  exact passes_lastSeen executed

end Clarity.Core
