import Clarity.Core.BlockProcessor.Apply
import Clarity.Core.Genesis

/-!
Contract: chains of accepted blocks.

Owns:
- `Extends`, one block accepted on the apply path on top of a state, `Grows`, a sequence of
  them, and `Chain`, what grows from genesis;
- `Event`, one transaction or one pass of a block with the state before and after it, and
  `eventsOf`, everything that happens along a sequence of blocks;
- the rules that turn "every event keeps it" into "every chain has it", for properties of the
  state together with what happened so far, and for properties of the validator registry;
- a small network whose chains can be run.
-/

namespace Clarity.Core

open Common Crypto Library State State.StateAccess
open Clarity.Core.TransactionExecutor Clarity.Core.BlockProcessor Relation

variable {nowMs : Nat} {txs : List Transaction}

section Chains

variable {env : ChainEnv} {crypto : Primitives} {chainId height : Nat}
  {start state before after : StateAccess} {block : Block} {blocks : List Block} {tx : Transaction}
  {committedSet activeSet : List Nat} {change : StateAccess → StateAccess}

/-! ## Chains -/

def opened (state : StateAccess) (height : Nat) : StateAccess := { state with version := height }

theorem opened_within (state : StateAccess) (height : Nat) :
    Within [.version] state (opened state height) :=
  (Within.step_iff List.mem_cons_self
    (by rintro (_ | _) other <;> first | rfl | contradiction)).mpr (.refl _ _)

def applyContext (chainId height nowMs : Nat) : BlockContext :=
  { chainId := chainId, currentHeight := height, dryRun := false, nowMs := nowMs }

def Extends (env : ChainEnv) (chainId height : Nat) (before : StateAccess) (block : Block)
    (after : StateAccess) : Prop :=
  ∃ nowMs result, applyBlock env (opened before height) block (applyContext chainId height nowMs) =
    .ok (after, result)

/-- What the header check of the apply path asks for. -/
theorem checkHeader_ok
    (passed : checkHeader crypto block (applyContext chainId height nowMs) = .ok ()) :
    block.header.isWellFormed = true ∧ block.header.height = height ∧
      (block.header.emergencyRotation > 0 →
        computeTimeoutCertificateHash crypto block.header.timeoutCertificate =
          block.header.timeoutCertificateHash) := by
  simp only [checkHeader, applyContext, ite_error_eq_ok_iff] at passed
  obtain ⟨formed, _, sameHeight, _, checked⟩ := passed
  refine ⟨by simpa using formed, by simpa using sameHeight, ?_⟩
  intro emergency
  by_contra differs
  rw [if_pos ⟨trivial, emergency⟩, checkTimeoutCertificateHash, if_pos differs] at checked
  cases checked

theorem checkTxRoot_ok (passed : checkTxRoot crypto block = .ok ()) :
    computeTxRoot crypto block.transactions = block.header.txRoot := by
  by_contra differs
  unfold checkTxRoot at passed
  rw [if_pos differs] at passed
  cases passed

/-- The signatures are checked apart from the rest of the set. -/
theorem checkSet_ok_iff {ctx : BlockContext} (live : ctx.dryRun = false) : checkSet env state block ctx = .ok () ↔
      ((block.header.emergency = true → checkTimeoutCertificate env.crypto state block
          state.loadActiveSet ctx.currentHeight = .ok ()) ∧
        (blockSet env state block ctx.currentHeight).length = block.header.activeValidatorCount ∧
        checkValidatorSetRoot env.crypto block (blockSet env state block ctx.currentHeight) =
          .ok ()) ∧
      checkQuorum env.crypto state.view block (blockSet env state block ctx.currentHeight) =
        .ok () := by
  unfold checkSet
  by_cases emergency : block.header.emergency = true <;>
    by_cases count : (blockSet env state block ctx.currentHeight).length =
      block.header.activeValidatorCount <;>
    simp [emergency, count, live, bind_eq_ok_iff] <;> tauto

/-- The state root is checked apart from the other commitments. -/
theorem checkCommitments_ok_iff {header : BlockHeader} {result : BlockResult} :
    checkCommitments env.crypto header false result = .ok () ↔
      (isNull header.stateRoot = false → header.stateRoot = result.newStateRoot) ∧
        checkCommitments env.crypto { header with stateRoot := 0 } false
          { result with newStateRoot := 0 } = .ok () := by
  unfold checkCommitments
  by_cases null : isNull header.stateRoot = true <;>
    by_cases same : header.stateRoot = result.newStateRoot <;> simp [null, same, bind_eq_ok_iff]

/-- The blocks are accepted one after the other, from the height after `height` on. -/
inductive Grows (env : ChainEnv) (chainId height : Nat) (start : StateAccess) :
    List Block → StateAccess → Prop
  | start : Grows env chainId height start [] start
  | extend {blocks : List Block} {before after : StateAccess} {block : Block}
      (grows : Grows env chainId height start blocks before)
      (accepted : Extends env chainId (height + blocks.length + 1) before block after) :
      Grows env chainId height start (blocks ++ [block]) after

/-- The blocks form a chain from genesis that ends in the state. -/
def Chain (env : ChainEnv) (config : GenesisConfig) (blocks : List Block) (state : StateAccess) :
    Prop :=
  Grows env config.chainId 0 (applyGenesis config) blocks state

/-! ## Events -/

/-- The passes of an accepted block after its transactions. -/
inductive Pass
  | activeSet
  | participants
  | offlineCheck
  | orderExpiries
  | unbondExpiries
  | orderConditions
  | rewards
  | producer
  | globals
  | counters
  | epochBoundary
  | rotation
deriving DecidableEq, Repr

/-- What the passes of a block do, in their order. -/
def passes (env : ChainEnv) (block : Block) (height : Nat) (committedSet activeSet : List Nat) :
    List (Pass × (StateAccess → StateAccess)) :=
  let lastOfInterval := (height + 1) % ROTATION_INTERVAL = 0
  [(.activeSet, fun state =>
      if block.header.emergency = true ∧ activeSet ≠ committedSet then
        switchActiveSet state committedSet activeSet height
      else state),
    (.participants, fun state => markParticipants state block.participants height),
    (.offlineCheck, fun state =>
      if (height + 1) % OFFLINE_CHECK_INTERVAL = 0 then runOfflineCheck env.sorter state height
      else state),
    (.orderExpiries, fun state => processOrderExpiries state height),
    (.unbondExpiries, fun state => processUnbondExpiries state height),
    (.orderConditions, fun state =>
      if lastOfInterval then (evaluateOrderConditions state height).1 else state),
    (.rewards, fun state => distributeRewards state block.header),
    (.producer, fun state => countProduced state block.header),
    (.globals, fun state => updateGlobalState state height),
    (.counters, fun state => bumpLifetimeCounters state block),
    (.epochBoundary, fun state => if lastOfInterval then processEpochBoundary state height else state),
    (.rotation, fun state =>
      if lastOfInterval then processRotation env.sorter state height block.transactions.length
      else state)]

/-- One transaction or one pass of a block, with the state before and after it. -/
inductive Event
  | tx (height : Nat) (before : StateAccess) (tx : Transaction) (after : StateAccess)
  | pass (height : Nat) (kind : Pass) (before after : StateAccess)
deriving DecidableEq

def Event.transaction? : Event → Option Transaction
  | .tx _ _ transaction _ => some transaction
  | .pass .. => none

def txEvents (crypto : Primitives) (ctx : BlockContext) :
    StateAccess → List Transaction → List Event × StateAccess
  | state, [] => ([], state)
  | state, tx :: rest =>
    match applyTransaction crypto ctx state 0 tx with
    | .error _ => ([], state)
    | .ok (after, _) =>
      let later := txEvents crypto ctx after rest
      (.tx ctx.currentHeight state tx after :: later.1, later.2)

def passEvents (height : Nat) :
    List (Pass × (StateAccess → StateAccess)) → StateAccess → List Event × StateAccess
  | [], state => ([], state)
  | (kind, change) :: rest, state =>
    let later := passEvents height rest (change state)
    (.pass height kind state (change state) :: later.1, later.2)

def blockEvents (env : ChainEnv) (chainId height : Nat) (state : StateAccess) (block : Block) :
    List Event × StateAccess :=
  let executed := txEvents env.crypto (applyContext chainId height 0) (opened state height)
    block.transactions
  let passed := passEvents height (passes env block height state.loadActiveSet
    (blockSet env (opened state height) block height)) executed.2
  (executed.1 ++ passed.1, passed.2)

def eventsOf (env : ChainEnv) (chainId : Nat) : Nat → StateAccess → List Block → List Event
  | _, _, [] => []
  | height, state, block :: rest =>
    let first := blockEvents env chainId (height + 1) state block
    first.1 ++ eventsOf env chainId (height + 1) first.2 rest

def chainEvents (env : ChainEnv) (config : GenesisConfig) (blocks : List Block) : List Event :=
  eventsOf env config.chainId 0 (applyGenesis config) blocks

/-! ## The events of an accepted block -/

/-- The position of a transaction matters for error texts only. -/
theorem applyTransaction_index {ctx : BlockContext} {index : Nat} {done : StateAccess × Receipt}
    (applied : applyTransaction crypto ctx state index tx = .ok done) (other : Nat) :
    applyTransaction crypto ctx state other tx = .ok done := by
  unfold applyTransaction at applied ⊢
  split
  next system =>
    rw [if_pos system] at applied
    split
    next slash =>
      rw [if_pos slash] at applied
      split at applied
      · cases applied
      · exact applied
    next notSlash =>
      rw [if_neg notSlash] at applied
      exact applied
  next user =>
    rw [if_neg user] at applied
    split at applied
    · cases applied
    next wellFormed =>
      rw [if_neg wellFormed]
      split at applied
      · cases applied
      · exact applied

/-- The clock of the node matters for the acceptance of a header only. -/
theorem steps_nowMs (steps : TxSteps crypto (applyContext chainId height nowMs) before txs after) :
    TxSteps crypto (applyContext chainId height 0) before txs after := by
  induction steps with
  | nil state => exact .nil state
  | cons applied _ ih => exact .cons applied ih

/-- The events lead from one state to another, each by the transaction or the pass it names. -/
inductive Happens (env : ChainEnv) (chainId height : Nat) :
    StateAccess → List Event → StateAccess → Prop
  | done (state : StateAccess) : Happens env chainId height state [] state
  | tx {before middle after : StateAccess} {tx : Transaction} {receipt : Receipt}
      {later : List Event}
      (applied : applyTransaction env.crypto (applyContext chainId height 0) before 0 tx =
        .ok (middle, receipt))
      (rest : Happens env chainId height middle later after) :
      Happens env chainId height before (.tx height before tx middle :: later) after
  | pass {before after : StateAccess} {block : Block} {committedSet activeSet : List Nat}
      {kind : Pass} {change : StateAccess → StateAccess} {later : List Event}
      (isPass : (kind, change) ∈ passes env block height committedSet activeSet)
      (rest : Happens env chainId height (change before) later after) :
      Happens env chainId height before (.pass height kind before (change before) :: later) after

namespace Happens

variable {env : ChainEnv} {chainId height : Nat} {before middle after : StateAccess}

theorem append {first second : List Event} (left : Happens env chainId height before first middle)
    (right : Happens env chainId height middle second after) :
    Happens env chainId height before (first ++ second) after := by
  induction left with
  | done => exact right
  | tx applied _ ih => exact .tx applied (ih right)
  | pass isPass _ ih => exact .pass isPass (ih right)

theorem of_txs (steps : TxSteps env.crypto (applyContext chainId height 0) before txs after) :
    (txEvents env.crypto (applyContext chainId height 0) before txs).2 = after ∧
      Happens env chainId height before
        (txEvents env.crypto (applyContext chainId height 0) before txs).1 after := by
  induction steps with
  | nil state => exact ⟨rfl, .done state⟩
  | @cons before middle after tx rest index receipt applied _ ih =>
    have applied := applyTransaction_index applied 0
    unfold txEvents
    rw [applied]
    exact ⟨ih.1, .tx applied ih.2⟩

theorem of_passes {block : Block} {committedSet activeSet : List Nat}
    {entries : List (Pass × (StateAccess → StateAccess))}
    (subset : ∀ entry ∈ entries, entry ∈ passes env block height committedSet activeSet)
    (state : StateAccess) :
    Happens env chainId height state (passEvents height entries state).1
      (passEvents height entries state).2 := by
  induction entries generalizing state with
  | nil => exact .done state
  | cons entry rest ih =>
    refine .pass (subset entry List.mem_cons_self) (ih ?_ (entry.2 state))
    exact fun other member => subset other (List.mem_cons_of_mem entry member)

/-- What every event keeps, of the state and of the events so far, holds after them. -/
theorem keeps {allowed : Event → Prop} {Property : StateAccess → List Event → Prop}
    {events : List Event} (happens : Happens env chainId height before events after)
    (met : ∀ event ∈ events, allowed event)
    (tx : ∀ before after tx receipt past, allowed (.tx height before tx after) →
      applyTransaction env.crypto (applyContext chainId height 0) before 0 tx =
        .ok (after, receipt) →
      Property before past → Property after (past ++ [.tx height before tx after]))
    (pass : ∀ block committedSet activeSet kind change state past,
      (kind, change) ∈ passes env block height committedSet activeSet →
      allowed (.pass height kind state (change state)) →
      Property state past → Property (change state) (past ++ [.pass height kind state (change state)]))
    (past : List Event) (start : Property before past) : Property after (past ++ events) := by
  induction happens generalizing past with
  | done => rwa [List.append_nil]
  | tx applied _ ih =>
    rw [List.append_cons]
    apply ih fun event member => met event (List.mem_cons_of_mem _ member)
    exact tx _ _ _ _ past (met _ List.mem_cons_self) applied start
  | pass isPass _ ih =>
    rw [List.append_cons]
    apply ih fun event member => met event (List.mem_cons_of_mem _ member)
    exact pass _ _ _ _ _ _ past isPass (met _ List.mem_cons_self) start

end Happens

theorem Extends.happens (accepted : Extends env chainId height before block after) :
    (blockEvents env chainId height before block).2 = after ∧
      Happens env chainId height (opened before height)
        (blockEvents env chainId height before block).1 after := by
  obtain ⟨nowMs, result, applied⟩ := accepted
  obtain ⟨run, checks, isOutcome⟩ := applyBlock_ok_iff.mp applied
  obtain ⟨reached, happened⟩ := Happens.of_txs (steps_nowMs (applyFrom_steps checks.transactions))
  have passed : Happens env chainId height run.state _ _ :=
    Happens.of_passes (fun entry (member : entry ∈ passes env block height before.loadActiveSet
      (blockSet env (opened before height) block height)) => member) run.state
  have isAfter : after = (passEvents height (passes env block height before.loadActiveSet
      (blockSet env (opened before height) block height)) run.state).2 := by
    refine (show after = closeBlock env block height false (runPasses env block height
      before.loadActiveSet (blockSet env (opened before height) block height) run.state).1
      from congrArg Prod.fst isOutcome).trans ?_
    simp only [passes, passEvents, closeBlock, runPasses, Bool.false_eq_true, if_false]
    by_cases last : (height + 1) % ROTATION_INTERVAL = 0
    · simp only [last, if_true]
    · simp only [last, if_false]
  unfold blockEvents
  dsimp only
  rw [reached, isAfter]
  exact ⟨rfl, happened.append passed⟩

theorem Grows.events_append (grows : Grows env chainId height start blocks state)
    (more : List Block) :
    eventsOf env chainId height start (blocks ++ more) =
      eventsOf env chainId height start blocks ++
        eventsOf env chainId (height + blocks.length) state more := by
  induction grows generalizing more with
  | start => rfl
  | @extend blocks before after block _ accepted ih =>
    have last := ih [block]
    have longer := ih (block :: more)
    have reached := accepted.happens.1
    rw [List.append_assoc, List.singleton_append, longer, last]
    simp only [eventsOf, List.append_nil, List.append_assoc, reached, List.length_append,
      List.length_singleton, ← Nat.add_assoc]

theorem txEvents_transactions {ctx : BlockContext} (steps : TxSteps crypto ctx before txs after) :
    (txEvents crypto ctx before txs).1.filterMap Event.transaction? = txs := by
  induction steps with
  | nil => rfl
  | cons applied _ ih =>
    unfold txEvents
    rw [applyTransaction_index applied 0]
    simp only [List.filterMap_cons, Event.transaction?, ih]

theorem passEvents_transactions (height : Nat)
    (entries : List (Pass × (StateAccess → StateAccess))) (state : StateAccess) :
    (passEvents height entries state).1.filterMap Event.transaction? = [] := by
  induction entries generalizing state with
  | nil => rfl
  | cons entry rest ih => exact ih (entry.2 state)

/-- Every transaction of an accepted block was executed, in the order of the blocks. -/
theorem Grows.events_transactions (grows : Grows env chainId height start blocks state) :
    (eventsOf env chainId height start blocks).filterMap Event.transaction? =
      blocks.flatMap Block.transactions := by
  induction grows with
  | start => rfl
  | @extend blocks before after block grown accepted ih =>
    obtain ⟨nowMs, result, applied⟩ := accepted
    obtain ⟨run, checks, _⟩ := applyBlock_ok_iff.mp applied
    have executed : (txEvents env.crypto (applyContext chainId (height + blocks.length + 1) 0)
        (opened before (height + blocks.length + 1)) block.transactions).1.filterMap
          Event.transaction? = block.transactions :=
      txEvents_transactions (steps_nowMs (applyFrom_steps checks.transactions))
    rw [grown.events_append, List.filterMap_append, ih, List.flatMap_append,
      List.flatMap_singleton]
    simp only [eventsOf, blockEvents, List.append_nil, List.filterMap_append, executed,
      passEvents_transactions]

/-! ## The rule for growing chains -/

/-- A property of the height, the state and the events so far that survives the opening of the
next block and every event that is allowed holds at the end, if all events are allowed. -/
theorem Grows.keeps {env : ChainEnv} {chainId height : Nat} {allowed : Event → Prop}
    {Property : Nat → StateAccess → List Event → Prop} {start state : StateAccess}
    {blocks : List Block} (grows : Grows env chainId height start blocks state)
    (met : ∀ event ∈ eventsOf env chainId height start blocks, allowed event)
    (opens : ∀ current state past, Property current state past →
      Property (current + 1) (opened state (current + 1)) past)
    (tx : ∀ current before after tx receipt past, height < current →
      allowed (.tx current before tx after) →
      applyTransaction env.crypto (applyContext chainId current 0) before 0 tx =
        .ok (after, receipt) →
      Property current before past →
      Property current after (past ++ [.tx current before tx after]))
    (pass : ∀ current block committedSet activeSet kind change state past, height < current →
      (kind, change) ∈ passes env block current committedSet activeSet →
      allowed (.pass current kind state (change state)) →
      Property current state past →
      Property current (change state) (past ++ [.pass current kind state (change state)]))
    (first : Property height start []) :
    Property (height + blocks.length) state (eventsOf env chainId height start blocks) := by
  induction grows with
  | start => exact first
  | @extend blocks before after block grown accepted ih =>
    obtain ⟨reached, happens⟩ := accepted.happens
    have split := grown.events_append [block]
    simp only [eventsOf, List.append_nil] at split
    rw [split] at met ⊢
    have soFar := ih fun event member => met event (List.mem_append_left _ member)
    rw [List.length_append, List.length_singleton]
    refine @Happens.keeps _ _ _ _ _ allowed (Property (height + blocks.length + 1)) _ happens
      (fun event member => met event (List.mem_append_right _ member)) ?_ ?_ _
      (opens _ _ _ soFar)
    · intro before after transaction receipt past
      exact tx _ before after transaction receipt past (by omega)
    · intro block committedSet activeSet kind change state past
      exact pass _ block committedSet activeSet kind change state past (by omega)

/-! ## Records stay under their own ids -/

theorem OwnIds.put {registry changed : Registry} (own : OwnIds registry) {id : Nat}
    {v : ValidatorInfo} (validators : changed.validators = registry.validators.put id v)
    (same : v.id = id) : OwnIds changed := by
  unfold OwnIds
  rw [validators]
  exact Table.forall_put own same

theorem OwnIds.move {before after : Registry} (own : OwnIds before)
    {kept : Kept} (move : RegistryMove kept before after) : OwnIds after := by
  cases move with
  | update id old new found same => exact own.put rfl rfl
  | activeSet ids _ => exact own
  | readdress id old address found valid => exact own.put rfl rfl
  | remove id old found leaves => exact Table.forall_erase own

theorem OwnIds.path {before after : Registry} (own : OwnIds before) {kept : Kept}
    (path : ReflTransGen (RegistryMove kept) before after) : OwnIds after := by
  refine @path_invariant Registry (RegistryMove kept) OwnIds ?_ before after path own
  exact fun _ _ move kept => kept.move move

theorem OwnIds.effect {before after : Registry} (own : OwnIds before)
    (effect : RegistryEffect height tx before after) : OwnIds after := by
  cases effect with
  | moves path => exact own.path path
  | leaves id validator _ found _ left =>
    rw [left]
    exact own.path (leftRegistry_path found _ height)
  | registers _ account _ _ registered =>
    rw [registered]
    exact own.put rfl rfl
  | rotates _ id validator _ _ _ rotated =>
    rw [rotated]
    exact own.put rfl rfl

theorem OwnIds.txEffect (own : OwnIds before.registry) (effect : TxEffect height tx before after) :
    OwnIds after.registry := by
  cases effect with
  | user _ _ registry _ => exact own.effect registry
  | system _ _ orderly => exact own.path orderly

/-! ## Validators -/

theorem within_choice {parts : List Part} {condition : Prop} [Decidable condition]
    {changed : StateAccess} (within : Within parts state changed) :
    Within parts state (if condition then changed else state) := by
  split
  · exact within
  · exact .refl _ _

theorem passes_orders {kind : Pass}
    (isPass : (kind, change) ∈ passes env block height committedSet activeSet) :
    (kind = .orderExpiries → change = fun state => processOrderExpiries state height) ∧
      (kind = .orderConditions → change = fun state =>
        if (height + 1) % ROTATION_INTERVAL = 0 then (evaluateOrderConditions state height).1
        else state) := by
  simp only [passes, List.mem_cons, Prod.mk.injEq, List.not_mem_nil, or_false] at isPass
  rcases isPass with ⟨rfl, -⟩ | ⟨rfl, -⟩ | ⟨rfl, -⟩ | ⟨rfl, same⟩ | ⟨rfl, -⟩ | ⟨rfl, same⟩ | ⟨rfl, -⟩ |
    ⟨rfl, -⟩ | ⟨rfl, -⟩ | ⟨rfl, -⟩ | ⟨rfl, -⟩ | ⟨rfl, -⟩ <;> simp_all

/-- The parts of the state that a pass writes. -/
def partsOf : Pass → List Part
  | .orderExpiries | .orderConditions => orderParts
  | .globals => [.supply]
  | .counters => [.counters]
  | .epochBoundary => [.accounts, .collections, .counters]
  | _ => passParts

/-- A pass writes nothing else. -/
theorem passes_within {kind : Pass}
    (isPass : (kind, change) ∈ passes env block height committedSet activeSet)
    (state : StateAccess) : Within (partsOf kind) state (change state) := by
  simp only [passes, List.mem_cons, Prod.mk.injEq, List.not_mem_nil, or_false] at isPass
  rcases isPass with ⟨rfl, rfl⟩ | ⟨rfl, rfl⟩ | ⟨rfl, rfl⟩ | ⟨rfl, rfl⟩ | ⟨rfl, rfl⟩ | ⟨rfl, rfl⟩ |
    ⟨rfl, rfl⟩ | ⟨rfl, rfl⟩ | ⟨rfl, rfl⟩ | ⟨rfl, rfl⟩ | ⟨rfl, rfl⟩ | ⟨rfl, rfl⟩
  · exact within_choice (switchActiveSet_within committedSet activeSet height)
  · exact Within.foldl (editValidator_within _) block.participants state
  · exact within_choice (runOfflineCheck_within env.sorter height)
  · exact processOrderExpiries_within height
  · exact processUnbondExpiries_within height
  · exact within_choice (evaluateOrderConditions_within height)
  · exact distributeRewards_within block.header
  · exact countProduced_within block.header
  · exact updateGlobalState_within height
  · exact bumpLifetimeCounters_within block
  · exact within_choice (processEpochBoundary_within height)
  · exact within_choice (processRotation_within env.sorter height _)

/-- The parts of the state that transactions write. -/
abbrev txParts : List Part :=
  [.nonces, .accounts, .balances, .tokens, .nfts, .collections, .book, .pools, .positions, .registry]

theorem applyTransaction_within {ctx : BlockContext} {index : Nat} {receipt : Receipt}
    (applied : applyTransaction crypto ctx state index tx = .ok (after, receipt)) :
    Within txParts state after := by
  cases system : tx.txType.isSystemTx with
  | true => exact (applyTransaction_system system applied).1.mono (by decide)
  | false =>
    have ran := applyTransaction_user system applied
    revert ran
    suffices kept : Ensures (fun done => Within txParts state done.1)
        (execute crypto state tx _) from kept (after, receipt)
    simp only [execute, Ensures.do_iff, Ensures.pure_iff]
    intro _ _ _ _ _ _ _ _ _ _ charged ranFee done ran
    have handled := dispatch_within done ran
    have allowed : handlerParts tx.txType ⊆ txParts := by
      cases tx.txType with
      | unnamed => exact List.nil_subset _
      | _ => decide
    exact (((chargeFee_within charged ranFee).mono (by decide)).trans (handled.mono allowed)).trans
      (bumpNonce_within.mono (by decide))

theorem TxSteps.within {ctx : BlockContext} (steps : TxSteps crypto ctx state txs after) :
    Within txParts state after := by
  induction steps with
  | nil state => exact .refl _ _
  | cons applied _ ih => exact (applyTransaction_within applied).trans ih

/-- The passes before the counters write what transactions write, and the globals at the end. -/
theorem runPasses_eq (height : Nat) (committedSet activeSet : List Nat) :
    ∃ rewarded, Within txParts state rewarded ∧
      (runPasses env block height committedSet activeSet state).1 = updateGlobalState rewarded height := by
  have evaluates (expired : StateAccess) : Within txParts expired
      (if (height + 1) % ROTATION_INTERVAL = 0 then evaluateOrderConditions expired height
        else (expired, [])).1 := by
    split
    · exact (evaluateOrderConditions_within height).mono (by decide)
    · exact .refl _ _
  refine ⟨_, ?_, rfl⟩
  refine Within.trans ?_ ((countProduced_within block.header).mono (by decide))
  refine Within.trans ?_ ((distributeRewards_within block.header).mono (by decide))
  refine Within.trans ?_ (evaluates _)
  refine Within.trans ?_ ((processUnbondExpiries_within height).mono (by decide))
  refine Within.trans ?_ ((processOrderExpiries_within height).mono (by decide))
  refine Within.trans ?_ (within_choice ((runOfflineCheck_within env.sorter height).mono (by decide)))
  refine Within.trans ?_ (Within.foldl (fun state id =>
    (editValidator_within _ state id).mono (by decide)) block.participants _)
  exact within_choice ((switchActiveSet_within committedSet activeSet height).mono (by decide))

theorem runPasses_within (height : Nat) (committedSet activeSet : List Nat) :
    Within (.supply :: txParts) state
      (runPasses env block height committedSet activeSet state).1 := by
  obtain ⟨rewarded, within, isRewarded⟩ :=
    @runPasses_eq env state block height committedSet activeSet
  rw [isRewarded]
  exact (within.mono (List.subset_cons_self _ _)).trans
    ((updateGlobalState_within height).mono (by decide))

theorem closeBlock_within (dryRun : Bool) :
    Within [.accounts, .collections, .registry, .counters] state
      (closeBlock env block height dryRun state) := by
  have counted : Within [.accounts, .collections, .registry, .counters] state
      (if dryRun then state else bumpLifetimeCounters state block) := by
    split
    · exact .refl _ _
    · exact (bumpLifetimeCounters_within block).mono (by decide)
  unfold closeBlock
  generalize (if dryRun then state else bumpLifetimeCounters state block) = middle at counted
  dsimp only
  split
  · refine counted.trans (Within.trans ((processEpochBoundary_within height).mono (by decide)) ?_)
    exact (processRotation_within env.sorter height _).mono (by decide)
  · exact counted

/-- Every block issues one reward. -/
theorem Extends.totalSupply (accepted : Extends env chainId height before block after) :
    after.getGlobalU64 .totalSupply =
      u64 (before.getGlobalU64 .totalSupply + GlobalConfig.BLOCK_REWARD) := by
  obtain ⟨nowMs, result, applied⟩ := accepted
  obtain ⟨run, checks, isOutcome⟩ := applyBlock_ok_iff.mp applied
  obtain ⟨rewarded, within, isRewarded⟩ := @runPasses_eq env run.state block height
    before.loadActiveSet (blockSet env (opened before height) block height)
  have isAfter : after = closeBlock env block height false (updateGlobalState rewarded height) := by
    rw [← isRewarded]
    exact congrArg Prod.fst isOutcome
  have kept : rewarded.getGlobalU64 .totalSupply = before.getGlobalU64 .totalSupply :=
    congrArg (Option.getD · 0) (((TxSteps.within (applyFrom_steps checks.transactions)).trans
      within).same .supply (by decide))
  have closed := (@closeBlock_within env height (updateGlobalState rewarded height) block false).same
    .supply (by decide)
  rw [← isAfter] at closed
  have issued : (updateGlobalState rewarded height).getGlobal .totalSupply =
      some (u64 (rewarded.getGlobalU64 .totalSupply + GlobalConfig.BLOCK_REWARD)) := by
    unfold updateGlobalState
    rw [getGlobal_putGlobal, if_neg (by decide), getGlobal_putGlobal, if_pos rfl]
  rw [getGlobalU64, closed, issued, Option.getD_some, kept]

/-- What the closing and the routing of one order keep, the two passes over orders keep. -/
theorem orderPasses_keep {Invariant : StateAccess → Prop} {kind : Pass}
    (isPass : (kind, change) ∈ passes env block height committedSet activeSet)
    (isOrders : kind = .orderExpiries ∨ kind = .orderConditions)
    (clear : ∀ state, Invariant state → Invariant (state.clearOrderExpiry height))
    (close : ∀ state orderId order refund, state.getOrder orderId = some order → Invariant state →
      Invariant ((if refund > 0 then state.addBalance order.owner order.sellToken refund
        else state).deleteRestingOrder order))
    (route : ∀ state orderId order after fill, state.getOrder orderId = some order →
      executeActiveOrder state order height = .filled after fill → Invariant state → Invariant after)
    (holds : Invariant state) : Invariant (change state) := by
  have expires (orderId : Nat) (state : StateAccess) (holds : Invariant state) :
      Invariant (expireOrder state orderId) := by
    unfold expireOrder
    split
    · exact holds
    next found => exact close state orderId _ _ found holds
  have cancels (orderId : Nat) (state : StateAccess) (holds : Invariant state) :
      Invariant (cancelOrderByCondition state orderId) := by
    unfold cancelOrderByCondition
    split
    · exact holds
    next found => exact close state orderId _ _ found holds
  have routes (orderId : Nat) (routed : StateAccess × List Fill) (holds : Invariant routed.1) :
      Invariant (routeOrder height routed orderId).1 := by
    unfold routeOrder
    split
    · exact holds
    next found =>
      split
      next filled => exact route _ orderId _ _ _ found filled holds
      · exact holds
      · exact cancels orderId _ holds
  rcases isOrders with expiries | conditions
  · rw [(passes_orders isPass).1 expiries]
    unfold processOrderExpiries
    dsimp only
    split
    · exact holds
    · exact clear _ (foldl_keeps _ (fun orderId _ => expires orderId) holds)
  · rw [(passes_orders isPass).2 conditions]
    dsimp only
    split
    · exact @foldl_keeps _ _ (fun routed : StateAccess × List Fill => Invariant routed.1) _ _
        (fun orderId _ => routes orderId) (_, [])
        (foldl_keeps _ (fun orderId _ => cancels orderId) holds)
    · exact holds

/-- What a pass after the switch of the active set does to the seats of validators. -/
inductive SeatPass (sorter : Sorter) (height : Nat) (state after : StateAccess) : Prop
  | quiet (orderly : Orderly ⟨false, true⟩ state after)
  | offlineCheck (checked : after = runOfflineCheck sorter state height)
  | unbondExpiries (expired : after = processUnbondExpiries state height)
  | rotation (txCount : Nat) (rotated : after = processRotation sorter state height txCount)

theorem passes_seats {entry : Pass × (StateAccess → StateAccess)}
    (isPass : entry ∈ (passes env block height committedSet activeSet).tail) (state : StateAccess) :
    SeatPass env.sorter height state (entry.2 state) := by
  simp only [passes, List.tail_cons, List.mem_cons, List.not_mem_nil, or_false] at isPass
  rcases isPass with rfl | rfl | rfl | rfl | rfl | rfl | rfl | rfl | rfl | rfl | rfl
  · exact .quiet (markParticipants_orderly block.participants height)
  · dsimp only
    split
    · exact .offlineCheck rfl
    · exact .quiet (.refl state)
  · exact .quiet (.of_within (processOrderExpiries_within height) (by decide))
  · exact .unbondExpiries rfl
  · exact .quiet (.of_within (within_choice (evaluateOrderConditions_within height)) (by decide))
  · exact .quiet (distributeRewards_orderly block.header)
  · exact .quiet (countProduced_orderly block.header)
  · exact .quiet (.of_within (updateGlobalState_within height) (by decide))
  · exact .quiet (.of_within (bumpLifetimeCounters_within block) (by decide))
  · exact .quiet (.of_within (within_choice (processEpochBoundary_within height)) (by decide))
  · dsimp only
    split
    · exact .rotation _ rfl
    · exact .quiet (.refl state)

theorem SeatPass.orderly {sorter : Sorter} (pass : SeatPass sorter height state after)
    (own : OwnIds state.registry) : Orderly ⟨false, false⟩ state after := by
  cases pass with
  | quiet orderly => exact orderly.plain
  | offlineCheck checked => exact checked ▸ runOfflineCheck_orderly own sorter height
  | unbondExpiries expired => exact expired ▸ processUnbondExpiries_orderly height
  | rotation txCount rotated => exact rotated ▸ processRotation_orderly own sorter height txCount

theorem passes_orderly {kind : Pass}
    (isPass : (kind, change) ∈ passes env block height committedSet activeSet)
    (own : OwnIds state.registry) : Orderly ⟨false, false⟩ state (change state) := by
  rcases List.mem_cons.mp isPass with isFirst | isLater
  · cases isFirst
    exact .ite (switchActiveSet_orderly committedSet activeSet height) (.refl state)
  · exact (@passes_seats _ _ _ committedSet activeSet _ isLater state).orderly own

theorem genesis_ownIds (config : GenesisConfig) : OwnIds (applyGenesis config).registry := by
  refine @applyGenesis_induction (fun state => OwnIds state.registry) config ?_ ?_ ?_ ?_ ?_ ?_
  · exact fun _ _ found => by cases found
  · exact fun _ _ _ own => own
  · exact fun _ own => own
  · intro state entry own
    rw [registry_putAccount]
    exact own
  · exact fun state entry own => own.put rfl rfl
  · exact fun _ _ own => own

/-- Before the first block there is no custom token, no pool, no order and no NFT. -/
structure Unused (state : StateAccess) : Prop where
  rows : state.tree.tokenBalances = .empty
  pools : state.tree.ammPools = .empty
  orders : state.tree.orders = .empty
  levels : state.index.orderBook = .empty
  supplies : state.tree.tokenSupplies = .empty
  nfts : state.tree.nfts = .empty
  tokens : ∀ token info, state.tree.tokens.find? token = some info →
    token = NATIVE_TOKEN_ID ∧ info.id = NATIVE_TOKEN_ID

theorem Unused.of_tables {other : StateAccess} (unused : Unused state)
    (rows : other.tree.tokenBalances = state.tree.tokenBalances)
    (pools : other.tree.ammPools = state.tree.ammPools) (book : other.book = state.book)
    (coins : other.coinage = state.coinage) (nfts : other.tree.nfts = state.tree.nfts) :
    Unused other := by
  have tokens : other.tree.tokens = state.tree.tokens := congrArg Coinage.tokens coins
  refine ⟨rows.trans unused.rows, pools.trans unused.pools,
    (congrArg Book.orders book).trans unused.orders, (congrArg Book.rows book).trans unused.levels,
    (congrArg Coinage.supplies coins).trans unused.supplies, nfts.trans unused.nfts, ?_⟩
  rw [tokens]
  exact unused.tokens

theorem genesis_unused (config : GenesisConfig) : Unused (applyGenesis config) := by
  refine @applyGenesis_induction Unused config ?_ ?_ ?_ ?_ ?_ ?_
  · refine ⟨rfl, rfl, rfl, rfl, rfl, rfl, ?_⟩
    intro token info found
    cases found
  · exact fun _ _ _ kept => ⟨kept.rows, kept.pools, kept.orders, kept.levels, kept.supplies,
      kept.nfts, kept.tokens⟩
  · intro state kept
    exact ⟨kept.rows, kept.pools, kept.orders, kept.levels, kept.supplies, kept.nfts,
      Table.forall_put kept.tokens ⟨rfl, rfl⟩⟩
  · intro state entry kept
    have within := putAccount_within state entry.address (genesisAccount entry)
    exact kept.of_tables (within.same .balances (by decide)) (within.same .pools (by decide))
      (within.same .book (by decide)) (within.same .tokens (by decide))
      (within.same .nfts (by decide))
  · exact fun _ _ kept => kept.of_tables rfl rfl rfl rfl rfl
  · exact fun _ _ kept => kept.of_tables rfl rfl rfl rfl rfl

/-- The rule for properties of the registry, of which every record stays under its own id. -/
theorem Grows.keeps_registry {env : ChainEnv} {chainId height : Nat} {allowed : Event → Prop}
    {Property : Nat → Registry → Prop} {start state : StateAccess} {blocks : List Block}
    (grows : Grows env chainId height start blocks state)
    (met : ∀ event ∈ eventsOf env chainId height start blocks, allowed event)
    (own : OwnIds start.registry)
    (later : ∀ current registry, Property current registry → Property (current + 1) registry)
    (registers : ∀ current before after tx account, height < current →
      allowed (.tx current before tx after) → tx.txType = .registerValidator →
      isNull tx.sender = false → OwnIds before.registry → Property current before.registry →
      Property current (registeredRegistry before.registry tx account current))
    (rotates : ∀ current before after tx id validator, height < current →
      allowed (.tx current before tx after) →
      tx.txType = .rotateConsensusKey → before.getValidatorByAddress tx.sender = some id →
      before.getValidator id = some validator → isNull (read32At tx.payload 0) = false →
      OwnIds before.registry → Property current before.registry →
      Property current (rotatedRegistry before.registry id validator (read32At tx.payload 0) current))
    (move : ∀ current before after, OwnIds before → RegistryMove ⟨false, false⟩ before after →
      Property current before → Property current after) (first : Property height start.registry) :
    OwnIds state.registry ∧ Property (height + blocks.length) state.registry := by
  have path : ∀ current before after, OwnIds before →
      ReflTransGen (RegistryMove ⟨false, false⟩) before after →
      Property current before → Property current after := by
    intro current before after ownBefore moves kept
    have both := @path_invariant Registry (RegistryMove ⟨false, false⟩)
      (fun registry => OwnIds registry ∧ Property current registry)
      (fun _ _ next held => ⟨held.1.move next, move _ _ _ held.1 next held.2⟩)
      before after moves ⟨ownBefore, kept⟩
    exact both.2
  have plain {before after : Registry}
      (quiet : ReflTransGen (RegistryMove ⟨true, true⟩) before after) :
      ReflTransGen (RegistryMove ⟨false, false⟩) before after :=
    ReflTransGen.mono (fun _ _ next => next.plain) _ _ quiet
  refine @Grows.keeps env chainId height allowed
    (fun current state _ => OwnIds state.registry ∧ Property current state.registry) start state
    blocks grows met ?_ ?_ ?_ ⟨own, first⟩
  · exact fun current state _ held => ⟨held.1, later current state.registry held.2⟩
  · intro current before after tx receipt past above allowedHere applied held
    have txEffect := applyTransaction_effect applied
    refine ⟨held.1.txEffect txEffect, ?_⟩
    cases txEffect with
    | user _ _ registry _ =>
      cases registry with
      | moves moved => exact path current _ _ held.1 (plain moved) held.2
      | leaves id validator _ found _ left =>
        rw [left]
        exact path current _ _ held.1 (leftRegistry_path found _ current) held.2
      | registers kind account signed _ registered =>
        rw [registered]
        exact registers current before after tx account above allowedHere kind signed held.1
          held.2
      | rotates kind id validator owned found valid rotated =>
        rw [rotated]
        exact rotates current before after tx id validator above allowedHere kind owned found
          valid held.1 held.2
    | system _ _ orderly => exact path current _ _ held.1 (plain orderly) held.2
  · intro current block committedSet activeSet kind change state past above isPass _ held
    have orderly := passes_orderly isPass held.1
    exact ⟨held.1.path orderly, path current _ _ held.1 orderly held.2⟩

theorem Chain.ownIds {config : GenesisConfig} (chain : Chain env config blocks state) :
    OwnIds state.registry := by
  refine (@Grows.keeps_registry env config.chainId 0 (fun _ => True) (fun _ _ => True) _ state blocks
    chain ?_ (genesis_ownIds config) ?_ ?_ ?_ ?_ trivial).1
  all_goals
    intros
    trivial

/-! ## A network to run

The smallest network: two seeds, a signature check and a root that accept everything. It gives
concrete chains to the statements about all of them. -/

/-- The state after a block, or the old one if the block is refused. -/
def applied (env : ChainEnv) (chainId height : Nat) (state : StateAccess) (block : Block) :
    StateAccess :=
  match applyBlock env (opened state height) block (applyContext chainId height 0) with
  | .ok (after, _) => after
  | .error _ => state

def accepts (env : ChainEnv) (chainId height : Nat) (state : StateAccess) (block : Block) : Bool :=
  (applyBlock env (opened state height) block (applyContext chainId height 0)).isOk

theorem extends_of_accepts (ran : accepts env chainId height state block = true) :
    Extends env chainId height state block (applied env chainId height state block) := by
  unfold accepts at ran
  unfold applied
  refine ⟨0, ?_⟩
  cases outcome : applyBlock env (opened state height) block (applyContext chainId height 0) with
  | error error =>
    rw [outcome] at ran
    cases ran
  | ok done => exact ⟨done.2, rfl⟩

def appliedAll (env : ChainEnv) (chainId : Nat) : Nat → StateAccess → List Block → StateAccess
  | _, state, [] => state
  | height, state, block :: rest =>
    appliedAll env chainId (height + 1) (applied env chainId (height + 1) state block) rest

def acceptsAll (env : ChainEnv) (chainId : Nat) : Nat → StateAccess → List Block → Bool
  | _, _, [] => true
  | height, state, block :: rest =>
    accepts env chainId (height + 1) state block &&
      acceptsAll env chainId (height + 1) (applied env chainId (height + 1) state block) rest

theorem Chain.of_acceptsAll {config : GenesisConfig} {more : List Block}
    (chain : Chain env config blocks state)
    (ran : acceptsAll env config.chainId blocks.length state more = true) :
    Chain env config (blocks ++ more) (appliedAll env config.chainId blocks.length state more) := by
  induction more generalizing blocks state with
  | nil => simpa [appliedAll] using chain
  | cons block rest ih =>
    unfold acceptsAll at ran
    obtain ⟨first, later⟩ := Bool.and_eq_true_iff.mp ran
    have next : Chain env config (blocks ++ [block])
        (applied env config.chainId (blocks.length + 1) state block) := by
      refine .extend chain ?_
      rw [Nat.zero_add]
      exact extends_of_accepts first
    have grown := ih next (by simpa using later)
    simpa [appliedAll] using grown

end Chains

/-- The state an event starts from. -/
def Event.before : Event → StateAccess
  | .tx _ before _ _ => before
  | .pass _ _ before _ => before

/-- What everything but the handlers and the two passes over orders writes. -/
abbrev quietParts : List Part :=
  [.version, .nonces, .accounts, .collections, .registry, .counters, .supply]

/-- The rule for what only the handlers and the passes over orders can touch. -/
theorem Chain.keeps {env : ChainEnv} {config : GenesisConfig} {blocks : List Block}
    {state : StateAccess} {allowed : Event → Prop} {Invariant : StateAccess → Prop}
    (chain : Chain env config blocks state)
    (met : ∀ event ∈ chainEvents env config blocks, allowed event)
    (quiet : ∀ before after, Within quietParts before after → Invariant before → Invariant after)
    (handler : ∀ current before tx after charged done, allowed (.tx current before tx after) →
      tx.txType.isSystemTx = false → chargeFee before tx = some charged →
      dispatch env.crypto charged tx { currentHeight := current, chainId := config.chainId } =
        some done → Invariant charged → Invariant done.1)
    (orders : ∀ current block committedSet activeSet kind change state,
      (kind, change) ∈ passes env block current committedSet activeSet →
      kind = .orderExpiries ∨ kind = .orderConditions →
      allowed (.pass current kind state (change state)) → Invariant state →
      Invariant (change state))
    (genesis : Invariant (applyGenesis config)) :
    Invariant state ∧ ∀ event ∈ chainEvents env config blocks, Invariant event.before := by
  have grow {past : List Event} {event : Event} (held : ∀ event ∈ past, Invariant event.before)
      (last : Invariant event.before) : ∀ other ∈ past ++ [event], Invariant other.before := by
    intro other member
    rcases List.mem_append.mp member with earlier | isLast
    · exact held other earlier
    · exact List.mem_singleton.mp isLast ▸ last
  refine @Grows.keeps env config.chainId 0 allowed
    (fun _ state past => Invariant state ∧ ∀ event ∈ past, Invariant event.before) _ state blocks
    chain met ?_ ?_ ?_ ⟨genesis, by simp⟩
  · exact fun current state past held =>
      ⟨quiet _ _ ((opened_within state (current + 1)).mono (by decide)) held.1, held.2⟩
  · intro current before after tx receipt past _ allowedHere applied held
    refine ⟨?_, grow held.2 held.1⟩
    cases system : tx.txType.isSystemTx with
    | true =>
      exact quiet _ _ ((applyTransaction_system system applied).1.mono (by decide)) held.1
    | false =>
      have ran := applyTransaction_user system applied
      revert ran
      suffices kept : Ensures (fun done => Invariant done.1) (execute env.crypto before tx _) from
        kept (after, receipt)
      simp only [execute, Ensures.do_iff, Ensures.pure_iff]
      intro _ _ _ _ _ _ _ _ _ _ charged ranFee done ran
      refine quiet _ _ (bumpNonce_within.mono (by decide)) ?_
      refine handler current before tx after charged done allowedHere system ranFee ran ?_
      exact quiet _ _ ((chargeFee_within charged ranFee).mono (by decide)) held.1
  · intro current block committedSet activeSet kind change state past _ isPass allowedHere held
    refine ⟨?_, grow held.2 held.1⟩
    by_cases isOrders : kind = .orderExpiries ∨ kind = .orderConditions
    · exact orders current block committedSet activeSet kind change state isPass isOrders
        allowedHere held.1
    · refine quiet _ _ ((passes_within isPass state).mono ?_) held.1
      cases kind <;> simp at isOrders <;> decide

namespace Regtest

def env : ChainEnv where
  crypto := { blake2b := fun _ => 0, verify := fun _ _ _ => true }
  root := fun _ => 1
  sorter := stableSort

def config : GenesisConfig :=
  { chainId := 1
    accounts :=
      [{ address := 10, balanceAtomic := 5000000 }, { address := 11, balanceAtomic := 5000000 },
        { address := 20, balanceAtomic := 9000000 }]
    validators :=
      [{ id := 1, rewardAddress := 10, isSeed := true, consensusKey := 101
         hasAddress := by decide },
        { id := 2, rewardAddress := 11, isSeed := true, consensusKey := 102
          hasAddress := by decide }]
    initialTotalSupply := 19000000
    initialActiveSetSize := 2 }

def block (height : Nat) (transactions : List Transaction) : Block :=
  { header :=
      { chainId := 1
        height := height
        parentHash := 1
        proposer := 10
        stateRoot := 1
        activeValidatorCount := 2 }
    transactions := transactions
    quorumSignatures :=
      [{ signerIndex := 0, signature := 0 }, { signerIndex := 1, signature := 0 }] }

def blocks (transactions : List (List Transaction)) : List Block :=
  transactions.zipIdx.map fun entry => block (entry.2 + 1) entry.1

def stateAfter (transactions : List (List Transaction)) : StateAccess :=
  appliedAll env 1 0 (applyGenesis config) (blocks transactions)

theorem chain_of_accepts {transactions : List (List Transaction)}
    (ran : acceptsAll env 1 0 (applyGenesis config) (blocks transactions) = true) :
    Chain env config (blocks transactions) (stateAfter transactions) :=
  Chain.of_acceptsAll .start ran

end Regtest

end Clarity.Core
