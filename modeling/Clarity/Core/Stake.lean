import Clarity.Core.Chain
import Mathlib.Algebra.Order.BigOperators.Group.List
import Mathlib.Algebra.Order.Group.Nat

/-!
Contract: the stake of a validator, from its registration to the end of its unbonding.

Owns:
- what a slash does to a record and to the pot, the count of the penalties for one offence,
  and the exact condition for "an offence is punished once";
- what a registration debits, what an unbonding pays out, and the exact condition for "no more
  is paid out than was put in".
-/

namespace Clarity.Core

open Common Crypto Library State State.StateAccess
open Clarity.Core.TransactionExecutor Clarity.Core.BlockProcessor Relation

variable {state after before : StateAccess} {tx : Transaction} {id index : Nat}
  {crypto : Primitives} {v : ValidatorInfo} {ctx : BlockContext} {receipt : Receipt}

/-! ## Slashes -/

/-- What a validator is slashed for: it voted twice at one height in one round. -/
structure Offence where
  signer : Nat
  height : Nat
  round : Nat
deriving DecidableEq, Repr

/-- The offence a payload is a proof of. -/
def offenceOf (payload : Bytes) : Option Offence :=
  (decodeSlashVotes payload).map fun votes =>
    { signer := votes.1.signerId, height := votes.1.height, round := votes.1.round }

/-- The validator that is slashed under an id; seeds are exempt. -/
def slashable (state : StateAccess) (id : Nat) : Option ValidatorInfo :=
  (state.getValidator id).filter fun v => !(SEED_SLASH_EXEMPT && v.isSeed)

theorem executeSystemSlash_of_slashable (isSlashable : slashable state id = some v) (height : Nat) :
    executeSystemSlash state id height =
      let slashed := state.putValidator (slashedRecord v height)
      if applyBps v.stake SLASH_AMOUNT_BPS > 0 then
        slashed.putGlobal .pot (u64 (slashed.getGlobalU64 .pot + applyBps v.stake SLASH_AMOUNT_BPS))
      else slashed := by
  obtain ⟨found, notExempt⟩ := Option.filter_eq_some_iff.mp isSlashable
  unfold executeSystemSlash
  rw [found]
  simp only [Bool.not_eq_true'] at notExempt
  simp [notExempt]

theorem executeSystemSlash_of_exempt (exempt : slashable state id = none) (height : Nat) :
    executeSystemSlash state id height = state := by
  unfold executeSystemSlash
  cases found : state.getValidator id with
  | none => rfl
  | some v =>
    have isExempt : (SEED_SLASH_EXEMPT && v.isSeed) = true := by
      simpa [slashable, found, Option.filter] using exempt
    simp [isExempt]

/-- The record a slash leaves. -/
theorem getValidator_slashed (isSlashable : slashable state id = some v) (own : v.id = id)
    (height : Nat) :
    (executeSystemSlash state id height).getValidator id = some (slashedRecord v height) := by
  have put : (state.putValidator (slashedRecord v height)).getValidator id =
      some (slashedRecord v height) := by
    show (state.tree.validators.put v.id (slashedRecord v height)).find? id = _
    rw [Table.find?_put, if_pos own.symm]
  rw [executeSystemSlash_of_slashable isSlashable]
  dsimp only
  split
  · exact put
  · exact put

/-- An accepted slash is one for the offence its payload proves. -/
theorem applyTransaction_slash (kind : tx.txType = .slash)
    (applied : applyTransaction crypto ctx before index tx = .ok (after, receipt)) :
    ∃ offence, offenceOf tx.payload = some offence ∧
      after = executeSystemSlash before offence.signer ctx.currentHeight := by
  unfold applyTransaction at applied
  rw [if_pos (by rw [kind]; rfl), if_pos kind] at applied
  split at applied
  · cases applied
  next slashed ran =>
    cases applied
    obtain ⟨offender, verified, done⟩ := Option.bind_eq_some_iff.mp ran
    obtain ⟨votes, decoded, checked⟩ := Option.bind_eq_some_iff.mp verified
    refine ⟨{ signer := votes.1.signerId, height := votes.1.height, round := votes.1.round }, ?_, ?_⟩
    · unfold offenceOf
      rw [decoded]
      rfl
    · cases done
      rw [checkEquivocation_eq_some checked]

/-- The number of penalties a record counts. -/
def infractions (state : StateAccess) (id : Nat) : Option Nat :=
  (state.getValidator id).map ValidatorInfo.infractionCount

/-- The event is a slash for the offence, and the penalty reached the record of the signer. -/
def penalises (offence : Offence) : Event → Bool
  | .tx _ before tx after =>
    tx.txType == .slash && offenceOf tx.payload == some offence &&
      infractions before offence.signer != infractions after offence.signer
  | .pass .. => false

/-- The event is a slash for the offence, against a validator that is not exempt. -/
def slashesFor (offence : Offence) : Event → Bool
  | .tx _ before tx _ =>
    tx.txType == .slash && offenceOf tx.payload == some offence &&
      (slashable before offence.signer).isSome
  | .pass .. => false

theorem penalises_eq_slashesFor (own : OwnIds before.registry)
    (applied : applyTransaction crypto ctx before index tx = .ok (after, receipt))
    (offence : Offence) (height : Nat) :
    penalises offence (.tx height before tx after) =
      slashesFor offence (.tx height before tx after) := by
  by_cases slashes : tx.txType = .slash ∧ offenceOf tx.payload = some offence
  · obtain ⟨kind, proves⟩ := slashes
    obtain ⟨proved, isProved, isAfter⟩ := applyTransaction_slash kind applied
    rw [proves] at isProved
    cases isProved
    simp only [penalises, slashesFor, kind, proves, beq_self_eq_true, Bool.true_and]
    cases target : slashable before offence.signer with
    | none =>
      rw [isAfter, executeSystemSlash_of_exempt target]
      simp
    | some v =>
      obtain ⟨found, _⟩ := Option.filter_eq_some_iff.mp target
      have written : infractions after offence.signer =
          some (slashedRecord v ctx.currentHeight).infractionCount := by
        unfold infractions
        rw [isAfter, getValidator_slashed target (own _ v found)]
        rfl
      have read : infractions before offence.signer = some v.infractionCount := by
        unfold infractions
        rw [found]
        rfl
      rw [written, read]
      have counted : u16 (v.infractionCount + 1) ≠ v.infractionCount := by
        unfold u16
        omega
      simpa [slashedRecord, ValidatorInfo.applyInfractionPenalty] using counted.symm
  · have different : (tx.txType == .slash && offenceOf tx.payload == some offence) = false := by
      simpa using slashes
    simp only [penalises, slashesFor, different, Bool.false_and]

/-- The penalties for an offence along a chain are the accepted slashes for it that meet a
validator that is not exempt: it is punished once exactly if there is at most one of them. -/
theorem punished_once_iff {env : ChainEnv} {config : GenesisConfig} {blocks : List Block}
    {state : StateAccess} (chain : Chain env config blocks state) (offence : Offence) :
    (chainEvents env config blocks).countP (penalises offence) ≤ 1 ↔
      (chainEvents env config blocks).countP (slashesFor offence) ≤ 1 := by
  have same : ∀ event ∈ chainEvents env config blocks,
      penalises offence event = slashesFor offence event := by
    refine (@Grows.keeps env config.chainId 0 (fun _ => True)
      (fun _ state past => OwnIds state.registry ∧
        ∀ event ∈ past, penalises offence event = slashesFor offence event)
      _ state blocks chain (fun _ _ => trivial) ?_ ?_ ?_ ?_).2
    · exact fun _ _ _ held => held
    · intro current before after tx receipt past _ _ applied held
      refine ⟨held.1.txEffect (applyTransaction_effect applied), ?_⟩
      intro event member
      rcases List.mem_append.mp member with earlier | isLast
      · exact held.2 event earlier
      · rw [List.mem_singleton.mp isLast]
        exact penalises_eq_slashesFor held.1 applied offence current
    · intro current block committedSet activeSet kind change state past _ isPass _ held
      refine ⟨held.1.path (passes_orderly isPass held.1), ?_⟩
      intro event member
      rcases List.mem_append.mp member with earlier | isLast
      · exact held.2 event earlier
      · rw [List.mem_singleton.mp isLast]
        rfl
    · exact ⟨genesis_ownIds config, by simp⟩
  rw [List.countP_congr fun event member => by rw [same event member]]

/-! ## Money in and money out -/

/-- What was added to a 64-bit word. -/
def gained (before after : Nat) : Nat := (((after : Int) - before) % 2 ^ 64).toNat

theorem gained_self (word : Nat) : gained word word = 0 := by
  simp [gained]

theorem gained_u64_add (word amount : Nat) : gained word (u64 (word + amount)) = u64 amount := by
  unfold gained u64
  omega

def debited (id : Nat) : Event → Int
  | .tx _ before tx after =>
    if tx.txType = .registerValidator ∧ (before.getGlobal .nextValidatorId).getD 1 = id then
      ((before.getAccount tx.sender).balance : Int) - (after.getAccount tx.sender).balance - tx.fee
    else 0
  | .pass .. => 0

def slashedToPot (id : Nat) : Event → Nat
  | .tx _ before tx after =>
    if tx.txType = .slash ∧ (offenceOf tx.payload).map Offence.signer = some id then
      gained (before.getGlobalU64 .pot) (after.getGlobalU64 .pot)
    else 0
  | .pass .. => 0

/-- What the owner of a validator is credited while validators are unbonded one after the other, as
the balance of its account shows. -/
def creditedBy (id : Nat) : StateAccess → List Nat → Nat
  | _, [] => 0
  | state, first :: rest =>
    (if first = id then
      match state.getValidator id with
      | none => 0
      | some v =>
        gained (state.getAccount v.owner).balance ((unbond state id).getAccount v.owner).balance
    else 0) + creditedBy id (unbond state first) rest

/-- The validators a pass unbonds. -/
def expiredIds (state : StateAccess) (height : Nat) : List Nat :=
  (state.validators.filter fun v => v.isUnbondExpired height).map ValidatorInfo.id

/-- What is paid out to the owner of a validator at the end of its unbonding. -/
def paidOut (id : Nat) : Event → Nat
  | .tx .. => 0
  | .pass height kind before _ =>
    if kind = .unbondExpiries then creditedBy id before (expiredIds before height) else 0

/-- The stake of a validator whose unbonding has ended. -/
def unbondDue (state : StateAccess) (height id : Nat) : Nat :=
  match state.getValidator id with
  | none => 0
  | some v => if v.isUnbondExpired height then u64 v.stake else 0

/-- No more is paid out for a validator and put into the pot than was debited for it. -/
def StakeCovered (id : Nat) (events : List Event) : Prop :=
  (((events.map (paidOut id)).sum + (events.map (slashedToPot id)).sum : Nat) : Int) ≤
    (events.map (debited id)).sum

/-- The event neither slashes the validator by a positive amount nor ends its unbonding with a
stake left. -/
def leavesStake (id : Nat) : Event → Prop
  | .tx _ before tx _ =>
    tx.txType = .slash → (offenceOf tx.payload).map Offence.signer = some id →
      ∀ v ∈ slashable before id, applyBps v.stake SLASH_AMOUNT_BPS = 0
  | .pass height kind before _ => kind = .unbondExpiries → unbondDue before height id = 0

instance (id : Nat) : DecidablePred (leavesStake id)
  | .tx .. => inferInstanceAs (Decidable (_ → _))
  | .pass .. => inferInstanceAs (Decidable (_ → _))

/-- A registration takes the fee and nothing else. -/
theorem executeRegisterValidator_balance {ctx : TxExecutionContext}
    (ran : executeRegisterValidator state tx ctx = some after) (address : Address) :
    (after.getAccount address).balance = (state.getAccount address).balance := by
  have spec : Ensures (fun after => after.tree.accounts = state.tree.accounts)
      (executeRegisterValidator state tx ctx) := by
    simp only [executeRegisterValidator, Ensures.do_iff, Ensures.guard_eq_some_iff,
      Ensures.pure_iff]
    intro _ _ _ _ _ _
    rfl
  unfold getAccount
  rw [spec after ran]

theorem registered_balance {ctx : TxExecutionContext} {done : StateAccess × Receipt}
    (kind : tx.txType = .registerValidator) (ran : execute crypto state tx ctx = some done) :
    (done.1.getAccount tx.sender).balance + tx.fee = (state.getAccount tx.sender).balance := by
  have spec : Ensures (fun done : StateAccess × Receipt =>
      (done.1.getAccount tx.sender).balance + tx.fee = (state.getAccount tx.sender).balance)
      (execute crypto state tx ctx) := by
    simp only [execute, Ensures.do_iff, Ensures.guard_eq_some_iff, Ensures.pure_iff]
    intro _ _ _ _ _ _ _ _ _ _ charged ranFee handled ranHandler
    unfold dispatch at ranHandler
    rw [kind] at ranHandler
    obtain ⟨after, ranRegister, isHandled⟩ := Option.map_eq_some_iff.mp ranHandler
    cases isHandled
    have kept := executeRegisterValidator_balance ranRegister tx.sender
    have bumped : ((bumpNonce after tx).getAccount tx.sender).balance =
        (after.getAccount tx.sender).balance :=
      (balance_putAccount after tx.sender tx.sender _).trans (if_pos rfl)
    simp only [chargeFee, Option.ite_none_left_eq_some, Option.some.injEq] at ranFee
    obtain ⟨enough, isCharged⟩ := ranFee
    have paid : (charged.getAccount tx.sender).balance =
        (state.getAccount tx.sender).balance - tx.fee := by
      rw [← isCharged]
      exact (balance_putAccount state tx.sender tx.sender _).trans (if_pos rfl)
    rw [bumped, kept, paid]
    omega
  exact spec done ran

theorem debited_eq_zero
    (applied : applyTransaction crypto ctx before index tx = .ok (after, receipt))
    (id height : Nat) : debited id (.tx height before tx after) = 0 := by
  unfold debited
  dsimp only
  split
  next registers =>
    have user : tx.txType.isSystemTx = false := by rw [registers.1]; rfl
    have balance := registered_balance registers.1 (applyTransaction_user user applied)
    dsimp only at balance
    omega
  next => rfl

/-- What a slash puts into the pot is the penalty on the stake. -/
theorem slashedToPot_eq_zero_iff
    (applied : applyTransaction crypto ctx before index tx = .ok (after, receipt))
    (id height : Nat) :
    slashedToPot id (.tx height before tx after) = 0 ↔
      leavesStake id (.tx height before tx after) := by
  unfold slashedToPot leavesStake
  dsimp only
  by_cases slashes : tx.txType = .slash ∧ (offenceOf tx.payload).map Offence.signer = some id
  · rw [if_pos slashes]
    obtain ⟨offence, proves, isAfter⟩ := applyTransaction_slash slashes.1 applied
    have isId : offence.signer = id := by
      have signer := slashes.2
      rw [proves] at signer
      exact Option.some.inj signer
    rw [isAfter, isId]
    simp only [slashes, true_implies]
    cases target : slashable before id with
    | none =>
      rw [executeSystemSlash_of_exempt target, gained_self]
      simp
    | some v =>
      have small : applyBps v.stake SLASH_AMOUNT_BPS < 2 ^ 64 := Nat.mod_lt _ (by decide)
      rw [executeSystemSlash_of_slashable target]
      dsimp only
      split
      next positive =>
        have pot : ((before.putValidator (slashedRecord v ctx.currentHeight)).putGlobal .pot
            (u64 ((before.putValidator (slashedRecord v ctx.currentHeight)).getGlobalU64 .pot +
              applyBps v.stake SLASH_AMOUNT_BPS))).getGlobalU64 .pot =
            u64 (before.getGlobalU64 .pot + applyBps v.stake SLASH_AMOUNT_BPS) := by
          have kept : (before.putValidator (slashedRecord v ctx.currentHeight)).getGlobalU64 .pot =
              before.getGlobalU64 .pot := rfl
          rw [kept]
          unfold getGlobalU64
          rw [getGlobal_putGlobal, if_pos rfl]
          simp [u64]
        rw [pot, gained_u64_add, u64, Nat.mod_eq_of_lt small]
        simp
      next zero =>
        have none : gained (before.getGlobalU64 .pot)
            ((before.putValidator (slashedRecord v ctx.currentHeight)).getGlobalU64 .pot) = 0 :=
          gained_self _
        rw [none]
        simp only [Option.mem_def, Option.some.injEq, forall_eq', true_iff]
        omega
  · rw [if_neg slashes]
    simp only [true_iff]
    exact fun kind signer => absurd ⟨kind, signer⟩ slashes

/-! ## The payment at the end of an unbonding -/

theorem unbond_getValidator {other : Nat} (own : OwnIds state.registry) (different : other ≠ id) :
    (unbond state id).getValidator other = state.getValidator other := by
  cases found : state.getValidator id with
  | none =>
    unfold unbond
    rw [found]
  | some v =>
    have paid : (payStake state v).registry = state.registry :=
      registry_putAccount state v.owner _
    have removed : (unbond state id).getValidator other =
        ((payStake state v).registry.validators.erase v.id).find? other := by
      unfold unbond
      rw [found]
      rfl
    rw [removed, paid, Table.find?_erase, if_neg (by rw [own id v found]; exact different)]
    rfl

/-- An unbonding adds the stake to the balance of the owner. -/
theorem unbond_balance (found : state.getValidator id = some v) :
    ((unbond state id).getAccount v.owner).balance =
      u64 ((state.getAccount v.owner).balance + v.stake) := by
  have paid : (unbond state id).getAccount v.owner = (payStake state v).getAccount v.owner := by
    unfold unbond
    rw [found]
    rfl
  rw [paid]
  exact (balance_putAccount state v.owner v.owner _).trans (if_pos rfl)

theorem creditedBy_absent (ids : List Nat) (absent : id ∉ ids) : creditedBy id state ids = 0 := by
  induction ids generalizing state with
  | nil => rfl
  | cons first rest ih =>
    rw [List.mem_cons, not_or] at absent
    rw [creditedBy, if_neg (Ne.symm absent.1), ih absent.2]

/-- The step of the validator itself is the one that credits its owner for it. -/
theorem creditedBy_eq (own : OwnIds state.registry) (ids : List Nat) (distinct : ids.Nodup)
    (member : id ∈ ids) (found : state.getValidator id = some v) :
    creditedBy id state ids = u64 v.stake := by
  induction ids generalizing state with
  | nil => cases member
  | cons first rest ih =>
    rw [List.nodup_cons] at distinct
    unfold creditedBy
    by_cases isFirst : first = id
    · subst isFirst
      rw [if_pos rfl, found, creditedBy_absent rest distinct.1]
      dsimp only
      rw [unbond_balance found, gained_u64_add, Nat.add_zero]
    · have later := (List.mem_cons.mp member).resolve_left (Ne.symm isFirst)
      have kept := unbond_getValidator own (Ne.symm isFirst)
      rw [if_neg isFirst, Nat.zero_add]
      exact ih (own.path (unbond_orderly state first)) distinct.2 later (kept.trans found)

/-- The pass credits the owner of a validator with the stake that is due. -/
theorem processUnbondExpiries_credits (own : OwnIds state.registry) (height id : Nat) :
    creditedBy id state (expiredIds state height) = unbondDue state height id := by
  have expired : id ∈ expiredIds state height ↔
      ∃ v, state.getValidator id = some v ∧ v.isUnbondExpired height = true := by
    unfold expiredIds
    rw [List.mem_map]
    constructor
    · rintro ⟨v, member, rfl⟩
      obtain ⟨stored, isExpired⟩ := List.mem_filter.mp member
      exact ⟨v, (mem_validators_iff own).mp stored, isExpired⟩
    · rintro ⟨v, found, isExpired⟩
      have isId := own id v found
      subst isId
      exact ⟨v, List.mem_filter.mpr ⟨(mem_validators_iff own).mpr found, isExpired⟩, rfl⟩
  have distinct : (expiredIds state height).Nodup :=
    (validators_ids own).sublist ((List.filter_sublist).map _)
  unfold unbondDue
  by_cases due : id ∈ expiredIds state height
  · obtain ⟨v, found, isExpired⟩ := expired.mp due
    rw [creditedBy_eq own _ distinct due found, found]
    exact (if_pos isExpired).symm
  · rw [creditedBy_absent _ due]
    cases found : state.getValidator id with
    | none => rfl
    | some v => exact (if_neg fun isExpired => due (expired.mpr ⟨v, found, isExpired⟩)).symm

/-! ## The condition -/

/-- No event of a chain debits a stake, and what it pays or puts into the pot is nothing exactly if
it leaves the stake. -/
theorem chain_stake_events {env : ChainEnv} {config : GenesisConfig} {blocks : List Block}
    (chain : Chain env config blocks state) (id : Nat) :
    ∀ event ∈ chainEvents env config blocks,
      debited id event = 0 ∧ (paidOut id event + slashedToPot id event = 0 ↔ leavesStake id event) := by
  refine (@Grows.keeps env config.chainId 0 (fun _ => True)
    (fun _ state past => OwnIds state.registry ∧ ∀ event ∈ past, debited id event = 0 ∧
      (paidOut id event + slashedToPot id event = 0 ↔ leavesStake id event))
    _ state blocks chain (fun _ _ => trivial) ?_ ?_ ?_ ?_).2
  · exact fun _ _ _ held => held
  · intro current before after tx receipt past _ _ applied held
    refine ⟨held.1.txEffect (applyTransaction_effect applied), fun event member => ?_⟩
    rcases List.mem_append.mp member with earlier | isLast
    · exact held.2 event earlier
    · rw [List.mem_singleton.mp isLast]
      refine ⟨debited_eq_zero applied id current, ?_⟩
      have pot := slashedToPot_eq_zero_iff applied id current
      rw [← pot]
      simp [paidOut]
  · intro current block committedSet activeSet kind change state past _ isPass _ held
    refine ⟨held.1.path (passes_orderly isPass held.1), fun event member => ?_⟩
    rcases List.mem_append.mp member with earlier | isLast
    · exact held.2 event earlier
    · rw [List.mem_singleton.mp isLast]
      refine ⟨rfl, ?_⟩
      unfold paidOut slashedToPot leavesStake
      dsimp only
      rw [processUnbondExpiries_credits held.1]
      by_cases unbonds : kind = .unbondExpiries
      · simp [unbonds]
      · simp [unbonds]
  · exact ⟨genesis_ownIds config, by simp⟩

namespace Regtest

/-- The third account registers as a validator; it is given the id 3. -/
def register : Transaction :=
  { chainId := 1
    txType := .registerValidator
    nonce := 0
    sender := 20
    fee := 1
    payload := bytes32 301 }

def doubleVote (blockHash : Hash) : Consensus.Vote :=
  { height := 1, round := 0, signerId := 3, signerIndex := 0, blockHash := blockHash
    isNil := false, signature := 0 }

def slash : Transaction :=
  { chainId := 1
    txType := .slash
    payload := proofOf (doubleVote 7) (doubleVote 8) }

theorem slashed_once : (chainEvents env config (blocks [[register], [slash]])).countP
      (penalises { signer := 3, height := 1, round := 0 }) ≤ 1 := by
  have chain : Chain env config (blocks [[register], [slash]]) (stateAfter [[register], [slash]]) :=
    chain_of_accepts (by decide +kernel)
  exact (punished_once_iff chain _).mpr (by decide +kernel)

/-- The same proof is accepted again, in the same block and in the next one. -/
theorem slashed_three_times : Chain env config (blocks [[register], [slash, slash], [slash]])
        (stateAfter [[register], [slash, slash], [slash]]) ∧
      (chainEvents env config (blocks [[register], [slash, slash], [slash]])).countP
        (penalises { signer := 3, height := 1, round := 0 }) = 3 ∧
      ((stateAfter [[register], [slash]]).getValidator 3).map ValidatorInfo.stake = some 8550000 ∧
      ((stateAfter [[register], [slash, slash], [slash]]).getValidator 3).map
        ValidatorInfo.stake = some 7716375 := by
  refine ⟨chain_of_accepts ?_, ?_, ?_, ?_⟩ <;> decide +kernel

/-- The new validator leaves again. -/
def unregister : Transaction :=
  { chainId := 1
    txType := .unregisterValidator
    nonce := 1
    sender := 20
    fee := 1 }

def lifecycle : List (List Transaction) := [[register], [unregister]] ++ List.replicate 120 []

end Regtest

end Clarity.Core
