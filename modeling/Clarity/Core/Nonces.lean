import Clarity.Core.Chain

/-!
Contract: replay protection.

Owns: the transactions of a sender in chain order, and the theorem that their nonces count up
from zero: no handler, fill or pass of a block writes a nonce back.
-/

namespace Clarity.Core

open Common Crypto Library State State.StateAccess
open Clarity.Core.TransactionExecutor Clarity.Core.BlockProcessor

variable {tx : Transaction} {after : StateAccess}

/-- The user transactions of an address; those of an accepted block were all executed. -/
def executedBy (address : Address) (txs : List Transaction) : List Transaction :=
  txs.filter fun tx => !tx.txType.isSystemTx && tx.sender == address

/-- The nonces of a sender from a count on, as 64-bit words, and the nonce after them. -/
structure CountsFrom (address : Address) (count : Nat) (txs : List Transaction)
    (after : StateAccess) : Prop where
  nonces : (executedBy address txs).map Transaction.nonce =
    (List.range (executedBy address txs).length).map fun index => u64 (count + index)
  next : after.nonce address = u64 (count + (executedBy address txs).length)

variable {address : Address} {count : Nat}

theorem u64_add_one (count : Nat) : u64 (u64 count + 1) = u64 (count + 1) := by
  unfold u64
  omega

theorem executedBy_cons_own (rest : List Transaction) (user : tx.txType.isSystemTx = false)
    (own : tx.sender = address) : executedBy address (tx :: rest) = tx :: executedBy address rest := by
  simp [executedBy, user, own]

theorem executedBy_cons_other (rest : List Transaction)
    (other : tx.txType.isSystemTx = true ∨ tx.sender ≠ address) :
    executedBy address (tx :: rest) = executedBy address rest := by
  rcases other with system | foreign
  · simp [executedBy, system]
  · simp [executedBy, foreign]

/-- Any other transaction leaves the count alone. -/
theorem CountsFrom.cons_other {rest : List Transaction}
    (other : tx.txType.isSystemTx = true ∨ tx.sender ≠ address)
    (later : CountsFrom address count rest after) : CountsFrom address count (tx :: rest) after := by
  constructor
  · rw [executedBy_cons_other rest other]
    exact later.nonces
  · rw [executedBy_cons_other rest other]
    exact later.next

theorem TxEffect.countsFrom {height : Nat} {before : StateAccess}
    (effect : TxEffect height tx before after) (start : before.nonce address = u64 count) :
    CountsFrom address count [tx] after := by
  cases effect with
  | user kind nonces _ _ =>
    by_cases own : tx.sender = address
    · have matched : tx.nonce = u64 count := by
        rw [← nonces.matched, own]
        exact start
      have bumped : after.nonce address = u64 (count + 1) := by
        rw [← own, nonces.bumped, matched, u64_add_one]
      constructor
      · rw [executedBy_cons_own [] kind own, List.map_cons, matched]
        rfl
      · rw [executedBy_cons_own [] kind own]
        exact bumped
    · have kept : after.nonce address = u64 count :=
        (nonces.others address (Ne.symm own)).trans start
      exact CountsFrom.cons_other (.inr own) ⟨rfl, kept⟩
  | system kind within _ =>
    have kept : after.nonce address = u64 count :=
      (congrFun (within.same .nonces (by decide)) address).trans start
    exact CountsFrom.cons_other (.inl kind) ⟨rfl, kept⟩

theorem CountsFrom.append {first second : List Transaction} {middle : StateAccess}
    (left : CountsFrom address count first middle)
    (right : CountsFrom address (count + (executedBy address first).length) second after) :
    CountsFrom address count (first ++ second) after := by
  have split : executedBy address (first ++ second) =
      executedBy address first ++ executedBy address second := List.filter_append ..
  constructor
  · rw [split, List.map_append, left.nonces, right.nonces, List.length_append, List.range_add,
      List.map_append, List.map_map]
    simp only [Function.comp_def, Nat.add_assoc]
  · rw [split, right.next, List.length_append, Nat.add_assoc]

/-- What has been executed so far counts from zero. -/
def CountsSoFar (address : Address) (state : StateAccess) (past : List Event) : Prop :=
  CountsFrom address 0 (past.filterMap Event.transaction?) state

theorem Chain.countsFrom {env : ChainEnv} {config : GenesisConfig} {blocks : List Block}
    {state : StateAccess} (chain : Chain env config blocks state) (address : Address) :
    CountsFrom address 0 (blocks.flatMap Block.transactions) state := by
  rw [← Grows.events_transactions chain]
  refine (@Grows.keeps env config.chainId 0 (fun _ => True)
    (fun _ state past => OwnIds state.registry ∧ CountsSoFar address state past) _ state blocks chain
    (fun _ _ => trivial) ?_ ?_ ?_ ?_).2
  · exact fun _ _ _ held => ⟨held.1, held.2.nonces, held.2.next⟩
  · intro current before after tx receipt past _ _ applied held
    have effect := applyTransaction_effect applied
    refine ⟨held.1.txEffect effect, ?_⟩
    unfold CountsSoFar
    rw [List.filterMap_append]
    exact held.2.append (TxEffect.countsFrom effect held.2.next)
  · intro current block committedSet activeSet kind change state past _ isPass _ held
    refine ⟨held.1.path (passes_orderly isPass held.1), ?_⟩
    unfold CountsSoFar
    rw [List.filterMap_append]
    refine held.2.append ⟨rfl, ?_⟩
    have counted : .nonces ∉ partsOf kind := by cases kind <;> decide
    exact (congrFun ((passes_within isPass state).same .nonces counted) address).trans held.2.next
  · exact ⟨genesis_ownIds config, rfl, genesis_nonce config address⟩

theorem range_map_u64 (few : count ≤ 2 ^ 64) : (List.range count).map u64 = List.range count := by
  refine (List.map_congr_left ?_).trans (List.map_id _)
  intro index member
  exact Nat.mod_eq_of_lt (Nat.lt_of_lt_of_le (List.mem_range.mp member) few)

/-- The nonces of the executed transactions of an address are `0, 1, 2, …` as 64-bit words and
the state holds the next one; until the words are used up they are the numbers themselves, and no
transaction is executed twice. -/
theorem executed_nonces_eq_range {env : ChainEnv} {config : GenesisConfig} {blocks : List Block}
    {state : StateAccess} (chain : Chain env config blocks state) (address : Address) :
    let executed := executedBy address (blocks.flatMap Block.transactions)
    executed.map Transaction.nonce = (List.range executed.length).map u64 ∧
      state.nonce address = u64 executed.length ∧
      (executed.length ≤ 2 ^ 64 →
        executed.map Transaction.nonce = List.range executed.length ∧ executed.Nodup) := by
  intro executed
  have counts := chain.countsFrom address
  have nonces : executed.map Transaction.nonce = (List.range executed.length).map u64 := by
    simpa only [Nat.zero_add] using counts.nonces
  refine ⟨nonces, by simpa only [Nat.zero_add] using counts.next, ?_⟩
  intro few
  have inOrder : executed.map Transaction.nonce = List.range executed.length :=
    nonces.trans (range_map_u64 few)
  refine ⟨inOrder, ?_⟩
  -- distinct nonces make distinct transactions
  apply List.Nodup.of_map Transaction.nonce
  rw [inOrder]
  exact List.nodup_range

namespace Regtest

/-- A transfer between the two funded accounts. -/
def pay (nonce : Nat) : Transaction :=
  { chainId := 1
    txType := .transfer
    nonce := nonce
    sender := 20
    recipient := 11
    amount := 5
    fee := 1 }

theorem paid_nonces : (stateAfter [[pay 0, pay 1], [pay 2]]).nonce 20 = u64 3 := by
  have chain : Chain env config (blocks [[pay 0, pay 1], [pay 2]])
      (stateAfter [[pay 0, pay 1], [pay 2]]) := chain_of_accepts (by decide +kernel)
  exact (executed_nonces_eq_range chain 20).2.1

end Regtest

end Clarity.Core
