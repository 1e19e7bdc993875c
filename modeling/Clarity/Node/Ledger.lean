import Clarity.Core.Chain

/-!
Contract: the chain a node keeps, and the four ways a block gets into it.

Owns: `Ledger`, the state, the head and the stored blocks; `applyCommittedBlock`, which every source
ends in; the callers of it: `onBlockCommitted` for the engine, `handleIncomingBlock` for a relayed
block, `applyBlocks` for a batch of the synchronisation, `applyHeld` for a block with a quorum that
an emergency proposal conflicts with; and `LedgerRun`, what a node goes through, with the blocks it
applied and the head each of them was applied on.

A block whose application throws is a block that is refused. Receipts, the transaction index, the
fee window and the pruning of old versions are not kept: none of them is read on the way.
-/

namespace Clarity

open Common Crypto Clarity.Core Library State
open Clarity.Core.BlockProcessor

structure ChainHead where
  hash : Hash := 0
  height : Nat := 0
deriving DecidableEq, Repr

/-- What a node persists of its chain. -/
structure Ledger where
  state : StateAccess
  head : ChainHead
  /-- The blocks by their hash. -/
  blocks : Table Hash Block
deriving DecidableEq

/-- Who hands a block to `applyCommittedBlock`. -/
inductive Source
  | consensus
  | relay
  | sync
  | held
deriving DecidableEq, Repr

/-- A block for which `applyCommittedBlock` returned true, and the head it found. -/
structure AppliedBlock where
  source : Source
  head : ChainHead
  block : Block
deriving DecidableEq

def makeGenesisBlock (env : ChainEnv) (config : GenesisConfig) (timestampMs : Nat) : Block :=
  { header :=
      { version := 1
        chainId := config.chainId
        height := 0
        timestampMs := timestampMs
        stateRoot := env.root (applyGenesis config).tree
        validatorSetRoot := computeValidatorSetRoot env.crypto
          ((config.validators.filter GenesisValidator.isSeed).map GenesisValidator.id)
        activeValidatorCount := u32 config.validators.length } }

namespace Ledger

def extend (crypto : Primitives) (ledger : Ledger) (block : Block) (state : StateAccess) : Ledger :=
  { state := state
    head := { hash := block.hash crypto, height := block.header.height }
    blocks := ledger.blocks.put (block.hash crypto) block }

def genesis (env : ChainEnv) (config : GenesisConfig) (timestampMs : Nat) : Ledger :=
  let block := makeGenesisBlock env config timestampMs
  { state := applyGenesis config
    head := { hash := block.hash env.crypto, height := 0 }
    blocks := Table.empty.put (block.hash env.crypto) block }

def applyCommittedBlock (env : ChainEnv) (chainId nowMs : Nat) (ledger : Ledger) (block : Block) :
    Except String Ledger :=
  match applyBlock env (opened ledger.state block.header.height) block
    (applyContext chainId block.header.height nowMs) with
  | .error error => .error ("block processor rejected: " ++ error)
  | .ok (final, _) => .ok (ledger.extend env.crypto block final)

def attempt (env : ChainEnv) (chainId nowMs : Nat) (source : Source) (ledger : Ledger)
    (block : Block) : Ledger × List AppliedBlock :=
  match ledger.applyCommittedBlock env chainId nowMs block with
  | .error _ => (ledger, [])
  | .ok after => (after, [{ source := source, head := ledger.head, block := block }])

def onBlockCommitted (env : ChainEnv) (chainId nowMs : Nat) (ledger : Ledger) (block : Block) :
    Ledger × List AppliedBlock :=
  ledger.attempt env chainId nowMs .consensus block

/-- `handleIncomingBlock`, for a message that decodes. -/
def handleIncomingBlock (env : ChainEnv) (chainId nowMs : Nat) (ledger : Ledger) (block : Block) :
    Ledger × List AppliedBlock :=
  if ledger.blocks.contains (block.hash env.crypto) then (ledger, [])
  else if block.header.height ≤ ledger.head.height then (ledger, [])
  else if block.header.height > ledger.head.height + 1 then (ledger, [])
  else ledger.attempt env chainId nowMs .relay block

/-- `apply_blocks`: it stops at the first block that is refused. -/
def applyBlocks (env : ChainEnv) (chainId nowMs : Nat) :
    Ledger → List Block → Ledger × List AppliedBlock
  | ledger, [] => (ledger, [])
  | ledger, block :: rest =>
    match ledger.applyCommittedBlock env chainId nowMs block with
    | .error _ => (ledger, [])
    | .ok after =>
      let later := applyBlocks env chainId nowMs after rest
      (later.1, { source := .sync, head := ledger.head, block := block } :: later.2)

/-- `handleIncomingProposal`, for an emergency proposal of a height and the other block that the
engine holds a quorum for. -/
def applyHeld (env : ChainEnv) (chainId nowMs height : Nat) (ledger : Ledger) (block : Block) :
    Ledger × List AppliedBlock :=
  if height = ledger.head.height + 1 then ledger.attempt env chainId nowMs .held block
  else (ledger, [])

end Ledger

/-- What reaches the chain of a node. -/
inductive Delivery
  | committed (block : Block)
  | relayed (block : Block)
  | synced (blocks : List Block)
  | held (height : Nat) (block : Block)

def Ledger.deliver (env : ChainEnv) (chainId nowMs : Nat) (ledger : Ledger) :
    Delivery → Ledger × List AppliedBlock
  | .committed block => ledger.onBlockCommitted env chainId nowMs block
  | .relayed block => ledger.handleIncomingBlock env chainId nowMs block
  | .synced blocks => ledger.applyBlocks env chainId nowMs blocks
  | .held height block => ledger.applyHeld env chainId nowMs height block

/-- A run of a node from a ledger, with the blocks it applied. -/
inductive LedgerRun (env : ChainEnv) (chainId : Nat) (start : Ledger) :
    List AppliedBlock → Ledger → Prop
  | start : LedgerRun env chainId start [] start
  | deliver {history : List AppliedBlock} {ledger : Ledger}
      (run : LedgerRun env chainId start history ledger) (nowMs : Nat) (delivery : Delivery) :
      LedgerRun env chainId start (history ++ (ledger.deliver env chainId nowMs delivery).2)
        (ledger.deliver env chainId nowMs delivery).1

/-! ## Single blocks -/

/-- One block is applied, and it is the head now. -/
structure Applies (env : ChainEnv) (chainId : Nat) (ledger : Ledger) (applied : AppliedBlock)
    (after : Ledger) : Prop where
  head : applied.head = ledger.head
  extension : ∃ state, Extends env chainId applied.block.header.height ledger.state applied.block
    state ∧ after = ledger.extend env.crypto applied.block state

/-- A sequence of applied blocks. -/
inductive AppliesAll (env : ChainEnv) (chainId : Nat) (start : Ledger) :
    List AppliedBlock → Ledger → Prop
  | start : AppliesAll env chainId start [] start
  | apply {history : List AppliedBlock} {ledger after : Ledger} {applied : AppliedBlock}
      (earlier : AppliesAll env chainId start history ledger)
      (applies : Applies env chainId ledger applied after) :
      AppliesAll env chainId start (history ++ [applied]) after

variable {env : ChainEnv} {chainId nowMs : Nat} {start ledger after : Ledger} {block : Block}

theorem Ledger.applyCommittedBlock_ok
    (applied : ledger.applyCommittedBlock env chainId nowMs block = .ok after) :
    ∃ state, Extends env chainId block.header.height ledger.state block state ∧
      after = ledger.extend env.crypto block state := by
  unfold Ledger.applyCommittedBlock at applied
  split at applied
  · cases applied
  next final result ran =>
    cases applied
    exact ⟨final, ⟨nowMs, result, ran⟩, rfl⟩

theorem AppliesAll.append {history more : List AppliedBlock} {middle : Ledger}
    (earlier : AppliesAll env chainId start history middle)
    (later : AppliesAll env chainId middle more after) :
    AppliesAll env chainId start (history ++ more) after := by
  induction later with
  | start => rwa [List.append_nil]
  | apply _ applies ih =>
    rw [← List.append_assoc]
    exact .apply ih applies

theorem Applies.single {applied : AppliedBlock}
    (applies : Applies env chainId ledger applied after) :
    AppliesAll env chainId ledger [applied] after :=
  .apply .start applies

theorem Ledger.attempt_appliesAll (source : Source) :
    AppliesAll env chainId ledger (ledger.attempt env chainId nowMs source block).2
      (ledger.attempt env chainId nowMs source block).1 := by
  unfold Ledger.attempt
  split
  · exact .start
  next ran => exact Applies.single ⟨rfl, Ledger.applyCommittedBlock_ok ran⟩

theorem Ledger.applyBlocks_appliesAll (blocks : List Block) :
    AppliesAll env chainId ledger (ledger.applyBlocks env chainId nowMs blocks).2
      (ledger.applyBlocks env chainId nowMs blocks).1 := by
  induction blocks generalizing ledger with
  | nil => exact .start
  | cons block rest ih =>
    unfold Ledger.applyBlocks
    split
    · exact .start
    next ran =>
      have applies : Applies env chainId ledger
          { source := .sync, head := ledger.head, block := block } _ :=
        ⟨rfl, Ledger.applyCommittedBlock_ok ran⟩
      exact applies.single.append ih

/-- Whatever is delivered, the ledger changes block by block. -/
theorem Ledger.deliver_appliesAll (delivery : Delivery) :
    AppliesAll env chainId ledger (ledger.deliver env chainId nowMs delivery).2
      (ledger.deliver env chainId nowMs delivery).1 := by
  cases delivery with
  | committed block => exact Ledger.attempt_appliesAll .consensus
  | relayed block =>
    show AppliesAll env chainId ledger (ledger.handleIncomingBlock env chainId nowMs block).2
      (ledger.handleIncomingBlock env chainId nowMs block).1
    unfold Ledger.handleIncomingBlock
    split
    · exact .start
    · split
      · exact .start
      · split
        · exact .start
        · exact Ledger.attempt_appliesAll .relay
  | synced blocks => exact Ledger.applyBlocks_appliesAll blocks
  | held height block =>
    show AppliesAll env chainId ledger (ledger.applyHeld env chainId nowMs height block).2
      (ledger.applyHeld env chainId nowMs height block).1
    unfold Ledger.applyHeld
    split
    · exact Ledger.attempt_appliesAll .held
    · exact .start

theorem LedgerRun.appliesAll {history : List AppliedBlock}
    (run : LedgerRun env chainId start history ledger) :
    AppliesAll env chainId start history ledger := by
  induction run with
  | start => exact .start
  | deliver _ nowMs delivery ih =>
    exact ih.append (Ledger.deliver_appliesAll delivery)

end Clarity
