import Clarity.Node.Ledger
import Clarity.Consensus.Bodies

/-!
Contract: which blocks of a node hang together.

Owns: `AppliedBlock.Linked`, a block that follows the head it was applied on, in height and by its
parent hash; `ChainDown`, the stored blocks from a hash down to genesis; `MainChain`, one chain of
linked and accepted blocks; that a node which is given the blocks of one chain alone, in any order
and from any source, applies them in their order; and blocks that are applied and are not linked.

`checkHeader` asks for a parent hash that is not null, and compares it to nothing. The height is
compared to the head for a relayed block only. What keeps a block of the chain from any other place
is its state root: every block issues a reward, and the supply is part of the state.
-/

namespace Clarity

open Common Crypto Clarity.Core Library State
open Clarity.Core.BlockProcessor

@[mk_iff]
structure AppliedBlock.Linked (applied : AppliedBlock) : Prop where
  height : applied.block.header.height = applied.head.height + 1
  parent : applied.block.header.parentHash = applied.head.hash

instance (applied : AppliedBlock) : Decidable applied.Linked :=
  decidable_of_iff _ (AppliedBlock.linked_iff applied).symm

/-- The stored blocks lead from a hash, height by height, down to a block of height zero. -/
inductive ChainDown (blocks : Table Hash Block) : Hash → Nat → Prop
  | genesis {hash : Hash} {block : Block} (stored : blocks.find? hash = some block)
      (height : block.header.height = 0) : ChainDown blocks hash 0
  | next {hash : Hash} {block : Block} {height : Nat} (stored : blocks.find? hash = some block)
      (isHeight : block.header.height = height + 1)
      (parent : ChainDown blocks block.header.parentHash height) :
      ChainDown blocks hash (height + 1)

/-! ## One chain -/

/-- A chain from genesis: its blocks are accepted one after the other, and each names the one before
it. -/
structure MainChain (env : ChainEnv) (config : GenesisConfig) (timestampMs : Nat) where
  length : Nat
  blockAt : Nat → Block
  stateAt : Nat → StateAccess
  genesis : blockAt 0 = makeGenesisBlock env config timestampMs
  genesisState : stateAt 0 = applyGenesis config
  accepted : ∀ height < length, Extends env config.chainId (height + 1) (stateAt height)
    (blockAt (height + 1)) (stateAt (height + 1))
  parent : ∀ height < length,
    (blockAt (height + 1)).header.parentHash = (blockAt height).hash env.crypto

/-- The block of the chain, committed in some round and with the signatures of some members. -/
def CopyOf (original block : Block) : Prop :=
  ∃ commitRound signatures, block = { original with
    header := { original.header with commitRound := commitRound }
    quorumSignatures := signatures }

variable {env : ChainEnv} {config : GenesisConfig} {timestampMs chainId height : Nat}
  {ledger after : Ledger} {history : List AppliedBlock}

/-- A state is determined by the state before and a copy of the block. -/
theorem Core.Extends.copy_unique {before state other : StateAccess} {original block : Block}
    (copy : CopyOf original block) (first : Extends env chainId height before original state)
    (second : Extends env chainId height before block other) : other = state := by
  obtain ⟨commitRound, signatures, rfl⟩ := copy
  exact second.happens.1.symm.trans first.happens.1

/-- An accepted block names the root of the state it leads to. -/
theorem Core.Extends.stateRoot {before state : StateAccess} {block : Block}
    (accepted : Extends env chainId (height + 1) before block state) :
    block.header.stateRoot = env.root state.tree := by
  obtain ⟨nowMs, result, applied⟩ := accepted
  obtain ⟨run, checks, isOutcome⟩ := applyBlock_ok_iff.mp applied
  obtain ⟨formed, isHeight, _⟩ := checkHeader_ok checks.header
  have present : isNull block.header.stateRoot = false := by
    simp only [BlockHeader.isWellFormed, isHeight, Bool.and_eq_true, Bool.not_eq_true',
      Bool.and_eq_false_iff] at formed
    exact formed.1.2.resolve_left (by simp)
  rw [(checkCommitments_ok_iff.mp checks.commitments).1 present]
  exact congrArg (fun done => env.root done.tree) (congrArg Prod.fst isOutcome).symm

namespace MainChain

variable (main : MainChain env config timestampMs)

/-- The state a block of the chain leads to on top of the state at some height. -/
def stateOn (low high : Nat) : StateAccess :=
  (blockEvents env config.chainId high (main.stateAt low) (main.blockAt high)).2

/-- No two of these states have one root and different supplies. -/
def RootsTell : Prop :=
  ∀ low high, low ≤ main.length → high < main.length →
    env.root (main.stateOn low (high + 1)).tree = env.root (main.stateAt (high + 1)).tree →
      (main.stateOn low (high + 1)).getGlobalU64 .totalSupply =
        (main.stateAt (high + 1)).getGlobalU64 .totalSupply

/-- The blocks of the chain have different hashes, and its supply is below 64 bits. -/
structure Sound : Prop where
  hashes : ∀ low ≤ main.length, ∀ high ≤ main.length,
    (main.blockAt low).hash env.crypto = (main.blockAt high).hash env.crypto → low = high
  supply : (applyGenesis config).getGlobalU64 .totalSupply +
    (main.length + 1) * GlobalConfig.BLOCK_REWARD < 2 ^ 64
  roots : main.RootsTell

theorem header_height (within : height ≤ main.length) :
    (main.blockAt height).header.height = height := by
  cases height with
  | zero =>
    rw [main.genesis]
    rfl
  | succ height =>
    obtain ⟨nowMs, result, applied⟩ := main.accepted height within
    obtain ⟨run, checks, _⟩ := applyBlock_ok_iff.mp applied
    exact (checkHeader_ok checks.header).2.1

theorem totalSupply (sound : main.Sound) (within : height ≤ main.length) :
    (main.stateAt height).getGlobalU64 .totalSupply =
      (applyGenesis config).getGlobalU64 .totalSupply + height * GlobalConfig.BLOCK_REWARD := by
  induction height with
  | zero => rw [main.genesisState, Nat.zero_mul, Nat.add_zero]
  | succ height ih =>
    have fits : (height + 1) * GlobalConfig.BLOCK_REWARD ≤
        (main.length + 1) * GlobalConfig.BLOCK_REWARD := Nat.mul_le_mul_right _ (by omega)
    have small := sound.supply
    rw [(main.accepted height within).totalSupply, ih (by omega), Nat.add_assoc, ← Nat.add_one_mul]
    exact Nat.mod_eq_of_lt (by omega)

/-- A copy of a block of the chain is accepted on the state before it alone. -/
theorem next_of_extends (sound : main.Sound) {low high : Nat} {block : Block} {state : StateAccess}
    (lowWithin : low ≤ main.length) (highWithin : high < main.length)
    (copy : CopyOf (main.blockAt (high + 1)) block)
    (accepted : Extends env config.chainId (high + 1) (main.stateAt low) block state) :
    high = low ∧ state = main.stateAt (high + 1) := by
  have isState : main.stateOn low (high + 1) = state := by
    obtain ⟨commitRound, signatures, rfl⟩ := copy
    exact accepted.happens.1
  have sameRoot : env.root state.tree = env.root (main.stateAt (high + 1)).tree := by
    rw [← accepted.stateRoot, ← (main.accepted high highWithin).stateRoot]
    obtain ⟨commitRound, signatures, rfl⟩ := copy
    rfl
  have supplies := sound.roots low high lowWithin highWithin (isState ▸ sameRoot)
  rw [isState, accepted.totalSupply, main.totalSupply sound lowWithin,
    main.totalSupply sound highWithin, Nat.add_assoc, ← Nat.add_one_mul] at supplies
  -- below 64 bits the supply tells the height
  have same : high = low := by
    have bound : (low + 1) * GlobalConfig.BLOCK_REWARD ≤
        (main.length + 1) * GlobalConfig.BLOCK_REWARD := Nat.mul_le_mul_right _ (by omega)
    have small := sound.supply
    unfold u64 at supplies
    rw [Nat.mod_eq_of_lt (by omega)] at supplies
    have heights := Nat.eq_of_mul_eq_mul_right (by decide) (Nat.add_left_cancel supplies)
    omega
  subst same
  exact ⟨rfl, Extends.copy_unique copy (main.accepted high highWithin) accepted⟩

/-! ## Runs -/

/-- The ledger holds the chain up to a height. -/
structure Holds (ledger : Ledger) (height : Nat) : Prop where
  within : height ≤ main.length
  state : ledger.state = main.stateAt height
  head : ledger.head = { hash := (main.blockAt height).hash env.crypto, height := height }
  stored : ∀ low ≤ height, ∃ block,
    ledger.blocks.find? ((main.blockAt low).hash env.crypto) = some block ∧
      CopyOf (main.blockAt low) block

variable {main}

theorem Holds.genesis (main : MainChain env config timestampMs) :
    main.Holds (Ledger.genesis env config timestampMs) 0 where
  within := Nat.zero_le _
  state := main.genesisState.symm
  head := by rw [main.genesis]; rfl
  stored := by
    intro low isZero
    rw [Nat.le_zero.mp isZero, main.genesis]
    exact ⟨makeGenesisBlock env config timestampMs, (Table.find?_put _ _ _ _).trans (if_pos rfl),
      0, [], rfl⟩

theorem Holds.apply (sound : main.Sound) {applied : AppliedBlock} {high : Nat}
    (holds : main.Holds ledger height) (applies : Applies env config.chainId ledger applied after)
    (highWithin : high < main.length) (copy : CopyOf (main.blockAt (high + 1)) applied.block) :
    applied.Linked ∧ main.Holds after (height + 1) := by
  obtain ⟨state, accepted, rfl⟩ := applies.extension
  have isHeight : applied.block.header.height = high + 1 := by
    obtain ⟨commitRound, signatures, isBlock⟩ := copy
    rw [isBlock]
    exact main.header_height highWithin
  have isHash : applied.block.hash env.crypto = (main.blockAt (high + 1)).hash env.crypto := by
    obtain ⟨commitRound, signatures, isBlock⟩ := copy
    rw [isBlock]
    rfl
  rw [isHeight, holds.state] at accepted
  obtain ⟨rfl, isState⟩ := main.next_of_extends sound holds.within highWithin copy accepted
  refine ⟨⟨?_, ?_⟩, ⟨highWithin, isState, ?_, ?_⟩⟩
  · rw [isHeight, applies.head, holds.head]
  · rw [applies.head, holds.head, ← main.parent high highWithin]
    obtain ⟨commitRound, signatures, isBlock⟩ := copy
    rw [isBlock]
  · show ChainHead.mk (applied.block.hash env.crypto) applied.block.header.height = _
    rw [isHash, isHeight]
  · intro low isLow
    show ∃ block, (ledger.blocks.put (applied.block.hash env.crypto) applied.block).find? _ =
      some block ∧ _
    rw [isHash, Table.find?_put]
    by_cases isNew : low = high + 1
    · subst isNew
      exact ⟨applied.block, if_pos rfl, copy⟩
    · rw [if_neg fun same => isNew (sound.hashes low (by omega) (high + 1) highWithin same)]
      exact holds.stored low (by omega)

/-- The chain that is held leads down to genesis. -/
theorem Holds.chainDown (holds : main.Holds ledger height) {low : Nat} (isLow : low ≤ height) :
    ChainDown ledger.blocks ((main.blockAt low).hash env.crypto) low := by
  have within := holds.within
  induction low with
  | zero =>
    obtain ⟨block, stored, _, _, rfl⟩ := holds.stored 0 isLow
    exact .genesis stored (main.header_height (Nat.zero_le _))
  | succ low ih =>
    obtain ⟨block, stored, _, _, rfl⟩ := holds.stored (low + 1) isLow
    refine .next stored (main.header_height (by omega)) ?_
    show ChainDown ledger.blocks (main.blockAt (low + 1)).header.parentHash low
    rw [main.parent low (by omega)]
    exact ih (by omega)

theorem Holds.appliesAll (sound : main.Sound)
    (applies : AppliesAll env config.chainId (Ledger.genesis env config timestampMs) history ledger)
    (given : ∀ applied ∈ history, ∃ high < main.length,
      CopyOf (main.blockAt (high + 1)) applied.block) :
    (∀ applied ∈ history, applied.Linked) ∧ ∃ height, main.Holds ledger height := by
  induction applies with
  | start => exact ⟨fun _ none => absurd none List.not_mem_nil, 0, Holds.genesis main⟩
  | @apply history middle _ applied _ applies ih =>
    obtain ⟨earlier, last⟩ := List.forall_mem_append.mp given
    obtain ⟨linked, height, holds⟩ := ih earlier
    obtain ⟨high, within, copy⟩ := last applied List.mem_cons_self
    obtain ⟨lastLinked, after⟩ := holds.apply sound applies within copy
    exact ⟨List.forall_mem_append.mpr ⟨linked, List.forall_mem_singleton.mpr lastLinked⟩, _, after⟩

end MainChain

/-- **A node that is given one chain keeps it linked.** Let every block that reaches the node be one
of a single chain of linked and accepted blocks. Whatever the sources and the order, and however
often a block comes, each block that is applied follows the head in height and by its parent hash;
and the stored blocks lead from the head down to genesis. -/
theorem ledgerRun_linked (main : MainChain env config timestampMs) (sound : main.Sound)
    (run : LedgerRun env config.chainId (Ledger.genesis env config timestampMs) history ledger)
    (given : ∀ applied ∈ history, ∃ high < main.length,
      CopyOf (main.blockAt (high + 1)) applied.block) :
    (∀ applied ∈ history, applied.Linked) ∧
      ChainDown ledger.blocks ledger.head.hash ledger.head.height := by
  obtain ⟨linked, height, holds⟩ := MainChain.Holds.appliesAll sound run.appliesAll given
  refine ⟨linked, ?_⟩
  rw [holds.head]
  exact holds.chainDown (Nat.le_refl height)

/-! ## Blocks that do not follow the head -/

namespace Consensus.Committee

open Consensus

/-- The genesis of the committee of four. -/
def foundation : GenesisConfig :=
  { chainId := 7
    validators := seats
    initialActiveSetSize := 4 }

def firstLedger : Ledger := Ledger.genesis freshNode.chain foundation 0

def signedBlock (height : Nat) (parentHash : Hash) : Block :=
  let block := { emptyBlock with
    header := { emptyBlock.header with height := height, parentHash := parentHash } }
  { block with
    quorumSignatures := [1, 2, 3].map fun id =>
      { signerIndex := id - 1
        signature := signAs id (voteSigningHash crypto height 0 false (block.hash crypto)) } }

/-- A block with a parent nobody knows is applied when it is relayed, synced or committed; and the
synchronisation applies a block of height five on top of genesis. -/
theorem orphan_blocks_applied :
    (firstLedger.deliver freshNode.chain 7 0 (.relayed (signedBlock 1 99))).2 =
        [⟨.relay, firstLedger.head, signedBlock 1 99⟩] ∧
      (firstLedger.deliver freshNode.chain 7 0 (.committed (signedBlock 1 99))).2 =
        [⟨.consensus, firstLedger.head, signedBlock 1 99⟩] ∧
      (firstLedger.deliver freshNode.chain 7 0 (.synced [signedBlock 5 firstLedger.head.hash])).2 =
        [⟨.sync, firstLedger.head, signedBlock 5 firstLedger.head.hash⟩] ∧
      ¬AppliedBlock.Linked ⟨.relay, firstLedger.head, signedBlock 1 99⟩ ∧
      ¬AppliedBlock.Linked ⟨.consensus, firstLedger.head, signedBlock 1 99⟩ ∧
      ¬AppliedBlock.Linked ⟨.sync, firstLedger.head, signedBlock 5 firstLedger.head.hash⟩ := by
  decide +kernel

/-- A chain environment whose roots tell the supply. -/
def supplyChain : ChainEnv where
  crypto := crypto
  root := fun tree => BitVec.ofNat 256 (9 + (tree.globals.find? .totalSupply).getD 0)
  sorter := stableSort

def genesisLedger : Ledger := Ledger.genesis supplyChain foundation 0

/-- A block that names its parent and the supply after it, signed by the last three members. -/
def rewardBlock (height : Nat) (parentHash : Hash) : Block :=
  let block := { emptyBlock with
    header := { emptyBlock.header with
      height := height
      parentHash := parentHash
      stateRoot := BitVec.ofNat 256 (9 + height * GlobalConfig.BLOCK_REWARD) } }
  { block with
    quorumSignatures := [2, 3, 4].map fun id =>
      { signerIndex := id - 1
        signature := signAs id (voteSigningHash crypto height 0 false (block.hash crypto)) } }

def firstReward : Block := rewardBlock 1 genesisLedger.head.hash

def secondReward : Block := rewardBlock 2 (firstReward.hash crypto)

def rewardedState : StateAccess := applied supplyChain 7 1 (applyGenesis foundation) firstReward

theorem firstReward_extends :
    Extends supplyChain 7 1 (applyGenesis foundation) firstReward rewardedState :=
  extends_of_accepts (by decide +kernel)

theorem secondReward_extends : Extends supplyChain 7 2 rewardedState secondReward
    (applied supplyChain 7 2 rewardedState secondReward) :=
  extends_of_accepts (by decide +kernel)

def rewardBlocks : Nat → Block
  | 0 => makeGenesisBlock supplyChain foundation 0
  | 1 => firstReward
  | _ => secondReward

theorem rewardBlocks_parent : ∀ height < 2,
    (rewardBlocks (height + 1)).header.parentHash = (rewardBlocks height).hash crypto := by
  decide +kernel

/-- The chain of the genesis block and these two. -/
def rewardChain : MainChain supplyChain foundation 0 where
  length := 2
  blockAt := rewardBlocks
  stateAt
    | 0 => applyGenesis foundation
    | 1 => rewardedState
    | _ => applied supplyChain 7 2 rewardedState secondReward
  genesis := rfl
  genesisState := rfl
  accepted
    | 0, _ => firstReward_extends
    | 1, _ => secondReward_extends
    | _ + 2, tooHigh => absurd tooHigh (by omega)
  parent := rewardBlocks_parent

theorem rewardBlocks_hashes : ∀ low < 3, ∀ high < 3,
    (rewardBlocks low).hash crypto = (rewardBlocks high).hash crypto → low = high := by
  decide +kernel

theorem rewardChain_roots : ∀ low < 3, ∀ high < 2,
    supplyChain.root (rewardChain.stateOn low (high + 1)).tree =
      supplyChain.root (rewardChain.stateAt (high + 1)).tree →
        (rewardChain.stateOn low (high + 1)).getGlobalU64 .totalSupply =
          (rewardChain.stateAt (high + 1)).getGlobalU64 .totalSupply := by
  decide +kernel

theorem rewardChain_sound : rewardChain.Sound where
  hashes := fun low isLow high isHigh =>
    rewardBlocks_hashes low (Nat.lt_succ_of_le isLow) high (Nat.lt_succ_of_le isHigh)
  supply := by decide +kernel
  roots := fun low high isLow isHigh => rewardChain_roots low (Nat.lt_succ_of_le isLow) high isHigh

/-- The first block comes twice in a batch of the synchronisation. -/
def firstBatch : Ledger × List AppliedBlock :=
  genesisLedger.deliver supplyChain 7 0 (.synced [firstReward, firstReward])

/-- The second one is relayed after it. -/
def secondRelay : Ledger × List AppliedBlock :=
  firstBatch.1.deliver supplyChain 7 0 (.relayed secondReward)

/-- Both are applied once, and the second leads down to genesis. -/
theorem reward_blocks_chained :
    firstBatch.2 ++ secondRelay.2 =
        [⟨.sync, genesisLedger.head, firstReward⟩, ⟨.relay, firstBatch.1.head, secondReward⟩] ∧
      ChainDown secondRelay.1.blocks (secondReward.hash crypto) 2 := by
  have history : firstBatch.2 ++ secondRelay.2 =
      [⟨.sync, genesisLedger.head, firstReward⟩, ⟨.relay, firstBatch.1.head, secondReward⟩] := by
    decide +kernel
  have head : secondRelay.1.head = { hash := secondReward.hash crypto, height := 2 } := by
    decide +kernel
  have run : LedgerRun supplyChain 7 genesisLedger ([] ++ firstBatch.2 ++ secondRelay.2)
      secondRelay.1 :=
    .deliver (.deliver .start 0 (.synced [firstReward, firstReward])) 0 (.relayed secondReward)
  rw [List.nil_append, history] at run
  have chained := (ledgerRun_linked rewardChain rewardChain_sound run ?_).2
  · rw [head] at chained
    exact ⟨history, chained⟩
  · refine List.forall_mem_cons.mpr ⟨⟨0, by decide, 0, firstReward.quorumSignatures, rfl⟩, ?_⟩
    exact List.forall_mem_singleton.mpr ⟨1, by decide, 0, secondReward.quorumSignatures, rfl⟩

end Consensus.Committee

end Clarity
