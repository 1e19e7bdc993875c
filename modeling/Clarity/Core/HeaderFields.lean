import Clarity.Core.Chain

/-!
Contract: what an accepted block binds of the accounts in its header.

Owns: `HeaderTruthful`, that a header counts the transactions and the fees of its block, names its
epoch and its rotation, and pays a validator of its set; `Labels`, a proposer's choice of the count,
the epoch and the rotation; and that every choice is accepted which a quorum signs.

`BlockHeader::isWellFormed` bounds the count and asks for some proposer. No other check reads these
fields, and `Block::isWellFormed`, which compares the count, is not called. No pass reads the count,
the epoch or the rotation, so that the roots stay as they are; the proposer is paid, and the fees
are added to a counter.
-/

namespace Clarity.Core

open Common Crypto Library State Clarity.Core.BlockProcessor

def epochOf (height : Nat) : Nat := height / ROTATION_INTERVAL

def rotationIndexOf (height : Nat) : Nat := height / ROTATION_INTERVAL

/-- The accounts in the header of a block are right. -/
structure HeaderTruthful (env : ChainEnv) (state : StateAccess) (height : Nat) (block : Block) :
    Prop where
  txCount : block.header.txCount = block.transactions.length
  totalFees : block.header.totalFees = (block.transactions.map Transaction.fee).sum
  epoch : block.header.epoch = epochOf height
  rotationIndex : block.header.rotationIndex = rotationIndexOf height
  proposer : ∃ id ∈ blockSet env state block height, ∃ validator,
    state.getValidator id = some validator ∧ validator.rewardAddress = block.header.proposer

/-- What a proposer writes into the fields that no pass reads. -/
structure Labels where
  txCount : UInt32
  epoch : UInt64
  rotationIndex : UInt64

/-- The block with these labels, and signatures to go with them. -/
def relabel (labels : Labels) (signatures : List ValidatorSignature) (block : Block) : Block :=
  { block with
    header :=
      { block.header with
        txCount := labels.txCount.toNat
        epoch := labels.epoch.toNat
        rotationIndex := labels.rotationIndex.toNat }
    quorumSignatures := signatures }

/-- Whatever a proposer writes into a block, it is accepted with the right accounts only. -/
def BindsAccounts (env : ChainEnv) (state : StateAccess) (ctx : BlockContext) (block : Block) : Prop :=
  ∀ labels signatures,
    (∃ done, applyBlock env state (relabel labels signatures block) ctx = .ok done) →
      HeaderTruthful env state ctx.currentHeight (relabel labels signatures block)

/-- The keys of those who signed the block make a signature of any hash. -/
def SignersSign (env : ChainEnv) (state : StateAccess) (ctx : BlockContext) (block : Block) : Prop :=
  ∀ entry ∈ block.quorumSignatures, ∀ id key,
    (blockSet env state block ctx.currentHeight)[entry.signerIndex]? = some id →
    state.view.validatorKeyAtHeight id block.header.height = some key →
      ∀ hash, ∃ signature, env.crypto.verify hash key signature = true

section Relabelling

variable {env : ChainEnv} {state : StateAccess} {block : Block} {ctx : BlockContext} {run : TxRun}
  (labels : Labels) (signatures : List ValidatorSignature)

theorem isWellFormed_relabel (formed : block.header.isWellFormed = true)
    (count : labels.txCount.toNat ≤ 5000) :
    (relabel labels signatures block).header.isWellFormed = true := by
  unfold BlockHeader.isWellFormed at formed ⊢
  simp only [Bool.and_eq_true, Bool.not_eq_true', Bool.and_eq_false_iff, decide_eq_true_eq,
    decide_eq_false_iff_not] at formed ⊢
  dsimp only [relabel]
  tauto

theorem checkHeader_relabel (live : ctx.dryRun = false)
    (checked : checkHeader env.crypto block ctx = .ok ()) (count : labels.txCount.toNat ≤ 5000) :
    checkHeader env.crypto (relabel labels signatures block) ctx = .ok () := by
  unfold checkHeader at checked ⊢
  split at checked
  · cases checked
  next formed =>
    have wellFormed := isWellFormed_relabel labels signatures (by simpa [live] using formed) count
    rw [if_neg (by simp [wellFormed])]
    exact checked

/-- The signers of a block can sign it under any labels. -/
theorem exists_quorum_relabel (signers : SignersSign env state ctx block)
    (quorum : checkQuorum env.crypto state.view block (blockSet env state block ctx.currentHeight) =
      .ok ()) :
    ∃ signatures, checkQuorum env.crypto state.view (relabel labels signatures block)
      (blockSet env state block ctx.currentHeight) = .ok () := by
  obtain ⟨enough, distinct, signed⟩ := checkQuorum_ok_iff.mp quorum
  have signs : ∀ entry : ValidatorSignature, ∃ signature : Signature,
      entry ∈ block.quorumSignatures → ∃ id key, SignedBy env.crypto state.view
        (blockSet env state block ctx.currentHeight) block.header.height
        (quorumSigningHash env.crypto (relabel labels [] block))
        { entry with signature := signature } id key := by
    intro entry
    by_cases member : entry ∈ block.quorumSignatures
    · obtain ⟨_, id, key, position, registered, atHeight, _⟩ := signed entry member
      obtain ⟨signature, verified⟩ := signers entry member id key position atHeight
        (quorumSigningHash env.crypto (relabel labels [] block))
      exact ⟨signature, fun _ => ⟨id, key, position, registered, atHeight, verified⟩⟩
    · exact ⟨entry.signature, fun isMember => absurd isMember member⟩
  choose sign signsIt using signs
  refine ⟨block.quorumSignatures.map fun entry => { entry with signature := sign entry },
    checkQuorum_ok_iff.mpr ⟨?_, ?_, ?_⟩⟩
  · rw [relabel, List.length_map]
    exact enough
  · rw [relabel, List.map_map]
    exact distinct
  · intro resigned member
    obtain ⟨entry, isEntry, rfl⟩ := List.mem_map.mp member
    exact ⟨(signed entry isEntry).1, signsIt entry isEntry⟩

/-- Under labels that a quorum signs, an accepted block is accepted. -/
theorem relabel_accepted (accepted : Accepted env state block ctx run) (live : ctx.dryRun = false)
    (count : labels.txCount.toNat ≤ 5000)
    (quorum : checkQuorum env.crypto state.view (relabel labels signatures block)
      (blockSet env state block ctx.currentHeight) = .ok ()) :
    Accepted env state (relabel labels signatures block) ctx run :=
  ⟨checkHeader_relabel labels signatures live accepted.header count, accepted.txRoot,
    (checkSet_ok_iff live).mpr ⟨((checkSet_ok_iff live).mp accepted.set).1, quorum⟩,
    accepted.transactions, accepted.commitments⟩

/-- No accepted block binds its accounts: its proposer could have written another epoch. -/
theorem accepted_not_bindsAccounts (accepted : Accepted env state block ctx run)
    (live : ctx.dryRun = false) (signers : SignersSign env state ctx block) :
    ¬BindsAccounts env state ctx block := by
  intro binds
  let labels : Labels :=
    { txCount := 0, epoch := UInt64.ofNat (epochOf ctx.currentHeight + 1), rotationIndex := 0 }
  obtain ⟨signatures, quorum⟩ := exists_quorum_relabel labels signers
    ((checkSet_ok_iff live).mp accepted.set).2
  have relabelled := relabel_accepted labels signatures accepted live (Nat.zero_le _) quorum
  have truthful := (binds labels signatures ⟨_, applyBlock_ok_iff.mpr ⟨run, relabelled, rfl⟩⟩).epoch
  change (epochOf ctx.currentHeight + 1) % 2 ^ 64 = epochOf ctx.currentHeight at truthful
  omega

end Relabelling

namespace Regtest

/-- Every account in the header is wrong: no transaction, no fee, and an address of nobody. -/
def mislabelled : Block :=
  { block 1 [] with
    header :=
      { (block 1 []).header with
        txCount := 7, totalFees := 3, epoch := 9, rotationIndex := 4, proposer := 77 } }

theorem mislabelled_accepted : accepts env 1 1 (applyGenesis config) mislabelled = true ∧
      mislabelled.header.txCount ≠ mislabelled.transactions.length ∧
      mislabelled.header.totalFees ≠ (mislabelled.transactions.map Transaction.fee).sum ∧
      mislabelled.header.epoch ≠ epochOf 1 ∧ mislabelled.header.rotationIndex ≠ rotationIndexOf 1 ∧
      ∀ id ∈ blockSet env (opened (applyGenesis config) 1) mislabelled 1,
        ((opened (applyGenesis config) 1).getValidator id).map ValidatorInfo.rewardAddress ≠
          some mislabelled.header.proposer := by
  decide +kernel

/-- The first block of the chain is accepted, and under labels that are wrong as well. -/
theorem first_block_not_bindsAccounts :
    ∃ now, (∃ done, applyBlock env (opened (applyGenesis config) 1) (block 1 [])
        (applyContext 1 1 now) = .ok done) ∧
      ¬BindsAccounts env (opened (applyGenesis config) 1) (applyContext 1 1 now) (block 1 []) := by
  have taken : accepts env 1 1 (applyGenesis config) (block 1 []) = true := by decide +kernel
  obtain ⟨now, _, applied⟩ := extends_of_accepts taken
  obtain ⟨run, accepted, _⟩ := applyBlock_ok_iff.mp applied
  exact ⟨now, ⟨_, applied⟩, accepted_not_bindsAccounts accepted rfl fun _ _ _ _ _ _ _ => ⟨0, rfl⟩⟩

end Regtest

end Clarity.Core
