import Clarity.Consensus.Engine.Transitions

/-!
Contract: the block an engine proposes, `buildFreshBlock` and `propose`.

Owns: the fresh block, the Slash transactions for the evidence at hand, the retry loop
around the simulation, and the proposal that results.
-/

namespace Clarity.Consensus

open Common Crypto Clarity.Core Library

namespace Engine

variable (env : Env) (inputs : Inputs) (engine : Engine)

def withTransactions (crypto : Primitives) (transactions : List Transaction) (block : Block) :
    Block :=
  { block with
    transactions := transactions
    header := { block.header with
      txRoot := computeTxRoot crypto transactions
      txCount := u32 transactions.length } }

def sumFees (transactions : List Transaction) : Nat :=
  u64 (transactions.map Transaction.fee).sum

def buildFreshBlock : Block :=
  let activeSet := (env.now engine).activeSet engine.useEmergencySet
  let transactions := inputs.selectTransactions
    (env.config.maxBlockBytes - MAX_HEADER_RESERVE) env.config.maxBlockTxs
  { header :=
      { version := GlobalConfig.CURRENT_BLOCK_VERSION
        chainId := (env.now engine).chainId
        height := engine.height
        timestampMs := inputs.nowMs
        parentHash := (env.now engine).parentHash
        totalFees := sumFees transactions
        txRoot := computeTxRoot env.crypto transactions
        txCount := u32 transactions.length
        validatorSetRoot := computeValidatorSetRoot env.crypto activeSet
        activeValidatorCount := u32 activeSet.length
        commitRound := engine.round
        proposer := (env.now engine).myAddress }
    transactions := transactions
    participants := activeSet }

/-- The loop of `propose` over the evidence: at most one Slash for each target, while the
block has room. `slashed` are the targets so far. -/
def attachEvidence (env : Env) (inputs : Inputs) (chainId : Nat) :
    List EquivocationEvidence → List Nat → List Transaction → List Transaction
  | [], _, transactions => transactions
  | evidence :: rest, slashed, transactions =>
    let target := evidence.voteA.signerId
    let payload := encodeSlashPayload (encodeVote evidence.voteA) (encodeVote evidence.voteB)
    if evidence.isValid = false ∨ target = INVALID_ID ∨ target ∈ slashed then
      attachEvidence env inputs chainId rest slashed transactions
    else if transactions.length ≥ env.config.maxBlockTxs then transactions
    else if inputs.verifySlashProof payload = false then
      attachEvidence env inputs chainId rest slashed transactions
    else
      attachEvidence env inputs chainId rest (target :: slashed)
        (transactions ++ [{ chainId := chainId, txType := .slash, payload := payload }])

/-- The fresh block of `propose`, with evidence and, in an emergency, its certificate. -/
def freshBlock : Option Block :=
  let block := engine.buildFreshBlock env inputs
  let block :=
    if engine.equivocations.isEmpty then block
    else
      let transactions := attachEvidence env inputs block.header.chainId engine.equivocations []
        block.transactions
      if transactions.isEmpty then block else withTransactions env.crypto transactions block
  if engine.useEmergencySet then
    match engine.assembleTimeoutCertificate env with
    | none => none
    | some (round, certificate) =>
      some { block with
        header := { block.header with
          timeoutCertificate := certificate
          emergencyRotation := round
          timeoutCertificateHash := computeTimeoutCertificateHash env.crypto certificate } }
  else some block

def candidateBlock : Option (Block × Bool) :=
  match engine.selectPrevoteHash.bind engine.proposalsByHash.find? with
  | some block =>
    some ({ block with
      header := { block.header with commitRound := engine.round }
      quorumSignatures := [] }, true)
  | none => (engine.freshBlock env inputs).map fun block => (block, false)

/-- The retry loop of `propose`: a transaction that fails the simulation is dropped. The
result is the block that simulated, with its simulation. -/
def simulateFresh (env : Env) (inputs : Inputs) : Nat → Block → Option (Block × Simulation)
  | 0, _ => none
  | attempts + 1, block =>
    let simulation := inputs.simulateBlock block
    if simulation.ok then some (block, simulation)
    else if isNull simulation.failedTxid then none
    else
      let kept := block.transactions.filter fun tx => tx.txid env.crypto ≠ simulation.failedTxid
      if kept.length = block.transactions.length then none
      else
        let block := withTransactions env.crypto kept block
        simulateFresh env inputs attempts
          { block with header := { block.header with totalFees := sumFees kept } }

/-- The block that leaves the simulation, with the commitments `propose` fills in. -/
def simulatedBlock (block : Block) (reProposing : Bool) : Option Block :=
  if reProposing then
    let simulation := inputs.simulateBlock block
    if simulation.ok then
      some { block with header := { block.header with stateRoot := simulation.stateRoot } }
    else none
  else (simulateFresh env inputs MAX_SIMULATION_RETRIES block).map fun result =>
    { result.1 with
      header := { result.1.header with
        stateRoot := result.2.stateRoot
        epochFillsRoot := computeEpochFillsRoot env.crypto result.2.epochFills } }

/-- The proposal and the block of `propose`, when it gets that far. -/
def makeProposal : Option (Proposal × Block) := do
  let me := (env.now engine).myValidatorId
  let (block, reProposing) ← engine.candidateBlock env inputs
  let signerSet ← engine.proposerSetFor env me engine.round block.header.emergency
  let block ← simulatedBlock env inputs block reProposing
  let hash := block.hash env.crypto
  pure ({ height := engine.height
          round := engine.round
          signerId := me
          signerIndex := engine.indexInSet env me signerSet
          blockHash := hash
          blockBytes := block.serialize
          signature := (env.now engine).sign
            (proposalSigningHash env.crypto engine.height engine.round hash) }, block)

def storeProposal (proposal : Proposal) (block : Block) (engine : Engine) : Engine :=
  { engine with
    proposal := some proposal
    proposalsByHash := engine.proposalsByHash.put proposal.blockHash block
    proposalForRound :=
      engine.proposalForRound.put (proposal.height, proposal.round) proposal.blockHash }

end Engine

end Clarity.Consensus
