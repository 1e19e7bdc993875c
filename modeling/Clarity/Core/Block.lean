import Mathlib.Data.List.Sort
import Clarity.Consensus.Types
import Clarity.Core.Transaction

/-!
Contract: blocks, as `Core/Block.cpp` has them.

Owns: the header with its hash and wire format, the block with its wire format and its
structural check, and the Merkle roots over transactions and validators.

The hash leaves out the commit round and takes the timeout certificate through its hash.
-/

namespace Clarity.Core

open Common Crypto Consensus Reader

structure BlockHeader where
  version : Nat := GlobalConfig.CURRENT_BLOCK_VERSION
  chainId : Nat := 0
  height : Nat := 0
  parentHash : Hash := 0
  timestampMs : Nat := 0
  proposer : Address := 0
  epoch : Nat := 0
  rotationIndex : Nat := 0
  commitRound : Nat := 0
  emergencyRotation : Nat := 0
  timeoutCertificate : TimeoutCertificate := {}
  timeoutCertificateHash : Hash := 0
  stateRoot : Hash := 0
  txRoot : Hash := 0
  receiptsRoot : Hash := 0
  epochFillsRoot : Hash := 0
  validatorSetRoot : Hash := 0
  totalFees : Nat := 0
  txCount : Nat := 0
  activeValidatorCount : Nat := 0
deriving DecidableEq, Repr, Inhabited

structure Block where
  header : BlockHeader := {}
  transactions : List Transaction := []
  quorumSignatures : List ValidatorSignature := []
  participants : List Nat := []
deriving DecidableEq, Repr, Inhabited

def BLOCK_HEADER_DOMAIN : Bytes := putText "CLRTY_BLOCKHDR_V1".toList
def TX_LEAF_DOMAIN : Bytes := putText "CLRTY_TXLEAF_V1".toList
def VALIDATOR_LEAF_DOMAIN : Bytes := putText "CLRTY_VALSETLEAF_V1".toList
def MERKLE_INTERNAL_DOMAIN : Bytes := putText "CLRTY_MERKLE_V1".toList
def TIMEOUT_CERT_DOMAIN : Bytes := putText "CLRTY_TIMEOUTCERT_V1".toList

def MAX_HEADER_BYTES : Nat := 8 * 1024
def MAX_CERT_BYTES : Nat := 32 * 1024

def computeTimeoutCertificateHash (crypto : Primitives) (certificate : TimeoutCertificate) : Hash :=
  if certificate.votes.isEmpty then 0
  else crypto.hashDomain TIMEOUT_CERT_DOMAIN certificate.serialize

namespace BlockHeader

/-- The flag of a block built on the emergency set. -/
def emergency (header : BlockHeader) : Bool := header.emergencyRotation > 0

def isWellFormed (header : BlockHeader) : Bool :=
  header.version == GlobalConfig.CURRENT_BLOCK_VERSION && header.chainId != 0 &&
    !(header.height > 0 && isNull header.proposer) && header.activeValidatorCount != 0 &&
    header.txCount ≤ 5000 && !(header.height > 0 && isNull header.parentHash) &&
    !(header.height > 0 && isNull header.stateRoot) &&
    (if header.emergencyRotation > 0 then
      !header.timeoutCertificate.votes.isEmpty && !isNull header.timeoutCertificateHash
    else
      header.timeoutCertificate.votes.isEmpty && isNull header.timeoutCertificateHash)

/-- `serializeForHash`: no commit round, and the certificate through its hash only. -/
def serializeForHash (header : BlockHeader) : Bytes :=
  putU16 header.version ++ putU64 header.chainId ++ putU64 header.height ++
    bytes32 header.parentHash ++ putU64 header.timestampMs ++ bytes32 header.proposer ++
    putU64 header.epoch ++ putU64 header.rotationIndex ++ putU64 header.emergencyRotation ++
    bytes32 header.stateRoot ++ bytes32 header.txRoot ++ bytes32 header.receiptsRoot ++
    bytes32 header.epochFillsRoot ++ bytes32 header.validatorSetRoot ++ putU64 header.totalFees ++
    putU32 header.txCount ++ putU32 header.activeValidatorCount ++
    bytes32 header.timeoutCertificateHash

def hash (crypto : Primitives) (header : BlockHeader) : Hash :=
  crypto.hashDomain BLOCK_HEADER_DOMAIN header.serializeForHash

def serialize (header : BlockHeader) : Bytes :=
  putU16 header.version ++ putU64 header.chainId ++ putU64 header.height ++
    bytes32 header.parentHash ++ putU64 header.timestampMs ++ bytes32 header.proposer ++
    putU64 header.epoch ++ putU64 header.rotationIndex ++ putU64 header.commitRound ++
    putU64 header.emergencyRotation ++ bytes32 header.stateRoot ++ bytes32 header.txRoot ++
    bytes32 header.receiptsRoot ++ bytes32 header.epochFillsRoot ++
    bytes32 header.validatorSetRoot ++ putU64 header.totalFees ++ putU32 header.txCount ++
    putU32 header.activeValidatorCount ++ bytes32 header.timeoutCertificateHash ++
    putU32 header.timeoutCertificate.serialize.length ++ header.timeoutCertificate.serialize

def readHeader : Reader BlockHeader := do
  let version ← readU16
  let chainId ← readU64
  let height ← readU64
  let parentHash ← readBytes32
  let timestampMs ← readU64
  let proposer ← readBytes32
  let epoch ← readU64
  let rotationIndex ← readU64
  let commitRound ← readU64
  let emergencyRotation ← readU64
  let stateRoot ← readBytes32
  let txRoot ← readBytes32
  let receiptsRoot ← readBytes32
  let epochFillsRoot ← readBytes32
  let validatorSetRoot ← readBytes32
  let totalFees ← readU64
  let txCount ← readU32
  let activeValidatorCount ← readU32
  let timeoutCertificateHash ← readBytes32
  let certLen ← readU32
  require (certLen ≤ MAX_CERT_BYTES)
  let certBytes ← readVector certLen
  match TimeoutCertificate.deserialize certBytes with
  | none => fail
  | some timeoutCertificate =>
    let left ← remaining
    require (left == 0)
    pure { version, chainId, height, parentHash, timestampMs, proposer, epoch, rotationIndex,
           commitRound, emergencyRotation, timeoutCertificate, timeoutCertificateHash, stateRoot,
           txRoot, receiptsRoot, epochFillsRoot, validatorSetRoot, totalFees, txCount,
           activeValidatorCount }

def deserialize (data : Bytes) : Option BlockHeader := readHeader.run' data

/-- A header that was read has a 64-bit rotation round. -/
theorem deserialize_emergencyRotation_lt {data : Bytes} {header : BlockHeader}
    (read : deserialize data = some header) : header.emergencyRotation < 2 ^ 64 := by
  have yields : Yields (fun header : BlockHeader => header.emergencyRotation < 2 ^ 64)
      readHeader := by
    unfold readHeader
    -- nine fields before the rotation round, and the rest after it
    iterate 9 refine Yields.skip fun _ => ?_
    refine Yields.bind (readUInt_yields 8) fun rotation bound => ?_
    iterate 10 refine Yields.skip fun _ => ?_
    refine Yields.skip fun _ => ?_
    refine Yields.skip fun _ => ?_
    split
    · exact Yields.fail
    · iterate 2 refine Yields.skip fun _ => ?_
      exact Yields.pure bound
  obtain ⟨⟨value, rest⟩, run, isHeader⟩ := Option.map_eq_some_iff.mp read
  cases isHeader
  exact yields data value rest run

end BlockHeader

namespace Block

def hash (crypto : Primitives) (block : Block) : Hash := block.header.hash crypto

/-- `Block::isWellFormed`. -/
def isWellFormed (block : Block) : Bool :=
  block.header.isWellFormed && block.transactions.length == block.header.txCount &&
    block.transactions.all Transaction.isWellFormed &&
    !(block.header.height > 0 &&
      block.quorumSignatures.length < bftQuorum block.header.activeValidatorCount)

def sized (bytes : Bytes) : Bytes := putU32 bytes.length ++ bytes

def serialize (block : Block) : Bytes :=
  sized block.header.serialize ++
    (putU32 block.transactions.length ++
      (block.transactions.flatMap fun tx => sized tx.serialize)) ++
    (putU32 block.quorumSignatures.length ++
      (block.quorumSignatures.flatMap fun signed =>
        putU16 signed.signerIndex ++ bytes64 signed.signature)) ++
    (putU32 block.participants.length ++ block.participants.flatMap putU64)

def readSizedTransaction : Reader Transaction := do
  let size ← readU32
  require (size ≤ 1000000)
  let bytes ← readVector size
  match Transaction.deserialize bytes with
  | none => fail
  | some tx => pure tx

def readSignature : Reader ValidatorSignature := do
  let signerIndex ← readU16
  let signature ← readBytes64
  pure { signerIndex, signature }

def readBlock : Reader Block := do
  let headerSize ← readU32
  require (headerSize ≤ MAX_HEADER_BYTES)
  let headerBytes ← readVector headerSize
  match BlockHeader.deserialize headerBytes with
  | none => fail
  | some header =>
    let txCount ← readU32
    require (txCount ≤ 100000)
    let transactions ← replicate readSizedTransaction txCount
    let signatureCount ← readU32
    require (signatureCount ≤ 10000)
    let quorumSignatures ← replicate readSignature signatureCount
    let participantCount ← readU32
    require (participantCount ≤ 10000)
    let participants ← replicate readU64 participantCount
    let left ← remaining
    require (left == 0)
    pure { header, transactions, quorumSignatures, participants }

def deserialize (data : Bytes) : Option Block := readBlock.run' data

theorem deserialize_emergencyRotation_lt {data : Bytes} {block : Block}
    (read : deserialize data = some block) : block.header.emergencyRotation < 2 ^ 64 := by
  have yields : Yields (fun block : Block => block.header.emergencyRotation < 2 ^ 64)
      readBlock := by
    unfold readBlock
    iterate 3 refine Yields.skip fun _ => ?_
    split
    · exact Yields.fail
    next header decoded =>
      iterate 11 refine Yields.skip fun _ => ?_
      exact Yields.pure (BlockHeader.deserialize_emergencyRotation_lt decoded)
  obtain ⟨⟨value, rest⟩, run, isBlock⟩ := Option.map_eq_some_iff.mp read
  cases isBlock
  exact yields data value rest run

end Block

/-! ## Merkle roots -/

/-- One level of the tree: neighbours are hashed together, an odd last leaf with itself. -/
def merkleLevel (crypto : Primitives) : List Hash → List Hash
  | [] => []
  | [last] => [crypto.hashDomain MERKLE_INTERNAL_DOMAIN (bytes32 last ++ bytes32 last)]
  | left :: right :: rest =>
    crypto.hashDomain MERKLE_INTERNAL_DOMAIN (bytes32 left ++ bytes32 right) ::
      merkleLevel crypto rest

/-- The loop of `computeMerkleRoot`: a level of two or more leaves gets shorter, so the number
of leaves bounds the number of passes. -/
def merkleLoop (crypto : Primitives) : Nat → List Hash → Hash
  | _, [] => 0
  | _, [root] => root
  | 0, root :: _ => root
  | fuel + 1, level => merkleLoop crypto fuel (merkleLevel crypto level)

def computeMerkleRoot (crypto : Primitives) (leaves : List Hash) : Hash :=
  merkleLoop crypto leaves.length leaves

def computeTxRoot (crypto : Primitives) (txs : List Transaction) : Hash :=
  computeMerkleRoot crypto
    (txs.map fun tx => crypto.hashDomain TX_LEAF_DOMAIN (bytes32 (tx.txid crypto)))

def computeValidatorSetRoot (crypto : Primitives) (activeSet : List Nat) : Hash :=
  computeMerkleRoot crypto
    ((activeSet.insertionSort (· ≤ ·)).map fun id =>
      crypto.hashDomain VALIDATOR_LEAF_DOMAIN (putU64 id))

end Clarity.Core
