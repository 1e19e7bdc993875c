import Clarity.Core.EquivocationProof
import Clarity.Consensus.Network

/-!
Contract: a committee of `size` validators with the ids 1 to `size`, over a hash and a
signature scheme that compute.

Owns: the environment of each member, which signs with the key registered for its id, that
a signature verifies under the key of its signer and of no other member, and the network of
a committee of four with one Byzantine member.

Runs on concrete messages are evaluated over this committee.
-/

namespace Clarity.Consensus.Committee

open Common Crypto Clarity.Core Library

/-- The position of the rotation field in a hashed block header. -/
def ROTATION_OFFSET : Nat := 123

/-- A polynomial in the bytes, modulo a prime. -/
def polynomial (bytes : Bytes) : Nat :=
  bytes.foldl (fun acc byte => (acc * 257 + byte.toNat + 1) % (2 ^ 127 - 1)) 0

/-- A polynomial hash, next to the bytes at the position of the rotation field. -/
def modelHash (bytes : Bytes) : Hash :=
  BitVec.ofNat 256
    (1 + getUInt ((bytes.drop ROTATION_OFFSET).take 8) + 2 ^ 64 * polynomial bytes)

def keyOf (id : Nat) : PublicKey := BitVec.ofNat 256 id

/-- A signature is the hash it is over, next to the signer's key. -/
def signatureUnder (key : PublicKey) (hash : Hash) : Signature :=
  hash.setWidth 512 <<< 256 ||| key.setWidth 512

def signAs (id : Nat) (hash : Hash) : Signature := signatureUnder (keyOf id) hash

def crypto : Primitives where
  blake2b := modelHash
  verify := fun hash key signature => signature == signatureUnder key hash

/-- It is the signature of one hash. -/
theorem hash_of_verify {key : PublicKey} {hash other : Hash} {signature : Signature}
    (verified : crypto.verify hash key signature = true)
    (verifiedOther : crypto.verify other key signature = true) : hash = other := by
  have high (hash : Hash) : (signatureUnder key hash >>> 256).setWidth 256 = hash := by
    ext bit bound
    have first : bit < 512 := by omega
    have second : 256 + bit < 512 := by omega
    simp [signatureUnder, first, second, bound]
  have same := (beq_iff_eq.mp verified).symm.trans (beq_iff_eq.mp verifiedOther)
  rw [← high hash, same, high]

def validator (id : Nat) : ValidatorInfo :=
  { id := id, rewardAddress := keyOf id, consensusKey := keyOf id }

def members (size : Nat) : List Nat := (List.range size).map (· + 1)

def lookup (size id : Nat) : Option ValidatorInfo :=
  if id ∈ members size then some (validator id) else none

/-- The state of the committee: every member is registered with its one key. -/
def stateView (size : Nat) : StateView where
  getValidator := lookup size
  validatorKeyAtHeight := fun id _ => (lookup size id).map (·.effectiveConsensusKey)

def view (size me : Nat) : ChainView where
  myValidatorId := me
  sign := signAs me
  activeSet := fun _ => members size
  stateLookupValidator := lookup size
  chainId := 7
  parentHash := 5
  myAddress := keyOf me

def env (size me : Nat) : Env where
  crypto := crypto
  config := {}
  order := .insertion
  view := fun _ => view size me

def inputs (nowMs : Nat) (timerExpired : Bool) : Inputs where
  nowMs := nowMs
  timerExpired := timerExpired
  hasPendingWork := true
  selectTransactions := fun _ _ => []
  simulateBlock := fun _ => { ok := true, stateRoot := 9, epochFills := [], failedTxid := 0 }
  verifySlashProof := fun _ => true
  onBlockCommitted := fun _ => true

/-! ## The hash -/

theorem polynomial_lt (bytes : Bytes) : polynomial bytes < 2 ^ 127 := by
  unfold polynomial
  have start : (0 : Nat) < 2 ^ 127 := by decide
  generalize (0 : Nat) = value at start ⊢
  induction bytes generalizing value with
  | nil => exact start
  | cons byte rest ih =>
    apply ih
    exact (Nat.mod_lt _ (by decide)).trans (by decide)

theorem rotationDigits_lt (bytes : Bytes) :
    getUInt ((bytes.drop ROTATION_OFFSET).take 8) < 2 ^ 64 := by
  have length : ((bytes.drop ROTATION_OFFSET).take 8).length ≤ 8 := List.length_take_le 8 _
  calc getUInt ((bytes.drop ROTATION_OFFSET).take 8)
      < 256 ^ ((bytes.drop ROTATION_OFFSET).take 8).length := getUInt_lt _
    _ ≤ 256 ^ 8 := Nat.pow_le_pow_right (by decide) length
    _ = 2 ^ 64 := by decide

theorem modelHash_toNat (bytes : Bytes) : (modelHash bytes).toNat =
      1 + getUInt ((bytes.drop ROTATION_OFFSET).take 8) + 2 ^ 64 * polynomial bytes := by
  have low := rotationDigits_lt bytes
  have high := polynomial_lt bytes
  unfold modelHash
  rw [BitVec.toNat_ofNat, Nat.mod_eq_of_lt]
  omega

def headerFront (header : BlockHeader) : Bytes :=
  putU16 header.version ++ putU64 header.chainId ++ putU64 header.height ++
    bytes32 header.parentHash ++ putU64 header.timestampMs ++ bytes32 header.proposer ++
    putU64 header.epoch ++ putU64 header.rotationIndex

def headerBack (header : BlockHeader) : Bytes :=
  bytes32 header.stateRoot ++ bytes32 header.txRoot ++ bytes32 header.receiptsRoot ++
    bytes32 header.epochFillsRoot ++ bytes32 header.validatorSetRoot ++ putU64 header.totalFees ++
    putU32 header.txCount ++ putU32 header.activeValidatorCount ++
    bytes32 header.timeoutCertificateHash

/-- The rotation field stands at its position in the hashed header. -/
theorem rotation_bytes (block : Block) :
    ((BLOCK_HEADER_DOMAIN ++ block.header.serializeForHash).drop ROTATION_OFFSET).take 8 =
      putU64 block.header.emergencyRotation := by
  have domain : BLOCK_HEADER_DOMAIN.length = 17 := by decide
  have frontLength : (BLOCK_HEADER_DOMAIN ++ headerFront block.header).length = ROTATION_OFFSET := by
    simp only [headerFront, List.length_append, domain, putU16, putU64, putUInt_length,
      bytes32_length]
    rfl
  have fieldLength : (putU64 block.header.emergencyRotation).length = 8 := putUInt_length 8 _
  have split : block.header.serializeForHash = headerFront block.header ++
      (putU64 block.header.emergencyRotation ++ headerBack block.header) := by
    unfold BlockHeader.serializeForHash headerFront headerBack
    simp only [List.append_assoc]
  rw [split, ← List.append_assoc, ← frontLength, List.drop_left, ← fieldLength, List.take_left]

theorem soundHash : SoundHash crypto := by
  constructor
  · intro block isNull
    have value := modelHash_toNat (BLOCK_HEADER_DOMAIN ++ block.header.serializeForHash)
    have zero : (modelHash (BLOCK_HEADER_DOMAIN ++ block.header.serializeForHash)).toNat = 0 :=
      congrArg BitVec.toNat isNull
    omega
  · intro left right same
    have leftLow := rotationDigits_lt (BLOCK_HEADER_DOMAIN ++ left.header.serializeForHash)
    have rightLow := rotationDigits_lt (BLOCK_HEADER_DOMAIN ++ right.header.serializeForHash)
    have sameNat : (modelHash (BLOCK_HEADER_DOMAIN ++ left.header.serializeForHash)).toNat =
        (modelHash (BLOCK_HEADER_DOMAIN ++ right.header.serializeForHash)).toNat :=
      congrArg BitVec.toNat same
    rw [modelHash_toNat, modelHash_toNat] at sameNat
    rw [rotation_bytes] at leftLow rightLow
    rw [rotation_bytes, rotation_bytes] at sameNat
    apply getUInt_injective
    · exact (putUInt_length 8 _).trans (putUInt_length 8 _).symm
    · omega

/-! ## The network -/

/-- Four members; the last one is Byzantine. -/
def network : Network where
  env := env 4
  honest := fun id => id != 4
  crypto := crypto
  committed := fun _ => members 4
  lookup := fun _ => lookup 4
  sameCrypto := fun _ _ => rfl
  sameSet := fun _ _ _ => rfl
  sameLookup := fun _ _ _ => rfl
  identity := fun _ _ _ => rfl
  fewFaulty := fun _ => by decide
  soundHash := soundHash

theorem network_closed (height id : Nat) (outside : id ∉ members 4) :
    network.lookup height id = none :=
  if_neg outside

/-! ## Steps of a schedule -/

def start (height node : Nat) : Network.Action := fun _ => (node, inputs 20000 false, .start height)

def timeout (node : Nat) : Network.Action := fun _ => (node, inputs 30000 true, .pollTimers)

def voteEvent (isPrecommit : Bool) (vote : Vote) : Event :=
  if isPrecommit then .onPrecommit vote else .onPrevote vote

def deliverProposal (source node : Nat) : Network.Action := fun system =>
  (node, inputs 20000 false, .onProposal ((system source).proposal.getD default))

def deliverVote (isPrecommit : Bool) (round source node : Nat) : Network.Action := fun system =>
  let engine := system source
  (node, inputs 20000 false, voteEvent isPrecommit
    ((engine.signedVotes.find? (engine.height, round, isPrecommit)).getD default))

def valueOf (round source : Nat) (system : System) : Hash :=
  let engine := system source
  ((engine.signedVotes.find? (engine.height, round, false)).getD default).blockHash

def byzantineVote (value : System → Hash) (isPrecommit : Bool) (round node : Nat) :
    Network.Action := fun system =>
  let height := (system node).height
  let hash := value system
  (node, inputs 20000 false, voteEvent isPrecommit
    { height := height
      round := round
      signerIndex := 3
      signerId := 4
      isNil := false
      blockHash := hash
      signature := signAs 4 (voteSigningHash crypto height round false hash) })

def byzantineProposal (value : System → Hash) (source round node : Nat) : Network.Action :=
  fun system =>
    let height := (system node).height
    let hash := value system
    (node, inputs 20000 false, .onProposal
      { height := height
        round := round
        signerId := 4
        signerIndex := 3
        blockHash := hash
        blockBytes := (((system source).proposalsByHash.find? hash).getD default).serialize
        signature := signAs 4 (proposalSigningHash crypto height round hash) })

end Clarity.Consensus.Committee
