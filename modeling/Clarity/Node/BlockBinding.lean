import Clarity.Core.Attendance
import Clarity.Core.BlockCodec
import Clarity.Core.HeaderHash
import Clarity.Node.Linkage

/-!
Contract: how much of a block's body its hash binds, for blocks that are accepted on one state.

Owns: `bodyMessages`, what is hashed for a block; the Merkle root of a list of known length, which
binds the list; the hash of a certificate, which binds everything but the cached ids of the signers;
`Visible`, a validator whose presence shows in the state root; and when two accepted blocks with one
hash have one body. The number of transactions is hashed, but nobody compares it with the list: the
last transaction of an odd level can be there twice.
-/

namespace Clarity.Core

open Common Crypto Consensus Library State
open State.StateAccess Clarity.Core.BlockProcessor

/-! ## Merkle roots of one length -/

def levelMessages : List Hash → List Bytes
  | [] => []
  | [last] => [MERKLE_INTERNAL_DOMAIN ++ (bytes32 last ++ bytes32 last)]
  | left :: right :: rest =>
    (MERKLE_INTERNAL_DOMAIN ++ (bytes32 left ++ bytes32 right)) :: levelMessages rest

/-- What is hashed for a whole tree, level by level as `merkleLoop` goes. -/
def treeMessages (crypto : Primitives) : Nat → List Hash → List Bytes
  | _, [] => []
  | _, [_] => []
  | 0, _ :: _ => []
  | fuel + 1, level => levelMessages level ++ treeMessages crypto fuel (merkleLevel crypto level)

variable {crypto : Primitives}

theorem merkleLevel_length (level : List Hash) :
    (merkleLevel crypto level).length = (level.length + 1) / 2 := by
  induction level using merkleLevel.induct with
  | case1 => rfl
  | case2 => simp [merkleLevel]
  | case3 left right rest ih =>
    simp only [merkleLevel, List.length_cons, ih]
    omega

theorem bytes32_pair_inj {left right left' right' : Hash}
    (same : MERKLE_INTERNAL_DOMAIN ++ (bytes32 left ++ bytes32 right) =
      MERKLE_INTERNAL_DOMAIN ++ (bytes32 left' ++ bytes32 right')) :
    left = left' ∧ right = right' := by
  obtain ⟨sameLeft, sameRight⟩ := bytes32_append_inj (List.append_cancel_left same)
  exact ⟨sameLeft, bytes32_injective sameRight⟩

/-- One level binds the level below it, if the lengths are known. -/
theorem merkleLevel_injective {level level' : List Hash} (lengths : level.length = level'.length)
    (free : CollisionFree crypto (levelMessages level ++ levelMessages level'))
    (same : merkleLevel crypto level = merkleLevel crypto level') : level = level' := by
  induction level using merkleLevel.induct generalizing level' with
  | case1 => exact (List.length_eq_zero_iff.mp lengths.symm).symm
  | case2 last =>
    obtain ⟨last', rfl⟩ := List.length_eq_one_iff.mp lengths.symm
    have message := free _ (by simp [levelMessages]) _ (by simp [levelMessages])
      (List.cons.inj same).1
    rw [(bytes32_pair_inj message).1]
  | case3 left right rest ih =>
    match level', lengths with
    | left' :: right' :: rest', lengths =>
      obtain ⟨sameNode, sameRest⟩ := List.cons.inj same
      have message := free _ (List.mem_append_left _ List.mem_cons_self) _
        (List.mem_append_right _ List.mem_cons_self) sameNode
      obtain ⟨rfl, rfl⟩ := bytes32_pair_inj message
      have fewer : CollisionFree crypto (levelMessages rest ++ levelMessages rest') :=
        free.subset (List.append_subset.mpr
          ⟨fun _ member => List.mem_append_left _ (List.mem_cons_of_mem _ member),
            fun _ member => List.mem_append_right _ (List.mem_cons_of_mem _ member)⟩)
      rw [ih (by simpa using lengths) fewer sameRest]

/-- A root binds its leaves, if their number is known. -/
theorem merkleLoop_injective {fuel : Nat} {leaves leaves' : List Hash}
    (enough : leaves.length ≤ fuel + 1) (lengths : leaves.length = leaves'.length)
    (free : CollisionFree crypto (treeMessages crypto fuel leaves ++
      treeMessages crypto fuel leaves'))
    (same : merkleLoop crypto fuel leaves = merkleLoop crypto fuel leaves') : leaves = leaves' := by
  induction fuel generalizing leaves leaves' with
  | zero =>
    match leaves, leaves', lengths, enough with
    | [], [], _, _ => rfl
    | [root], [root'], _, _ => exact congrArg (fun leaf => [leaf]) same
  | succ fuel ih =>
    match leaves, leaves', lengths, enough with
    | [], [], _, _ => rfl
    | [root], [root'], _, _ => exact congrArg (fun leaf => [leaf]) same
    | first :: second :: rest, first' :: second' :: rest', lengths, enough =>
      have levels : (merkleLevel crypto (first :: second :: rest)).length =
          (merkleLevel crypto (first' :: second' :: rest')).length := by
        rw [merkleLevel_length, merkleLevel_length, lengths]
      have shorter : (merkleLevel crypto (first :: second :: rest)).length ≤ fuel + 1 := by
        rw [merkleLevel_length]
        simp only [List.length_cons] at enough ⊢
        omega
      refine merkleLevel_injective lengths (free.subset ?_)
        (ih shorter levels (free.subset ?_) same)
      · exact List.append_subset.mpr
          ⟨fun _ member => List.mem_append_left _ (List.mem_append_left _ member),
            fun _ member => List.mem_append_right _ (List.mem_append_left _ member)⟩
      · exact List.append_subset.mpr
          ⟨fun _ member => List.mem_append_left _ (List.mem_append_right _ member),
            fun _ member => List.mem_append_right _ (List.mem_append_right _ member)⟩

/-! ## Bodies -/

/-- What is hashed for the leaf of a transaction. -/
def leafMessage (crypto : Primitives) (tx : Transaction) : Bytes :=
  TX_LEAF_DOMAIN ++ bytes32 (tx.txid crypto)

def txRootMessages (crypto : Primitives) (txs : List Transaction) : List Bytes :=
  txs.map (leafMessage crypto) ++ treeMessages crypto txs.length
    (txs.map fun tx => crypto.hashDomain TX_LEAF_DOMAIN (bytes32 (tx.txid crypto)))

/-- What is hashed for a block: its header, its certificate and its transactions. -/
def Block.bodyMessages (crypto : Primitives) (block : Block) : List Bytes :=
  block.header.message ::
    (TIMEOUT_CERT_DOMAIN ++ block.header.timeoutCertificate.serialize) ::
      txRootMessages crypto block.transactions

/-- The root of the transactions binds their ids, if their number is known. -/
theorem computeTxRoot_injective {txs txs' : List Transaction} (lengths : txs.length = txs'.length)
    (free : CollisionFree crypto (txRootMessages crypto txs ++ txRootMessages crypto txs'))
    (same : computeTxRoot crypto txs = computeTxRoot crypto txs') :
    txs.map (Transaction.txid crypto) = txs'.map (Transaction.txid crypto) := by
  unfold computeTxRoot computeMerkleRoot at same
  rw [List.length_map, List.length_map, ← lengths] at same
  have leaves := merkleLoop_injective (by simp) (by simpa using lengths) (free.subset ?_) same
  · apply List.ext_getElem
    · simpa using lengths
    · intro index inLeft inRight
      rw [List.length_map] at inLeft inRight
      have leaf : crypto.blake2b (leafMessage crypto (txs[index])) =
          crypto.blake2b (leafMessage crypto (txs'[index])) := by
        have read := congrArg (fun level : List Hash => level[index]?) leaves
        simpa [inLeft, inRight, Primitives.hashDomain, leafMessage] using read
      have message := free _
        (List.mem_append_left _ (List.mem_append_left _ (List.mem_map_of_mem (List.getElem_mem _))))
        _ (List.mem_append_right _
          (List.mem_append_left _ (List.mem_map_of_mem (List.getElem_mem _)))) leaf
      rw [List.getElem_map, List.getElem_map]
      exact bytes32_injective (List.append_cancel_left message)
  · unfold txRootMessages
    rw [← lengths]
    exact List.append_subset.mpr
      ⟨fun _ member => List.mem_append_left _ (List.mem_append_right _ member),
        fun _ member => List.mem_append_right _ (List.mem_append_right _ member)⟩

/-! ## Certificates -/

theorem encodeTimeoutVote_append_inj {vote vote' : TimeoutVote} {rest rest' : Bytes}
    (inRange : vote.InRange) (inRange' : vote'.InRange)
    (same : encodeTimeoutVote vote ++ rest = encodeTimeoutVote vote' ++ rest') :
    vote.onWire = vote'.onWire ∧ rest = rest' := by
  obtain ⟨encoded, sameRest⟩ := List.append_inj same
    ((encodeTimeoutVote_length vote).trans (encodeTimeoutVote_length vote').symm)
  refine ⟨?_, sameRest⟩
  unfold encodeTimeoutVote at encoded
  simp only [putU16, putU64, List.append_assoc] at encoded
  obtain ⟨height, encoded⟩ := putUInt_append_injective inRange.height inRange'.height encoded
  obtain ⟨round, encoded⟩ := putUInt_append_injective (inRange.round.trans (by decide))
    (inRange'.round.trans (by decide)) encoded
  obtain ⟨signerIndex, signature⟩ :=
    putUInt_append_injective inRange.signerIndex inRange'.signerIndex encoded
  unfold TimeoutVote.onWire
  rw [height, round, signerIndex, bytes64_injective signature]

theorem encodeTimeoutVotes_inj {votes votes' : List TimeoutVote}
    (inRange : ∀ vote ∈ votes, vote.InRange) (inRange' : ∀ vote ∈ votes', vote.InRange)
    (same : votes.flatMap encodeTimeoutVote = votes'.flatMap encodeTimeoutVote) :
    votes.map TimeoutVote.onWire = votes'.map TimeoutVote.onWire := by
  induction votes generalizing votes' with
  | nil =>
    cases votes' with
    | nil => rfl
    | cons vote' rest' =>
      have lengths := congrArg List.length same
      rw [List.flatMap_cons, List.length_append, encodeTimeoutVote_length] at lengths
      simp [TIMEOUT_VOTE_WIRE_SIZE] at lengths
      omega
  | cons vote rest ih =>
    cases votes' with
    | nil =>
      have lengths := congrArg List.length same
      rw [List.flatMap_cons, List.length_append, encodeTimeoutVote_length] at lengths
      simp [TIMEOUT_VOTE_WIRE_SIZE] at lengths
    | cons vote' rest' =>
      obtain ⟨sameVote, sameRest⟩ :=
        encodeTimeoutVote_append_inj (inRange vote List.mem_cons_self)
          (inRange' vote' List.mem_cons_self) same
      rw [List.map_cons, List.map_cons, sameVote, ih
        (fun other member => inRange other (List.mem_cons_of_mem _ member))
        (fun other member => inRange' other (List.mem_cons_of_mem _ member)) sameRest]

/-! ## Accepted blocks with one hash -/

variable {env : ChainEnv} {chainId height : Nat} {state : StateAccess} {left right : Block}
  {first second : StateAccess}

/-- What the bodies of two blocks on one state have to share. -/
structure SameBody (crypto : Primitives) (state : StateAccess) (left right : Block) : Prop where
  txids : left.transactions.map (Transaction.txid crypto) =
    right.transactions.map (Transaction.txid crypto)
  certificate : left.header.timeoutCertificate.onWire = right.header.timeoutCertificate.onWire
  participants : ∀ id v, state.getValidator id = some v →
    (id ∈ left.participants ↔ id ∈ right.participants)

/-- Whether the block lists the validator shows in its record after the block: the record is there
to stay and not of this height yet, and no counter leaves its range. -/
structure Visible (state : StateAccess) (height : Nat) (block : Block) (id : Nat) : Prop where
  own : OwnIds state.registry
  known : id < nextValidator state
  started : 0 < height
  fits : height + UNBONDING_PERIOD < 2 ^ 64
  room : nextValidator state + block.transactions.length < 2 ^ 64
  record : ∃ v, state.getValidator id = some v ∧ v.lastSeenHeight ≠ height ∧
    v.isUnbondExpired height = false

/-- The lists of transactions are equally long, and the blocks agree on the validators whose
presence does not show. -/
structure SameShape (state : StateAccess) (height : Nat) (left right : Block) : Prop where
  count : left.transactions.length = right.transactions.length
  hidden : ∀ id v, state.getValidator id = some v → ¬Visible state height left id →
    (id ∈ left.participants ↔ id ∈ right.participants)

/-- What the certificate of a well-formed header is. -/
theorem isWellFormed_certificate {header : BlockHeader} (wellFormed : header.isWellFormed = true) :
    header.timeoutCertificate.votes.isEmpty = decide (header.emergencyRotation = 0) := by
  unfold BlockHeader.isWellFormed at wellFormed
  simp only [Bool.and_eq_true] at wellFormed
  have certificate := wellFormed.2
  split at certificate
  next emergency =>
    simp only [Bool.and_eq_true, Bool.not_eq_true'] at certificate
    rw [certificate.1, eq_comm, decide_eq_false_iff_not]
    exact Nat.pos_iff_ne_zero.mp emergency
  next calm =>
    rw [Bool.and_eq_true] at certificate
    rw [certificate.1, eq_comm, decide_eq_true_iff]
    exact Nat.eq_zero_of_not_pos calm

/-- An accepted block, as far as the checks speak about its body. -/
structure BodyChecked (env : ChainEnv) (height : Nat) (block : Block) (after : StateAccess) :
    Prop where
  wellFormed : block.header.isWellFormed = true
  txRoot : computeTxRoot env.crypto block.transactions = block.header.txRoot
  certificate : block.header.emergencyRotation > 0 →
    computeTimeoutCertificateHash env.crypto block.header.timeoutCertificate =
      block.header.timeoutCertificateHash
  stateRoot : 0 < height → block.header.stateRoot = env.root after.tree

theorem Extends.bodyChecked (accepted : Extends env chainId height state left first) :
    BodyChecked env height left first := by
  obtain ⟨nowMs, result, applied⟩ := accepted
  obtain ⟨run, checks, isOutcome⟩ := applyBlock_ok_iff.mp applied
  obtain ⟨wellFormed, sameHeight, certificate⟩ := checkHeader_ok checks.header
  refine ⟨wellFormed, checkTxRoot_ok checks.txRoot, certificate, ?_⟩
  intro started
  have rooted : isNull left.header.stateRoot = false := by
    have formed := wellFormed
    unfold BlockHeader.isWellFormed at formed
    simp only [Bool.and_eq_true] at formed
    simpa [sameHeight.symm ▸ started] using formed.1.2
  have isAfter : first = (outcome env (opened state height) left
      (applyContext chainId height nowMs) run).1 := congrArg Prod.fst isOutcome
  rw [isAfter]
  exact (checkCommitments_ok_iff.mp checks.commitments).1 rooted

/-- Blocks with one certificate hash have one certificate, as far as its bytes go. -/
theorem BodyChecked.sameCertificate (checkedLeft : BodyChecked env height left first)
    (checkedRight : BodyChecked env height right second) (leftInRange : left.header.InRange)
    (rightInRange : right.header.InRange)
    (free : CollisionFree env.crypto
      [TIMEOUT_CERT_DOMAIN ++ left.header.timeoutCertificate.serialize,
        TIMEOUT_CERT_DOMAIN ++ right.header.timeoutCertificate.serialize])
    (hashed : SameHashed left.header right.header) :
    left.header.timeoutCertificate.onWire = right.header.timeoutCertificate.onWire := by
  have rotation : left.header.emergencyRotation = right.header.emergencyRotation := by
    have modulo := hashed.emergencyRotation
    rwa [u64, u64, Nat.mod_eq_of_lt leftInRange.emergencyRotation,
      Nat.mod_eq_of_lt rightInRange.emergencyRotation] at modulo
  have emptyLeft := isWellFormed_certificate checkedLeft.wellFormed
  have emptyRight := isWellFormed_certificate checkedRight.wellFormed
  rw [← rotation] at emptyRight
  by_cases calm : left.header.emergencyRotation = 0
  · rw [decide_eq_true calm, List.isEmpty_iff] at emptyLeft emptyRight
    unfold TimeoutCertificate.onWire
    rw [emptyLeft, emptyRight]
  · rw [decide_eq_false calm] at emptyLeft emptyRight
    have sameHash := hashed.timeoutCertificateHash
    rw [← checkedLeft.certificate (Nat.pos_of_ne_zero calm),
      ← checkedRight.certificate (rotation ▸ Nat.pos_of_ne_zero calm)] at sameHash
    unfold computeTimeoutCertificateHash at sameHash
    rw [emptyLeft, emptyRight] at sameHash
    have messages := free _ (by simp) _ (by simp) sameHash
    obtain ⟨_, votes⟩ := putUInt_append_mod (List.append_cancel_left messages)
    unfold TimeoutCertificate.onWire
    rw [encodeTimeoutVotes_inj leftInRange.certificate rightInRange.certificate votes]

/-- Blocks with one state root list the same validators among those whose presence shows. -/
theorem sameParticipants_of_visible {id : Nat}
    (acceptedLeft : Extends env chainId height state left first)
    (acceptedRight : Extends env chainId height state right second)
    (count : left.transactions.length = right.transactions.length)
    (record : first.getValidator id = second.getValidator id)
    (visible : Visible state height left id) :
    id ∈ left.participants ↔ id ∈ right.participants := by
  obtain ⟨v, found, unseen, bonded⟩ := visible.record
  obtain ⟨w, foundLeft, seenLeft⟩ := acceptedLeft.lastSeen visible.own found visible.known bonded
    visible.fits visible.room
  obtain ⟨w', foundRight, seenRight⟩ := acceptedRight.lastSeen visible.own found visible.known
    bonded visible.fits (count ▸ visible.room)
  have sameRecord : w = w' := Option.some.inj (foundLeft ▸ record.trans foundRight)
  rw [← sameRecord, seenLeft] at seenRight
  by_cases inLeft : id ∈ left.participants <;> by_cases inRight : id ∈ right.participants
  · simp only [inLeft, inRight]
  · rw [if_pos inLeft, if_neg inRight] at seenRight
    exact absurd seenRight.symm unseen
  · rw [if_neg inLeft, if_pos inRight] at seenRight
    exact absurd seenRight unseen
  · simp only [inLeft, inRight]

theorem mem_bodyMessages_txRoot (crypto : Primitives) (block : Block) :
    txRootMessages crypto block.transactions ⊆ block.bodyMessages crypto :=
  fun _ member => List.mem_cons_of_mem _ (List.mem_cons_of_mem _ member)

/-- Two blocks with one hash that are accepted on one state have one body exactly if their lists of
transactions are equally long and they agree on the validators whose presence does not show. The
state root is taken to bind the records of the validators, as `root_eq_iff_same_map` has it for the
tree. -/
theorem sameBody_iff (acceptedLeft : Extends env chainId height state left first)
    (acceptedRight : Extends env chainId height state right second)
    (leftInRange : left.header.InRange) (rightInRange : right.header.InRange)
    (free : CollisionFree env.crypto
      (left.bodyMessages env.crypto ++ right.bodyMessages env.crypto))
    (bound : env.root first.tree = env.root second.tree →
      ∀ id, first.getValidator id = second.getValidator id)
    (same : left.hash env.crypto = right.hash env.crypto) :
    SameBody env.crypto state left right ↔ SameShape state height left right := by
  have checkedLeft := acceptedLeft.bodyChecked
  have checkedRight := acceptedRight.bodyChecked
  have hashed : SameHashed left.header right.header :=
    BlockHeader.sameHashed_of_hash (free.subset (by simp [Block.bodyMessages])) same
  constructor
  · intro body
    refine ⟨?_, fun id v found _ => body.participants id v found⟩
    simpa using congrArg List.length body.txids
  · intro shape
    refine ⟨?_, ?_, ?_⟩
    · refine computeTxRoot_injective shape.count (free.subset ?_) ?_
      · exact List.append_subset.mpr
          ⟨fun _ member => List.mem_append_left _ (mem_bodyMessages_txRoot _ _ member),
            fun _ member => List.mem_append_right _ (mem_bodyMessages_txRoot _ _ member)⟩
      · rw [checkedLeft.txRoot, checkedRight.txRoot, hashed.txRoot]
    · exact checkedLeft.sameCertificate checkedRight leftInRange rightInRange
        (free.subset (by simp [Block.bodyMessages])) hashed
    · intro id v found
      by_cases visible : Visible state height left id
      · have roots : env.root first.tree = env.root second.tree := by
          rw [← checkedLeft.stateRoot visible.started, ← checkedRight.stateRoot visible.started,
            hashed.stateRoot]
        exact sameParticipants_of_visible acceptedLeft acceptedRight shape.count (bound roots id)
          visible
      · exact shape.hidden id v found visible

end Clarity.Core

/-! ## The last transaction twice -/

namespace Clarity.Consensus.Committee

open Common Crypto Clarity.Core Consensus State
open State.StateAccess

/-- A transaction that only the protocol makes, and that no check reads. -/
def rewardNote (amount : Nat) : Transaction := { txType := .blockReward, amount := amount }

def threeNotes : List Transaction := [rewardNote 1, rewardNote 2, rewardNote 3]

def notesBlock (transactions : List Transaction) (signers : List Nat) : Block :=
  let block := { emptyBlock with
    header := { emptyBlock.header with txRoot := computeTxRoot crypto threeNotes, txCount := 3 }
    transactions := transactions }
  { block with
    quorumSignatures := signers.map fun id =>
      { signerIndex := id - 1
        signature := signAs id (voteSigningHash crypto 1 0 false (block.hash crypto)) } }

def notesDoubled : Block := notesBlock (threeNotes ++ [rewardNote 3]) [1, 2, 3]

/-- The block that repeats the last of three transactions has the hash of the one that does not, and
is accepted with the same state after it. -/
theorem doubled_transaction_same_hash : ∃ first second,
      Extends freshNode.chain 7 1 (applyGenesis foundation) (notesBlock threeNotes [1, 2, 3])
          first ∧
        Extends freshNode.chain 7 1 (applyGenesis foundation) notesDoubled second ∧
        (notesBlock threeNotes [1, 2, 3]).header.InRange ∧ notesDoubled.header.InRange ∧
        State.CollisionFree crypto ((notesBlock threeNotes [1, 2, 3]).bodyMessages crypto ++
          notesDoubled.bodyMessages crypto) ∧
        first.tree = second.tree ∧
        (notesBlock threeNotes [1, 2, 3]).hash crypto = notesDoubled.hash crypto ∧
        (notesBlock threeNotes [1, 2, 3]).transactions.map (Transaction.txid crypto) ≠
          notesDoubled.transactions.map (Transaction.txid crypto) := by
  refine ⟨_, _, extends_of_accepts (by decide +kernel), extends_of_accepts (by decide +kernel), ?_⟩
  decide +kernel

/-- The same block, with the votes of two different quorums. -/
theorem resigned_block_sameBody :
    SameBody crypto (applyGenesis foundation) (notesBlock threeNotes [1, 2, 3])
      (notesBlock threeNotes [2, 3, 4]) := by
  have sameTree : (applied freshNode.chain 7 1 (applyGenesis foundation)
        (notesBlock threeNotes [1, 2, 3])).tree =
      (applied freshNode.chain 7 1 (applyGenesis foundation)
        (notesBlock threeNotes [2, 3, 4])).tree := by
    decide +kernel
  refine (@sameBody_iff freshNode.chain 7 1 (applyGenesis foundation)
    (notesBlock threeNotes [1, 2, 3]) (notesBlock threeNotes [2, 3, 4]) _ _
    (extends_of_accepts (by decide +kernel)) (extends_of_accepts (by decide +kernel))
    (by decide +kernel) (by decide +kernel) (by decide +kernel) ?_ rfl).mpr
    ⟨rfl, fun _ _ _ _ => Iff.rfl⟩
  intro _ id
  unfold getValidator
  rw [sameTree]

end Clarity.Consensus.Committee
