import Mathlib.Tactic.MkIffOfInductiveProp
import Clarity.Common.Framing
import Clarity.Core.Block

/-!
Contract: what the bytes of a block are read back as.

Owns: `Transaction.deserialize`, `TimeoutCertificate.deserialize`, `BlockHeader.deserialize` and
`Block.deserialize` on what the matching `serialize` wrote: the value comes back exactly when it
keeps the limits of the reader (`Block.Readable`), and nothing comes back otherwise; and that a
transaction is read from its own bytes alone.

One thing is lost on the way: the ids of the signers in a timeout certificate do not travel
(`onWire`). No hash covers them.
-/

namespace Clarity.Core

open Common Crypto Consensus

variable {tx : Transaction}

/-! ## Transactions -/

/-- The integers of a transaction fit the fields of the wire. The token id has four bytes there;
every transaction of a node was read from the wire. -/
@[mk_iff]
structure Transaction.InRange (tx : Transaction) : Prop where
  version : tx.version < 2 ^ 16
  chainId : tx.chainId < 2 ^ 64
  code : tx.txType.code < 2 ^ 8
  named : TxType.ofCode tx.txType.code = tx.txType
  nonce : tx.nonce < 2 ^ 64
  validUntilHeight : tx.validUntilHeight < 2 ^ 64
  tokenId : tx.tokenId < 2 ^ 32
  amount : tx.amount < 2 ^ 64
  fee : tx.fee < 2 ^ 64
  bytes : tx.serialize.length < 2 ^ 32

instance (tx : Transaction) : Decidable tx.InRange :=
  decidable_of_iff _ (Transaction.inRange_iff tx).symm

namespace Transaction

theorem serialize_length (tx : Transaction) : tx.serialize.length = 179 + tx.payload.length := by
  simp only [serialize, serializeForSigning, List.length_append, putU8, putU16, putU32, putU64,
    putUInt_length, bytes32_length, bytes64_length]
  omega

theorem payload_le_of_isWellFormed (wellFormed : tx.isWellFormed = true) :
    tx.payload.length ≤ TX_MAX_PAYLOAD_SIZE := by
  unfold isWellFormed at wellFormed
  by_contra long
  simp only [Nat.not_le.mp long, if_true, ite_self, Bool.false_eq_true] at wellFormed

/-- A transaction is read back when it is well formed, and only then. -/
theorem deserialize_serialize (inRange : tx.InRange) :
    deserialize tx.serialize = if tx.isWellFormed then some tx else none := by
  have payload : tx.payload.length < 2 ^ 32 := by
    have bytes := inRange.bytes
    rw [serialize_length] at bytes
    omega
  have read : readTransaction tx.serialize =
      if tx.payload.length ≤ TX_MAX_PAYLOAD_SIZE then
        if tx.isWellFormed then some (tx, []) else none
      else none := by
    unfold readTransaction serialize serializeForSigning
    simp only [List.append_assoc]
    rw [Reader.readU16_bind inRange.version, Reader.readU64_bind inRange.chainId,
      Reader.readU8_bind inRange.code, Reader.readU64_bind inRange.nonce,
      Reader.readU64_bind inRange.validUntilHeight, Reader.readBytes32_bind,
      Reader.readBytes32_bind, Reader.readU32_bind inRange.tokenId,
      Reader.readU64_bind inRange.amount, Reader.readU64_bind inRange.fee,
      Reader.sized_bind payload]
    refine if_congr Iff.rfl ?_ rfl
    rw [← List.append_nil (bytes64 tx.signature), Reader.readBytes64_bind, Reader.remaining_bind,
      Reader.require_bind, if_pos (by rfl), Reader.require_bind, inRange.named]
    rfl
  unfold deserialize
  change (readTransaction tx.serialize).map Prod.fst = _
  rw [read]
  cases wellFormed : tx.isWellFormed with
  | false => simp
  | true => simp [payload_le_of_isWellFormed wellFormed]

open Reader

theorem code_ofCode (byte : Nat) : (TxType.ofCode byte).code = byte := by
  unfold TxType.ofCode
  cases found : TxType.named.find? fun type => type.code == byte with
  | none => rfl
  | some type =>
    have same := List.find?_some found
    exact beq_iff_eq.mp same

/-- **The bytes of a transaction are canonical**: a string is read exactly when it is what a well
formed transaction writes, so no two strings are read as one transaction. -/
theorem deserialize_eq_some_iff {data : Bytes} :
    deserialize data = some tx ↔ tx.InRange ∧ tx.isWellFormed = true ∧ data = tx.serialize := by
  constructor
  · intro read
    obtain ⟨⟨_, rest⟩, run, rfl⟩ := Option.map_eq_some_iff.mp read
    unfold readTransaction readU8 readU16 readU32 readU64 readBytes32 readBytes64 at run
    simp only [bind_eq_some_iff, readUInt_eq_some_iff, readVector_eq_some_iff,
      require_eq_some_iff] at run
    obtain ⟨version, _, ⟨versionFits, _⟩, chainId, _, ⟨chainIdFits, _⟩, code, _, ⟨codeFits, _⟩,
      nonce, _, ⟨nonceFits, _⟩, untilHeight, _, ⟨untilFits, _⟩, _, _, ⟨sender, _, ⟨senderFits, _⟩,
      isSender⟩, _, _, ⟨recipient, _, ⟨recipientFits, _⟩, isRecipient⟩, tokenId, _,
      ⟨tokenIdFits, _⟩, amount, _, ⟨amountFits, _⟩, fee, _, ⟨feeFits, _⟩, size, _, ⟨sizeFits, _⟩, _,
      _, ⟨short, _⟩, payload, _, ⟨_, _⟩, _, _, ⟨signature, _, ⟨signatureFits, _⟩, isSignature⟩, _,
      _, isLeft, _, _, ⟨isLast, _⟩, _, _, ⟨wellFormed, _⟩, isTx⟩ := run
    cases isSender
    cases isRecipient
    cases isSignature
    cases isLeft
    cases isTx
    subst_vars
    have bytes := payload_le_of_isWellFormed wellFormed
    refine ⟨⟨versionFits, chainIdFits, ?_, ?_, nonceFits, untilFits, tokenIdFits, amountFits,
      feeFits, ?_⟩, wellFormed, ?_⟩
    · rwa [code_ofCode]
    · rw [code_ofCode]
    · rw [serialize_length]
      exact (Nat.add_le_add_left bytes 179).trans_lt (by decide)
    · cases List.eq_nil_of_length_eq_zero (beq_iff_eq.mp isLast)
      simp (disch := omega) only [serialize, serializeForSigning, code_ofCode, bytes32, bytes64,
        BitVec.toNat_ofNat, Nat.mod_eq_of_lt, List.append_assoc, List.append_nil]
      rfl
  · rintro ⟨inRange, wellFormed, rfl⟩
    rw [deserialize_serialize inRange, if_pos wellFormed]

end Transaction

end Clarity.Core

/-! ## Timeout certificates -/

namespace Clarity.Consensus

open Common Crypto Clarity.Core

/-- The integers of a timeout vote fit the types the source gives them. -/
@[mk_iff]
structure TimeoutVote.InRange (vote : TimeoutVote) : Prop where
  height : vote.height < 2 ^ 64
  round : vote.round < 2 ^ 32
  signerIndex : vote.signerIndex < 2 ^ 16

instance (vote : TimeoutVote) : Decidable vote.InRange :=
  decidable_of_iff _ (TimeoutVote.inRange_iff vote).symm

def TimeoutVote.onWire (vote : TimeoutVote) : TimeoutVote := { vote with signerId := INVALID_ID }

def TimeoutCertificate.onWire (certificate : TimeoutCertificate) : TimeoutCertificate :=
  { votes := certificate.votes.map TimeoutVote.onWire }

theorem readTimeoutVote_encode {vote : TimeoutVote} (inRange : vote.InRange) (rest : Bytes) :
    readTimeoutVote (encodeTimeoutVote vote ++ rest) =
      if vote.signerIndex != INVALID_INDEX then some (vote.onWire, rest) else none := by
  have roundFits : vote.round < 2 ^ 64 := inRange.round.trans (by decide)
  have roundKept : u32 vote.round = vote.round := Nat.mod_eq_of_lt inRange.round
  unfold readTimeoutVote encodeTimeoutVote
  simp only [List.append_assoc]
  rw [Reader.readU64_bind inRange.height, Reader.readU64_bind roundFits,
    Reader.readU16_bind inRange.signerIndex, Reader.readBytes64_bind, Reader.require_bind, roundKept]
  rfl

theorem encodeTimeoutVote_length (vote : TimeoutVote) :
    (encodeTimeoutVote vote).length = TIMEOUT_VOTE_WIRE_SIZE := by
  simp only [encodeTimeoutVote, List.length_append, putU16, putU64, putUInt_length, bytes64_length]
  rfl

namespace TimeoutCertificate

theorem serialize_length (certificate : TimeoutCertificate) :
    certificate.serialize.length = 4 + certificate.votes.length * TIMEOUT_VOTE_WIRE_SIZE := by
  unfold serialize
  rw [List.length_append, List.length_flatMap, putU32, putUInt_length]
  simp [encodeTimeoutVote_length]

/-- Every signer has a position. -/
def Positioned (certificate : TimeoutCertificate) : Bool :=
  certificate.votes.all fun vote => vote.signerIndex != INVALID_INDEX

theorem deserialize_serialize {certificate : TimeoutCertificate}
    (inRange : ∀ vote ∈ certificate.votes, vote.InRange) (few : certificate.votes.length < 2 ^ 32) :
    deserialize certificate.serialize =
      if certificate.votes.length ≤ MAX_CERT_VOTES ∧ certificate.Positioned = true then
        some certificate.onWire
      else none := by
  unfold deserialize serialize
  change Option.map Prod.fst _ = _
  rw [← List.append_nil (certificate.votes.flatMap encodeTimeoutVote),
    Reader.counted_bind few fun vote member => readTimeoutVote_encode (inRange vote member)]
  rw [apply_ite (Option.map Prod.fst)]
  exact if_congr Iff.rfl rfl rfl

end TimeoutCertificate

end Clarity.Consensus

/-! ## Headers and blocks -/

namespace Clarity.Core

open Common Crypto Consensus

/-- The integers of a header fit the types the source gives them. -/
@[mk_iff]
structure BlockHeader.InRange (header : BlockHeader) : Prop where
  version : header.version < 2 ^ 16
  chainId : header.chainId < 2 ^ 64
  height : header.height < 2 ^ 64
  timestampMs : header.timestampMs < 2 ^ 64
  epoch : header.epoch < 2 ^ 64
  rotationIndex : header.rotationIndex < 2 ^ 64
  commitRound : header.commitRound < 2 ^ 64
  emergencyRotation : header.emergencyRotation < 2 ^ 64
  totalFees : header.totalFees < 2 ^ 64
  txCount : header.txCount < 2 ^ 32
  activeValidatorCount : header.activeValidatorCount < 2 ^ 32
  certificate : ∀ vote ∈ header.timeoutCertificate.votes, vote.InRange
  certificateBytes : header.timeoutCertificate.serialize.length < 2 ^ 32

instance (header : BlockHeader) : Decidable header.InRange :=
  decidable_of_iff _ (BlockHeader.inRange_iff header).symm

/-- The integers of a block fit the types the source gives them. -/
@[mk_iff]
structure Block.InRange (block : Block) : Prop where
  header : block.header.InRange
  headerBytes : block.header.serialize.length < 2 ^ 32
  transactions : ∀ tx ∈ block.transactions, tx.InRange
  transactionCount : block.transactions.length < 2 ^ 32
  signatures : ∀ signed ∈ block.quorumSignatures, signed.signerIndex < 2 ^ 16
  signatureCount : block.quorumSignatures.length < 2 ^ 32
  participants : ∀ id ∈ block.participants, id < 2 ^ 64
  participantCount : block.participants.length < 2 ^ 32

instance (block : Block) : Decidable block.InRange :=
  decidable_of_iff _ (Block.inRange_iff block).symm

namespace BlockHeader

def onWire (header : BlockHeader) : BlockHeader :=
  { header with timeoutCertificate := header.timeoutCertificate.onWire }

theorem deserialize_serialize {header : BlockHeader} (inRange : header.InRange) :
    deserialize header.serialize =
      if header.timeoutCertificate.serialize.length ≤ MAX_CERT_BYTES ∧
          header.timeoutCertificate.Positioned = true then
        some header.onWire
      else none := by
  have few : header.timeoutCertificate.votes.length < 2 ^ 32 := by
    have bytes := inRange.certificateBytes
    rw [TimeoutCertificate.serialize_length] at bytes
    have := Nat.le_mul_of_pos_right header.timeoutCertificate.votes.length
      (show 0 < TIMEOUT_VOTE_WIRE_SIZE by decide)
    omega
  have certificate := TimeoutCertificate.deserialize_serialize inRange.certificate few
  have read : readHeader header.serialize =
      if header.timeoutCertificate.serialize.length ≤ MAX_CERT_BYTES ∧
          header.timeoutCertificate.Positioned = true then
        some (header.onWire, [])
      else none := by
    unfold readHeader serialize
    simp only [List.append_assoc]
    refine (Reader.readU16_bind inRange.version _ _).trans ?_
    refine (Reader.readU64_bind inRange.chainId _ _).trans ?_
    refine (Reader.readU64_bind inRange.height _ _).trans ?_
    refine (Reader.readBytes32_bind _ _ _).trans ?_
    refine (Reader.readU64_bind inRange.timestampMs _ _).trans ?_
    refine (Reader.readBytes32_bind _ _ _).trans ?_
    refine (Reader.readU64_bind inRange.epoch _ _).trans ?_
    refine (Reader.readU64_bind inRange.rotationIndex _ _).trans ?_
    refine (Reader.readU64_bind inRange.commitRound _ _).trans ?_
    refine (Reader.readU64_bind inRange.emergencyRotation _ _).trans ?_
    iterate 5 refine (Reader.readBytes32_bind _ _ _).trans ?_
    refine (Reader.readU64_bind inRange.totalFees _ _).trans ?_
    refine (Reader.readU32_bind inRange.txCount _ _).trans ?_
    refine (Reader.readU32_bind inRange.activeValidatorCount _ _).trans ?_
    refine (Reader.readBytes32_bind _ _ _).trans ?_
    refine (Reader.sized_bind_last inRange.certificateBytes _).trans ?_
    by_cases short : header.timeoutCertificate.serialize.length ≤ MAX_CERT_BYTES
    · have fewVotes : header.timeoutCertificate.votes.length ≤ MAX_CERT_VOTES := by
        have bytes := short
        rw [TimeoutCertificate.serialize_length] at bytes
        unfold MAX_CERT_BYTES TIMEOUT_VOTE_WIRE_SIZE at bytes
        unfold MAX_CERT_VOTES
        omega
      rw [if_pos short, certificate]
      by_cases positioned : header.timeoutCertificate.Positioned = true
      · rw [if_pos ⟨fewVotes, positioned⟩, if_pos ⟨short, positioned⟩]
        rfl
      · rw [if_neg fun both => positioned both.2, if_neg fun both => positioned both.2]
        rfl
    · rw [if_neg short, if_neg fun both => short both.1]
  unfold deserialize
  change (readHeader header.serialize).map Prod.fst = _
  rw [read, apply_ite (Option.map Prod.fst)]
  rfl

/-- The ids of the signers are in no hash. -/
theorem hash_onWire (crypto : Primitives) (header : BlockHeader) :
    header.onWire.hash crypto = header.hash crypto :=
  rfl

end BlockHeader

namespace Block

/-- The block as its bytes carry it. -/
def onWire (block : Block) : Block := { block with header := block.header.onWire }

/-- The limits of `Block::deserialize`. -/
@[mk_iff]
structure Readable (block : Block) : Prop where
  header : block.header.serialize.length ≤ MAX_HEADER_BYTES
  certificate : block.header.timeoutCertificate.Positioned = true
  transactionCount : block.transactions.length ≤ 100000
  transactions : block.transactions.all Transaction.isWellFormed = true
  signatures : block.quorumSignatures.length ≤ 10000
  participants : block.participants.length ≤ 10000

instance (block : Block) : Decidable block.Readable :=
  decidable_of_iff _ (Block.readable_iff block).symm

theorem readSizedTransaction_sized (inRange : tx.InRange) (rest : Bytes) :
    readSizedTransaction (sized tx.serialize ++ rest) =
      if tx.isWellFormed then some (tx, rest) else none := by
  have run : readSizedTransaction (sized tx.serialize ++ rest) =
      if tx.serialize.length ≤ 1000000 then
        if tx.isWellFormed then some (tx, rest) else none
      else none := by
    unfold readSizedTransaction sized
    rw [List.append_assoc, Reader.sized_bind inRange.bytes,
      Transaction.deserialize_serialize inRange]
    refine if_congr Iff.rfl ?_ rfl
    cases tx.isWellFormed with
    | false => rfl
    | true => rfl
  rw [run]
  cases wellFormed : tx.isWellFormed with
  | false => simp
  | true =>
    have payload := Transaction.payload_le_of_isWellFormed wellFormed
    have short : tx.serialize.length ≤ 1000000 := by
      rw [Transaction.serialize_length]
      unfold TX_MAX_PAYLOAD_SIZE at payload
      omega
    rw [if_pos short]

/-- A block is read back when it keeps the limits of the reader, and only then. -/
theorem deserialize_serialize {block : Block} (inRange : block.InRange) :
    deserialize block.serialize = if block.Readable then some block.onWire else none := by
  have read : readBlock block.serialize =
      if block.Readable then some (block.onWire, []) else none := by
    unfold readBlock serialize
    simp only [List.append_assoc, sized]
    refine (Reader.sized_bind inRange.headerBytes _ _).trans ?_
    by_cases header : block.header.serialize.length ≤ MAX_HEADER_BYTES
    case neg => rw [if_neg header, if_neg fun readable => header readable.header]
    have certificateBytes : block.header.timeoutCertificate.serialize.length ≤ MAX_CERT_BYTES := by
      unfold BlockHeader.serialize MAX_HEADER_BYTES at header
      rw [List.length_append] at header
      unfold MAX_CERT_BYTES
      omega
    rw [if_pos header, BlockHeader.deserialize_serialize inRange.header]
    by_cases certificate : block.header.timeoutCertificate.Positioned = true
    case neg =>
      rw [if_neg fun both => certificate both.2,
        if_neg fun readable => certificate readable.certificate]
      rfl
    rw [if_pos ⟨certificateBytes, certificate⟩]
    -- the header is read: three counted lists follow
    refine (Reader.counted_bind inRange.transactionCount
      (fun tx member => readSizedTransaction_sized (inRange.transactions tx member)) _ _).trans ?_
    by_cases transactions : block.transactions.length ≤ 100000 ∧
        block.transactions.all Transaction.isWellFormed = true
    case neg =>
      rw [if_neg transactions, if_neg fun readable =>
        transactions ⟨readable.transactionCount, readable.transactions⟩]
    rw [if_pos transactions]
    refine (Reader.counted_bind_all inRange.signatureCount
      (fun signed member rest => by
        unfold readSignature
        rw [List.append_assoc, Reader.readU16_bind (inRange.signatures signed member),
          Reader.readBytes64_bind]
        rfl) _ _).trans ?_
    by_cases signatures : block.quorumSignatures.length ≤ 10000
    case neg => rw [if_neg signatures, if_neg fun readable => signatures readable.signatures]
    rw [if_pos signatures, ← List.append_nil (block.participants.flatMap putU64)]
    refine (Reader.counted_bind_all inRange.participantCount
      (fun id member rest => by
        have read := Reader.readUInt_append 8 id rest
        rwa [Nat.mod_eq_of_lt (show id < 256 ^ 8 from inRange.participants id member)] at read)
      _ _).trans ?_
    by_cases participants : block.participants.length ≤ 10000
    case neg => rw [if_neg participants, if_neg fun readable => participants readable.participants]
    rw [if_pos participants, if_pos ⟨header, certificate, transactions.1, transactions.2,
      signatures, participants⟩]
    simp only [List.map_id']
    rfl
  unfold deserialize
  change (readBlock block.serialize).map Prod.fst = _
  rw [read, apply_ite (Option.map Prod.fst)]
  rfl

end Block

end Clarity.Core
