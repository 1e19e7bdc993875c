import Clarity.Core.Block
import Clarity.Core.EquivocationProof

/-!
Contract: the commit certificate of a block, `BlockProcessor::checkQuorum`.

Owns: the checks on the signer positions and on the signatures, with their errors, and what
an accepted certificate says.
-/

namespace Clarity.Core.BlockProcessor

open Common Crypto Consensus

variable {crypto : Primitives} {state : StateView} {activeSet : List Nat}

/-- The loop over the signer positions; `seen` are the positions so far. -/
def checkIndices (setSize : Nat) : List ValidatorSignature → List Nat → Except String Unit
  | [], _ => .ok ()
  | entry :: rest, seen =>
    if entry.signerIndex = INVALID_INDEX then .error "invalid signer index"
    else if entry.signerIndex ≥ setSize then .error "signer index out of range"
    else if entry.signerIndex ∈ seen then .error "duplicate signature from same signer"
    else checkIndices setSize rest (entry.signerIndex :: seen)

/-- The check of one signature, under the key of its signer at the block's height. -/
def checkSignature (crypto : Primitives) (state : StateView) (activeSet : List Nat) (height : Nat)
    (signingHash : Hash) (entry : ValidatorSignature) : Except String Unit :=
  let validatorId := activeSet.getD entry.signerIndex INVALID_ID
  match state.getValidator validatorId with
  | none => .error "quorum signature from unknown validator"
  | some _ =>
    match state.validatorKeyAtHeight validatorId height with
    | none => .error "no consensus key for signer at this height"
    | some key =>
      if crypto.verify signingHash key entry.signature then .ok ()
      else .error "invalid quorum signature"

/-- The hash the signatures of a block are over: the commit round is cut to 32 bits. -/
def quorumSigningHash (crypto : Primitives) (block : Block) : Hash :=
  voteSigningHash crypto block.header.height block.header.commitRound false (block.hash crypto)

def checkSignatures (crypto : Primitives) (state : StateView) (activeSet : List Nat) (height : Nat)
    (signingHash : Hash) : List ValidatorSignature → Except String Unit
  | [] => .ok ()
  | entry :: rest =>
    match checkSignature crypto state activeSet height signingHash entry with
    | .error error => .error error
    | .ok _ => checkSignatures crypto state activeSet height signingHash rest

def checkQuorum (crypto : Primitives) (state : StateView) (block : Block) (activeSet : List Nat) :
    Except String Unit :=
  if block.quorumSignatures.length < bftQuorum activeSet.length then
    .error "insufficient quorum signatures"
  else match checkIndices activeSet.length block.quorumSignatures [] with
  | .error error => .error error
  | .ok _ => checkSignatures crypto state activeSet block.header.height
      (quorumSigningHash crypto block) block.quorumSignatures

/-! ## What is accepted -/

/-- The signature is by the registered validator at its position, under the validator's key. -/
structure SignedBy (crypto : Primitives) (state : StateView) (activeSet : List Nat) (height : Nat)
    (signingHash : Hash) (entry : ValidatorSignature) (id : Nat) (key : PublicKey) : Prop where
  position : activeSet[entry.signerIndex]? = some id
  registered : (state.getValidator id).isSome = true
  atHeight : state.validatorKeyAtHeight id height = some key
  verified : crypto.verify signingHash key entry.signature = true

theorem checkIndices_ok_iff {setSize : Nat} {entries : List ValidatorSignature} {seen : List Nat} :
    checkIndices setSize entries seen = .ok () ↔
      (∀ entry ∈ entries, entry.signerIndex ≠ INVALID_INDEX ∧ entry.signerIndex < setSize ∧
        entry.signerIndex ∉ seen) ∧ (entries.map ValidatorSignature.signerIndex).Nodup := by
  induction entries generalizing seen with
  | nil => simp [checkIndices]
  | cons entry rest ih =>
    unfold checkIndices
    by_cases invalid : entry.signerIndex = INVALID_INDEX
    · simp [invalid]
    · by_cases outside : entry.signerIndex ≥ setSize
      · have notInside : ¬entry.signerIndex < setSize := Nat.not_lt.mpr outside
        simp [invalid, outside, notInside]
      · have inside : entry.signerIndex < setSize := Nat.lt_of_not_le outside
        by_cases repeated : entry.signerIndex ∈ seen
        · simp [invalid, outside, repeated]
        · rw [if_neg invalid, if_neg outside, if_neg repeated, ih]
          simp only [List.mem_cons, not_or, List.map_cons, List.nodup_cons, List.mem_map,
            forall_eq_or_imp]
          constructor
          · rintro ⟨each, distinct⟩
            refine ⟨⟨⟨invalid, inside, repeated⟩, ?_⟩, ?_, distinct⟩
            · intro other member
              obtain ⟨valid, within, _, unseen⟩ := each other member
              exact ⟨valid, within, unseen⟩
            · rintro ⟨other, member, same⟩
              exact (each other member).2.2.1 same
          · rintro ⟨⟨_, each⟩, fresh, distinct⟩
            refine ⟨?_, distinct⟩
            intro other member
            obtain ⟨valid, within, unseen⟩ := each other member
            exact ⟨valid, within, fun same => fresh ⟨other, member, same⟩, unseen⟩

theorem checkSignature_ok_iff {height : Nat} {signingHash : Hash} {entry : ValidatorSignature}
    (inside : entry.signerIndex < activeSet.length) :
    checkSignature crypto state activeSet height signingHash entry = .ok () ↔
      ∃ id key, SignedBy crypto state activeSet height signingHash entry id key := by
  have position : activeSet[entry.signerIndex]? =
      some (activeSet.getD entry.signerIndex INVALID_ID) := by
    rw [List.getD_eq_getElem?_getD, List.getElem?_eq_getElem inside]
    rfl
  unfold checkSignature
  dsimp only
  generalize activeSet.getD entry.signerIndex INVALID_ID = id at position ⊢
  constructor
  · intro accepted
    cases registered : state.getValidator id with
    | none =>
      rw [registered] at accepted
      cases accepted
    | some validator =>
      rw [registered] at accepted
      cases atHeight : state.validatorKeyAtHeight id height with
      | none =>
        rw [atHeight] at accepted
        cases accepted
      | some key =>
        rw [atHeight] at accepted
        dsimp only at accepted
        split at accepted
        next verified => exact ⟨id, key, position, by rw [registered]; rfl, atHeight, verified⟩
        · cases accepted
  · rintro ⟨other, key, otherPosition, registered, atHeight, verified⟩
    cases position.symm.trans otherPosition
    obtain ⟨validator, found⟩ := Option.isSome_iff_exists.mp registered
    rw [found, atHeight]
    dsimp only
    rw [if_pos verified]

theorem checkSignatures_ok_iff {height : Nat} {signingHash : Hash}
    {entries : List ValidatorSignature} :
    checkSignatures crypto state activeSet height signingHash entries = .ok () ↔
      ∀ entry ∈ entries,
        checkSignature crypto state activeSet height signingHash entry = .ok () := by
  induction entries with
  | nil => simp [checkSignatures]
  | cons entry rest ih =>
    unfold checkSignatures
    cases outcome : checkSignature crypto state activeSet height signingHash entry with
    | error error => simp [outcome]
    | ok _ => simp [outcome, ih]

/-- **Accepted certificates.** At least a quorum of signatures, at distinct valid positions of
the set, each by the validator at its position. -/
theorem checkQuorum_ok_iff {block : Block} : checkQuorum crypto state block activeSet = .ok () ↔
      bftQuorum activeSet.length ≤ block.quorumSignatures.length ∧
      (block.quorumSignatures.map ValidatorSignature.signerIndex).Nodup ∧
      ∀ entry ∈ block.quorumSignatures, entry.signerIndex ≠ INVALID_INDEX ∧
        ∃ id key, SignedBy crypto state activeSet block.header.height
          (quorumSigningHash crypto block) entry id key := by
  unfold checkQuorum
  by_cases few : block.quorumSignatures.length < bftQuorum activeSet.length
  · rw [if_pos few]
    simp [Nat.not_le.mpr few]
  · have enough := Nat.le_of_not_lt few
    rw [if_neg few]
    cases indices : checkIndices activeSet.length block.quorumSignatures [] with
    | error error =>
      have refused : ¬checkIndices activeSet.length block.quorumSignatures [] = .ok () := by
        simp [indices]
      rw [checkIndices_ok_iff] at refused
      constructor
      · intro accepted
        cases accepted
      · rintro ⟨_, distinct, each⟩
        refine absurd ⟨?_, distinct⟩ refused
        intro entry member
        obtain ⟨valid, id, key, signed⟩ := each entry member
        exact ⟨valid, (List.getElem?_eq_some_iff.mp signed.position).1, List.not_mem_nil⟩
    | ok _ =>
      obtain ⟨each, distinct⟩ := checkIndices_ok_iff.mp indices
      dsimp only
      rw [checkSignatures_ok_iff]
      constructor
      · intro signatures
        refine ⟨enough, distinct, fun entry member => ⟨(each entry member).1, ?_⟩⟩
        exact (checkSignature_ok_iff (each entry member).2.1).mp (signatures entry member)
      · rintro ⟨_, _, accepted⟩ entry member
        exact (checkSignature_ok_iff (each entry member).2.1).mpr (accepted entry member).2

end Clarity.Core.BlockProcessor
