import Clarity.State.SmtMap
import Clarity.State.SmtProof

/-!
Contract: soundness of Merkle proofs.

Owns: what an accepted proof says about the tree, whatever its fields are. The reconstruction is
followed from the root down: each branch it hashed is the branch the tree has there.
-/

namespace Clarity.State

open Common Crypto Library.PackedBits Library.Patricia SparseMerkleTree

variable {crypto : Primitives} {beyond : Nat → Bool} {messages : List Bytes} {key : Hash}
  {store : SmtStore} {trie : Content} {path rest : List Bool} {proof : SmtProof}

theorem readBit_of_lt {index : Nat} (inside : index < KEY_BITS) (key : Hash) :
    readBit beyond key index = bitAt key index := if_pos inside

theorem sharesPrefixAt_eq {startBit prefixLen : Nat} (prefixBits : Bytes)
    (inside : startBit + prefixLen ≤ KEY_BITS) :
    sharesPrefixAt beyond key startBit prefixLen prefixBits =
      sharesPrefix key startBit prefixLen prefixBits := by
  rw [Bool.eq_iff_iff]
  simp only [sharesPrefixAt, sharesPrefix, List.all_eq_true, List.mem_range, beq_iff_eq]
  constructor
  · intro shares index below
    rw [← shares index below, readBit_of_lt (by omega)]
  · intro shares index below
    rw [← shares index below, readBit_of_lt (by omega)]

theorem siblingMessage_eq (key : Hash) (sibling : ProofSibling) (remainingDepth : Nat) (current : Hash) :
    siblingMessage beyond key sibling remainingDepth current =
      let bit := readBit beyond key (KEY_BITS - remainingDepth + sibling.prefixLen)
      branchMessage sibling.prefixLen sibling.prefixBits (if bit then sibling.hash else current)
        (if bit then current else sibling.hash) := by
  unfold siblingMessage
  dsimp only
  split <;> rfl

/-- A reconstructed branch with the hash of a stored trie is its top node: the way goes on into
one of its children, whose hash is what was reconstructed below. -/
theorem rebuild_descends {sibling : ProofSibling} {current : Hash}
    (collisionFree : CollisionFree crypto messages)
    (treeMessages : store.nodeMessages crypto ⊆ messages) (stored : Stored crypto store trie path)
    (isKey : bits key = path ++ rest) (valid : sibling.isValid = true)
    (fits : ¬ sibling.prefixLen + 1 > rest.length)
    (hashed : siblingMessage beyond key sibling rest.length current ∈ messages)
    (same : rebuild crypto beyond key sibling rest.length current = some (hashOf crypto trie)) :
    ∃ stem left right bit later, trie = .branch stem left right ∧ rest = stem ++ bit :: later ∧
      sibling.prefixLen = stem.length ∧ current = hashOf crypto (Trie.child bit left right) := by
  have start := startBit_eq isKey
  have length := length_of_bits isKey
  unfold rebuild at same
  simp only [start] at same
  rw [sharesPrefixAt_eq _ (by omega)] at same
  split at same
  next => cases same
  next shares =>
    split at same
    next => cases same
    next =>
      have sameHash := Option.some.inj same
      rw [hashOf_eq] at sameHash
      have sameTop := collisionFree _ hashed _ (treeMessages (nodeMessage_mem stored.top)) sameHash
      rw [siblingMessage_eq] at sameTop
      cases trie with
      | leaf suffix entry => exact absurd sameTop.symm (leafMessage_ne_branchMessage _ _ _ _ _ _)
      | branch stem left right =>
        have inside := stored.stem_lt
        obtain ⟨isLen, isBits, isLeft, isRight⟩ :=
          branchMessage_injective (by
            simp only [ProofSibling.isValid, Bool.and_eq_true, decide_eq_true_eq] at valid
            exact ⟨valid.1, valid.2⟩) (wellSized_pack (by omega)) sameTop
        obtain ⟨_, ⟨_, _, _, diverges⟩ | ⟨bit, later, isRest, _⟩⟩ := stored.branch_cases isKey
        · rw [isLen, isBits, diverges] at shares
          exact absurd rfl shares
        · refine ⟨stem, left, right, bit, later, rfl, isRest, isLen, ?_⟩
          rw [isRest] at isKey
          have isBit : readBit beyond key (KEY_BITS - rest.length + sibling.prefixLen) = bit := by
            rw [start, isLen, readBit_of_lt inside]
            exact (bitAt_fork isKey).1
          rw [isBit] at isLeft isRight
          cases bit
          · exact isLeft
          · exact isRight

/-- A reconstruction that ends at the hash of a stored trie starts at the hash of one of its
subtrees, on the way of the key. -/
theorem reconstruct_reaches {siblings : List ProofSibling} {depths : List Nat} {terminal : Hash}
    (collisionFree : CollisionFree crypto messages)
    (treeMessages : store.nodeMessages crypto ⊆ messages) (stored : Stored crypto store trie path)
    (isKey : bits key = path ++ rest) (valid : ∀ sibling ∈ siblings, sibling.isValid = true)
    (isDepths : siblingDepths rest.length siblings = some depths)
    (hashed : climbMessages crypto beyond key terminal (siblings.zip depths) ⊆ messages)
    (same : reconstruct crypto beyond key terminal (siblings.zip depths) = some (hashOf crypto trie)) :
    ∃ below belowPath belowRest, Stored crypto store below belowPath ∧
      bits key = belowPath ++ belowRest ∧ hashOf crypto below = terminal ∧
      trie.lookup rest = below.lookup belowRest ∧
      startBitOf path.length siblings = some belowPath.length := by
  induction siblings generalizing trie path rest depths with
  | nil =>
    cases isDepths
    exact ⟨trie, path, rest, stored, isKey, (Option.some.inj same).symm, rfl, rfl⟩
  | cons sibling siblings ih =>
    unfold siblingDepths at isDepths
    split at isDepths
    next => cases isDepths
    next fits =>
      obtain ⟨later, isLater, isCons⟩ := Option.map_eq_some_iff.mp isDepths
      subst isCons
      rw [List.zip_cons_cons] at hashed same
      rw [reconstruct] at same
      obtain ⟨current, isCurrent, isRebuilt⟩ := Option.bind_eq_some_iff.mp same
      rw [climbMessages, isCurrent] at hashed
      obtain ⟨stem, left, right, bit, tail, isTrie, isRest, isLen, isChild⟩ :=
        rebuild_descends collisionFree treeMessages stored isKey (valid _ List.mem_cons_self) fits
          (hashed List.mem_cons_self) isRebuilt
      subst isTrie isRest
      have shorter : (stem ++ bit :: tail).length - (sibling.prefixLen + 1) = tail.length := by
        rw [List.length_append, List.length_cons, isLen]
        omega
      rw [shorter] at isLater
      rw [isChild] at isCurrent
      obtain ⟨below, belowPath, belowRest, belowStored, belowKey, isTerminal, isLookup, isStart⟩ :=
        ih (stored.child bit) (isKey.trans (by simp))
          (fun other member => valid other (List.mem_cons_of_mem _ member)) isLater
          (fun message member => hashed (List.mem_cons_of_mem _ member)) isCurrent
      refine ⟨below, belowPath, belowRest, belowStored, belowKey, isTerminal, ?_, ?_⟩
      · rw [Trie.lookup_branch]
        exact isLookup
      · have inside := stored.stem_lt
        rw [startBitOf, isLen, if_neg (by omega), ← isStart]
        simp

theorem verifyProof_eq_true {root : Hash} (accepted : verifyProof crypto beyond root proof = true) :
    proof.terminalValid beyond (startBitOf 0 proof.siblings) = true ∧ (∀ sibling ∈ proof.siblings, sibling.isValid = true) ∧
      ∃ terminal depths, terminalHash crypto proof = some terminal ∧
        siblingDepths KEY_BITS proof.siblings = some depths ∧
        reconstruct crypto beyond proof.key terminal (proof.siblings.zip depths) = some root := by
  unfold verifyProof at accepted
  split at accepted
  next => cases accepted
  next valid =>
    simp only [SmtProof.isValid, Bool.not_eq_false, Bool.and_eq_true, List.all_eq_true] at valid
    split at accepted
    next terminal depths isTerminal isDepths =>
      exact ⟨valid.1.2, valid.2, terminal, depths, isTerminal, isDepths, of_decide_eq_true accepted⟩
    next => cases accepted

section

variable (collisionFree : CollisionFree crypto messages)

include collisionFree

/-- A stored trie with the hash of a leaf message is that leaf. -/
theorem leaf_of_hash {valueHash : Hash}
    (treeMessages : store.nodeMessages crypto ⊆ messages) (stored : Stored crypto store trie path)
    (hashed : leafMessage key valueHash ∈ messages)
    (same : hashLeaf crypto key valueHash = hashOf crypto trie) :
    ∃ suffix value, trie = .leaf suffix (key, value) ∧ valueHash = crypto.blake2b value := by
  rw [hashOf_eq] at same
  have sameTop := collisionFree _ hashed _ (treeMessages (nodeMessage_mem stored.top)) same
  cases trie with
  | leaf suffix entry =>
    obtain ⟨isKey, isHash⟩ := leafMessage_injective sameTop
    exact ⟨suffix, entry.2, by rw [isKey], isHash⟩
  | branch stem left right => exact absurd sameTop (leafMessage_ne_branchMessage _ _ _ _ _ _)

/-- What the terminal of an accepted proof says about the subtree the way ends in. -/
theorem terminal_sound
    (treeMessages : store.nodeMessages crypto ++ store.values ⊆ messages)
    (genuine : Genuine crypto store) (stored : Stored crypto store trie path)
    (isKey : bits proof.key = path ++ rest)
    (valid : proof.terminalValid beyond (some path.length) = true)
    (hashed : terminalMessages crypto proof ⊆ messages)
    (same : terminalHash crypto proof = some (hashOf crypto trie)) :
    (proof.isInclusion = true →
        ∃ value, proof.value = some value ∧ trie.lookup rest = some (proof.key, value)) ∧
      (proof.isInclusion = false → trie.lookup rest = none) := by
  have nodes : store.nodeMessages crypto ⊆ messages :=
    List.Subset.trans (List.subset_append_left _ _) treeMessages
  unfold SmtProof.isInclusion
  unfold SmtProof.terminalValid at valid
  unfold terminalMessages at hashed
  unfold terminalHash at same
  cases kind : proof.terminalKind with
  | inclusion =>
    rw [kind] at hashed same
    refine ⟨fun _ => ?_, fun notInclusion => by simp at notInclusion⟩
    cases isValue : proof.value with
    | none =>
      rw [isValue] at same
      cases same
    | some value =>
      rw [isValue] at hashed same
      obtain ⟨suffix, held, isLeaf, sameHash⟩ := leaf_of_hash collisionFree nodes stored
        (hashed (by simp)) (Option.some.inj same)
      subst isLeaf
      have sameValue : value = held := collisionFree _ (hashed List.mem_cons_self) _
        (treeMessages (List.mem_append_right _ (value_mem stored.2.2))) sameHash
      have isSuffix : suffix = rest := by
        have isOld : bits proof.key = path ++ suffix := stored.1
        rw [isKey] at isOld
        exact (List.append_cancel_left isOld).symm
      refine ⟨value, rfl, ?_⟩
      rw [Trie.lookup_leaf, if_pos isSuffix, sameValue]
  | default =>
    rw [kind] at same
    exact absurd (Option.some.inj same).symm
      (hash_ne_default genuine (collisionFree.subset nodes) stored.top _)
  | differentLeaf =>
    rw [kind] at hashed same valid
    refine ⟨fun isInclusion => by simp at isInclusion, fun _ => ?_⟩
    obtain ⟨suffix, held, isLeaf, _⟩ := leaf_of_hash collisionFree nodes stored
      (hashed List.mem_cons_self) (Option.some.inj same)
    subst isLeaf
    rw [Trie.lookup_leaf, if_neg]
    intro isSuffix
    have isOld : bits proof.divergentLeafKey = path ++ suffix := stored.1
    rw [isSuffix, ← isKey] at isOld
    exact of_decide_eq_true valid (bits_injective isOld)
  | divergentBranch =>
    rw [kind] at hashed same valid
    refine ⟨fun isInclusion => by simp at isInclusion, fun _ => ?_⟩
    simp only [Bool.and_eq_true, decide_eq_true_eq] at valid
    obtain ⟨⟨bounded, sized⟩, diverges⟩ := valid
    have sameHash := Option.some.inj same
    rw [hashOf_eq] at sameHash
    have sameTop := collisionFree _ (hashed List.mem_cons_self) _
      (nodes (nodeMessage_mem stored.top)) sameHash
    cases trie with
    | leaf suffix entry => exact absurd sameTop.symm (leafMessage_ne_branchMessage _ _ _ _ _ _)
    | branch stem left right =>
      have inside := stored.stem_lt
      obtain ⟨isLen, isBits, _, _⟩ :=
        branchMessage_injective ⟨bounded, sized⟩ (wellSized_pack (by omega)) sameTop
      rw [isLen, isBits, sharesPrefixAt_eq _ (by omega)] at diverges
      obtain ⟨_, ⟨_, _, outside, _⟩ | ⟨_, _, _, goesOn⟩⟩ := stored.branch_cases isKey
      · exact Trie.lookup_branch_of_strip outside
      · exact absurd (Bool.not_eq_eq_eq_not.mp diverges) goesOn
  | unknown code =>
    rw [kind] at same
    cases same

/-- No branch and no leaf has the hash of an empty subtree: a proof against the empty tree has no
siblings and the default terminal. -/
theorem empty_sound {terminal : Hash} {depths : List Nat} (defaults : defaultMessages crypto ⊆ messages)
    (isTerminal : terminalHash crypto proof = some terminal)
    (hashed : terminalMessages crypto proof ⊆ messages)
    (climbed : climbMessages crypto beyond proof.key terminal (proof.siblings.zip depths) ⊆ messages)
    (same : reconstruct crypto beyond proof.key terminal (proof.siblings.zip depths) =
      some (defaultHash crypto KEY_BITS)) : proof.isInclusion = false := by
  have isDefault : defaultMessage crypto (min KEY_BITS KEY_BITS) ∈ messages :=
    defaults (List.mem_map.mpr ⟨_, List.mem_range.mpr (by omega), rfl⟩)
  cases steps : proof.siblings.zip depths with
  | nil =>
    rw [steps] at same
    have isRoot : terminal = defaultHash crypto KEY_BITS := Option.some.inj same
    unfold SmtProof.isInclusion
    unfold terminalHash at isTerminal
    unfold terminalMessages at hashed
    cases kind : proof.terminalKind with
    | inclusion =>
      rw [kind] at isTerminal hashed
      cases isValue : proof.value with
      | none =>
        rw [isValue] at isTerminal
        cases isTerminal
      | some value =>
        rw [isValue] at isTerminal hashed
        have sameHash := (Option.some.inj isTerminal).trans isRoot
        have sameMessage := collisionFree _
          (hashed (List.mem_cons_of_mem _ List.mem_cons_self)) _ isDefault sameHash
        exact absurd sameMessage
          (nodeMessage_ne_defaultMessage crypto (leafBytes _ _) _)
    | default => rfl
    | differentLeaf => rfl
    | divergentBranch => rfl
    | unknown code => rfl
  | cons step below =>
    obtain ⟨sibling, remainingDepth⟩ := step
    rw [steps] at same climbed
    rw [reconstruct] at same
    obtain ⟨current, isCurrent, isRebuilt⟩ := Option.bind_eq_some_iff.mp same
    rw [climbMessages, isCurrent] at climbed
    unfold rebuild at isRebuilt
    dsimp only at isRebuilt
    split at isRebuilt
    next => cases isRebuilt
    next =>
      split at isRebuilt
      next => cases isRebuilt
      next =>
        have sameMessage := collisionFree _ (climbed List.mem_cons_self) _ isDefault
          (Option.some.inj isRebuilt)
        rw [siblingMessage_eq] at sameMessage
        exact absurd sameMessage (nodeMessage_ne_defaultMessage crypto (branchBytes _ _ _ _) _)

end

/-- An accepted proof tells the truth: an inclusion proof carries the value the tree has under the
key, and any other proof is about a key the tree does not have. -/
theorem verifyProof_sound (crypto : Primitives) (beyond : Nat → Bool) (ops : List SmtOp)
    (proof : SmtProof)
    (collisionFree : CollisionFree crypto ((run crypto ops).messages crypto ++
      verifierMessages crypto beyond proof))
    (accepted : verifyProof crypto beyond (run crypto ops).root proof = true) :
    (proof.isInclusion = true → ∃ value, proof.value = some value ∧
        (run crypto ops).get crypto proof.key = some value) ∧
      (proof.isInclusion = false →
        (run crypto ops).get crypto proof.key = none) := by
  have treeMessages := List.subset_append_left ((run crypto ops).messages crypto)
    (verifierMessages crypto beyond proof)
  have proofMessages := List.subset_append_right ((run crypto ops).messages crypto)
    (verifierMessages crypto beyond proof)
  have nodes : (run crypto ops).store.nodeMessages crypto ⊆ _ :=
    List.Subset.trans (List.subset_append_left _ _) treeMessages
  have nodesFree := collisionFree.subset nodes
  have represents := represents_run ops nodesFree
  obtain ⟨terminalValid, siblingsValid, terminal, depths, isTerminal, isDepths, isRoot⟩ :=
    verifyProof_eq_true accepted
  have hashed : terminalMessages crypto proof ⊆ _ :=
    List.Subset.trans (List.subset_append_left _ _) proofMessages
  have climbed : climbMessages crypto beyond proof.key terminal (proof.siblings.zip depths) ⊆
      (run crypto ops).messages crypto ++ verifierMessages crypto beyond proof := by
    intro message member
    apply proofMessages
    apply List.mem_append_right
    rw [isTerminal, isDepths]
    exact member
  rw [represents.get nodesFree]
  cases isContent : contentOf ops with
  | none =>
    rw [represents.root, isContent] at isRoot
    have defaults : defaultMessages crypto ⊆ _ :=
      List.Subset.trans (List.subset_append_right _ _) nodes
    have notInclusion := empty_sound collisionFree defaults isTerminal hashed climbed isRoot
    refine ⟨fun isInclusion => ?_, fun _ => rfl⟩
    rw [notInclusion] at isInclusion
    cases isInclusion
  | some held =>
    rw [represents.root, isContent] at isRoot
    have isDepth : siblingDepths (bits proof.key).length proof.siblings = some depths := by
      rw [bits_length]
      exact isDepths
    obtain ⟨below, path, rest, stored, isKey, sameTerminal, isLookup, isStart⟩ :=
      reconstruct_reaches collisionFree nodes (represents.stored held isContent)
        (List.nil_append _).symm siblingsValid isDepth climbed isRoot
    have emptyPath : startBitOf 0 proof.siblings = some path.length := isStart
    rw [← sameTerminal] at isTerminal
    rw [emptyPath] at terminalValid
    obtain ⟨inclusion, absence⟩ := terminal_sound collisionFree treeMessages represents.genuine
      stored isKey terminalValid hashed isTerminal
    have found : Trie.lookupIn (some held) (bits proof.key) = below.lookup rest := isLookup
    rw [found]
    constructor
    · intro isInclusion
      obtain ⟨value, isValue, isEntry⟩ := inclusion isInclusion
      exact ⟨value, isValue, by rw [isEntry]; rfl⟩
    · intro notInclusion
      rw [absence notInclusion]
      rfl

namespace SmallTree

/-- Two keys that share their first six bits. -/
def pair : List SmtOp := [.update 1 [7], .update 2 [8]]

def included : SmtProof :=
  { SmtProof.blank 1
      [{ prefixLen := 6
         prefixBits := [0]
         hash := hashLeaf shortHash 2 (shortHash.blake2b [8]) }] with
    terminalKind := .inclusion
    value := some [7] }

theorem included_sound :
    verifyProof shortHash (fun _ => false) (run shortHash pair).root included = true ∧
      (run shortHash pair).get shortHash 1 = some [7] := by
  have accepted : verifyProof shortHash (fun _ => false) (run shortHash pair).root
      included = true := by decide +kernel
  have free := messages_collisionFree [run shortHash pair]
    (verifierMessages shortHash (fun _ => false) included) (by decide +kernel) (by decide +kernel)
  have sound := verifyProof_sound shortHash (fun _ => false) pair included
    (free.subset (by simp)) accepted
  obtain ⟨value, isValue, isGet⟩ := sound.1 rfl
  cases isValue
  exact ⟨accepted, isGet⟩

end SmallTree

end Clarity.State
