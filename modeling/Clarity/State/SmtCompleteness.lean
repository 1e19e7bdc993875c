import Clarity.State.SmtSoundness

/-!
Contract: completeness of Merkle proofs.

Owns: that every key of every tree has a proof that is accepted, and that it tells whether the key
is there.
-/

namespace Clarity.State

open Common Crypto Library.PackedBits Library.Patricia SparseMerkleTree

variable {crypto : Primitives} {beyond elsewhere : Nat → Bool}

/-- A proof that was found in a trie below `path`, with the siblings it collected there: it is
accepted from there on, and it tells what the trie holds. -/
structure Opens (crypto : Primitives) (beyond : Nat → Bool) (trie : Content) (path rest : List Bool)
    (proof : SmtProof) (tail : List ProofSibling) : Prop where
  climbs : ∃ terminal depths, terminalHash crypto proof = some terminal ∧
    siblingDepths rest.length tail = some depths ∧
    reconstruct crypto beyond proof.key terminal (tail.zip depths) = some (hashOf crypto trie)
  terminalValid : proof.terminalValid beyond (startBitOf path.length tail) = true
  siblingsValid : ∀ sibling ∈ tail, sibling.isValid = true
  short : tail.length ≤ rest.length
  isInclusion : proof.isInclusion = (trie.lookup rest).isSome
  value : proof.value = (trie.lookup rest).map Prod.snd

def siblingOf (crypto : Primitives) (stem : List Bool) (bit : Bool) (left right : Content) :
    ProofSibling :=
  { prefixLen := stem.length
    prefixBits := pack stem
    hash := hashOf crypto (Trie.child (!bit) left right) }

section

variable {store : SmtStore} {key : Hash} {path rest : List Bool} {fuel : Nat}

theorem proveFromRoot_leaf {suffix : List Bool} {entry : Hash × Bytes}
    (stored : Stored crypto store (.leaf suffix entry) path) (genuine : Genuine crypto store)
    (collisionFree : CollisionFree crypto (store.nodeMessages crypto))
    (isKey : bits key = path ++ rest) (siblings : List ProofSibling) :
    ∃ proof, proveFromRoot crypto elsewhere store key (fuel + 1) (hashOf crypto (.leaf suffix entry))
        rest.length siblings = some proof ∧ proof.key = key ∧ proof.siblings = siblings ∧
      Opens crypto beyond (.leaf suffix entry) path rest proof [] := by
  have different := hash_ne_default genuine collisionFree stored.top rest.length
  have read := getNode_of_mem genuine collisionFree stored.top
  obtain ⟨isOld, _, isValue⟩ := stored
  obtain ⟨keyField, valueField⟩ := leafBytes_fields entry.1 (crypto.blake2b entry.2)
  rw [proveFromRoot]
  simp only [if_neg different, read, topBytes, leafBytes_head, if_true, leafBytes_length, keyField,
    valueField, isValue]
  by_cases sameKey : entry.1 = key
  · have isSuffix := (suffix_eq_iff isOld isKey).mpr sameKey
    simp only [if_pos sameKey]
    refine ⟨_, rfl, rfl, rfl, ⟨⟨_, [], rfl, rfl, ?_⟩, rfl, ?_, Nat.zero_le _, ?_, ?_⟩⟩
    · show some (hashLeaf crypto key (crypto.blake2b entry.2)) = _
      rw [← sameKey]
      rfl
    · intro sibling member
      cases member
    · rw [Trie.lookup_leaf, if_pos isSuffix]
      rfl
    · rw [Trie.lookup_leaf, if_pos isSuffix]
      rfl
  · have isSuffix := (suffix_eq_iff isOld isKey).not.mpr sameKey
    simp only [if_neg sameKey]
    refine ⟨_, rfl, rfl, rfl, ⟨⟨_, [], rfl, rfl, rfl⟩, decide_eq_true sameKey, ?_, Nat.zero_le _, ?_, ?_⟩⟩
    · intro sibling member
      cases member
    · rw [Trie.lookup_leaf, if_neg isSuffix]
      rfl
    · rw [Trie.lookup_leaf, if_neg isSuffix]
      rfl

/-- `proveFromRoot` at a stored branch. -/
theorem proveFromRoot_branch {stem : List Bool} {left right : Content}
    (stored : Stored crypto store (.branch stem left right) path) (genuine : Genuine crypto store)
    (collisionFree : CollisionFree crypto (store.nodeMessages crypto))
    (isKey : bits key = path ++ rest) (siblings : List ProofSibling) :
    proveFromRoot crypto elsewhere store key (fuel + 1) (hashOf crypto (.branch stem left right))
        rest.length siblings =
      if sharesPrefix key path.length stem.length (pack stem) = false then
        some
          { SmtProof.blank key siblings with
            terminalKind := .divergentBranch
            divergentBranchPrefixLen := stem.length
            divergentBranchPrefixBits := pack stem
            divergentBranchLeft := hashOf crypto left
            divergentBranchRight := hashOf crypto right }
      else
        let bit := bitAt key (path.length + stem.length)
        proveFromRoot crypto elsewhere store key fuel (hashOf crypto (Trie.child bit left right))
          (sub64 rest.length (stem.length + 1)) (siblings ++ [siblingOf crypto stem bit left right]) := by
  have different := hash_ne_default genuine collisionFree stored.top rest.length
  have read := getNode_of_mem genuine collisionFree stored.top
  have inside := stored.stem_lt
  have length := length_of_bits isKey
  have wellSized := wellSized_pack (stored.branch_cases isKey).1
  have isBranch : ¬ some TAG_BRANCH = some TAG_LEAF := by decide
  have bytesLength := branchBytes_length wellSized (hashOf crypto left) (hashOf crypto right)
  have notShort : ¬ 1 + 2 + byteCount stem.length + 32 + 32 < 1 + 2 + 32 + 32 := by omega
  have notDeep : ¬ stem.length > rest.length := by omega
  obtain ⟨isLen, isBits, isLeft, isRight⟩ :=
    branchBytes_fields wellSized (hashOf crypto left) (hashOf crypto right)
  rw [proveFromRoot]
  simp only [if_neg different, read, topBytes, branchBytes_head, if_neg isBranch, ne_eq,
    not_true_eq_false, if_false, isLen, if_neg notDeep, bytesLength, if_neg notShort, isBits, isLeft,
    isRight, startBit_eq isKey, sharesPrefixAt_eq _ (Nat.le_of_lt inside), readBit_of_lt inside]
  cases bitAt key (path.length + stem.length) <;> rfl

theorem Opens.cons {stem later : List Bool} {bit : Bool} {left right : Content} {proof : SmtProof}
    {tail : List ProofSibling} (isKey : bits proof.key = path ++ (stem ++ bit :: later))
    (goesOn : ¬ sharesPrefix proof.key path.length stem.length (pack stem) = false)
    (opens : Opens crypto beyond (Trie.child bit left right) (path ++ stem ++ [bit]) later proof tail) :
    Opens crypto beyond (.branch stem left right) path (stem ++ bit :: later) proof
      (siblingOf crypto stem bit left right :: tail) := by
  have length := congrArg List.length isKey
  simp only [bits_length, List.length_append, List.length_cons] at length
  have start := startBit_eq isKey
  have isLen : (siblingOf crypto stem bit left right).prefixLen = stem.length := rfl
  have isBits : (siblingOf crypto stem bit left right).prefixBits = pack stem := rfl
  obtain ⟨⟨terminal, depths, isTerminal, isDepths, isChild⟩, terminalValid, siblingsValid, short,
    isInclusion, isValue⟩ := opens
  have restLength : (stem ++ bit :: later).length = stem.length + 1 + later.length := by
    rw [List.length_append, List.length_cons]
    omega
  refine ⟨⟨terminal, (stem ++ bit :: later).length :: depths, isTerminal, ?_, ?_⟩, ?_, ?_, ?_, ?_, ?_⟩
  · rw [siblingDepths, isLen, if_neg (by omega), restLength, Nat.add_sub_cancel_left, isDepths]
    rfl
  · rw [List.zip_cons_cons, reconstruct, isChild, Option.bind_some]
    unfold rebuild
    rw [siblingMessage_eq]
    simp only [start, isLen, isBits]
    rw [sharesPrefixAt_eq _ (by omega), readBit_of_lt (by omega), (bitAt_fork isKey).1,
      if_neg goesOn, if_neg (by omega)]
    cases bit <;> rfl
  · rw [startBitOf, isLen, if_neg (by omega)]
    have moved : path.length + (stem.length + 1) = (path ++ stem ++ [bit]).length := by
      simp only [List.length_append, List.length_singleton]
      omega
    rw [moved]
    exact terminalValid
  · intro sibling member
    rcases List.mem_cons.mp member with isNew | isOld
    · rw [isNew]
      simp only [ProofSibling.isValid, isLen, isBits, pack_length, Bool.and_eq_true, decide_eq_true_eq]
      exact ⟨by omega, trivial⟩
    · exact siblingsValid sibling isOld
  · rw [List.length_cons, restLength]
    omega
  · rw [Trie.lookup_branch, isInclusion]
  · rw [Trie.lookup_branch, isValue]

end

theorem proveFromRoot_opens {store : SmtStore} {key : Hash} {trie : Content} {path rest : List Bool}
    {fuel : Nat} (stored : Stored crypto store trie path) (genuine : Genuine crypto store)
    (collisionFree : CollisionFree crypto (store.nodeMessages crypto))
    (isKey : bits key = path ++ rest) (enough : rest.length < fuel) (siblings : List ProofSibling) :
    ∃ proof tail, proveFromRoot crypto elsewhere store key fuel (hashOf crypto trie) rest.length
        siblings = some proof ∧ proof.key = key ∧ proof.siblings = siblings ++ tail ∧
      Opens crypto beyond trie path rest proof tail := by
  induction trie using Trie.sides generalizing path rest fuel siblings with
  | leaf suffix entry =>
    rcases fuel with _ | fuel
    · omega
    obtain ⟨proof, isProof, proofKey, isSiblings, opens⟩ :=
      @proveFromRoot_leaf crypto beyond elsewhere store key path rest fuel suffix entry stored
        genuine collisionFree isKey siblings
    exact ⟨proof, [], isProof, proofKey, by rw [isSiblings, List.append_nil], opens⟩
  | branch stem left right ih =>
    rcases fuel with _ | fuel
    · omega
    rw [proveFromRoot_branch stored genuine collisionFree isKey]
    have inside := stored.stem_lt
    obtain ⟨bounded, ⟨_, _, outside, diverges⟩ | ⟨bit, later, isRest, goesOn⟩⟩ :=
      stored.branch_cases isKey
    · rw [if_pos diverges]
      have absent : (Trie.branch stem left right).lookup rest = none :=
        Trie.lookup_branch_of_strip outside
      refine ⟨_, [], rfl, rfl, (List.append_nil _).symm, ⟨⟨_, [], rfl, rfl, rfl⟩, ?_, ?_,
        Nat.zero_le _, ?_, ?_⟩⟩
      · simp only [SmtProof.terminalValid, startBitOf, pack_length, SmtProof.blank,
          sharesPrefixAt_eq _ (Nat.le_of_lt inside), diverges, Bool.and_eq_true,
          decide_eq_true_eq]
        exact ⟨⟨bounded, trivial⟩, rfl⟩
      · intro sibling member
        cases member
      · rw [absent]
        rfl
      · rw [absent]
        rfl
    · subst isRest
      have childDepth : sub64 (stem ++ bit :: later).length (stem.length + 1) = later.length := by
        have length := congrArg List.length isKey
        simp only [bits_length, List.length_append, List.length_cons] at length ⊢
        unfold KEY_BITS at length
        unfold sub64
        omega
      have shorter := shorter_below enough
      rw [if_neg goesOn]
      simp only [(bitAt_fork isKey).1, childDepth]
      obtain ⟨proof, tail, isProof, proofKey, isSiblings, opens⟩ :=
        ih bit (stored.child bit) (below_key isKey) shorter
          (siblings ++ [siblingOf crypto stem bit left right])
      refine ⟨proof, _ :: tail, isProof, proofKey, ?_, opens.cons (proofKey ▸ isKey)
        (proofKey ▸ goesOn)⟩
      rw [isSiblings, List.append_assoc, List.singleton_append]

theorem Opens.verifyProof {trie : Content} {proof : SmtProof}
    (opens : Opens crypto beyond trie [] (bits proof.key) proof proof.siblings) :
    verifyProof crypto beyond (hashOf crypto trie) proof = true := by
  obtain ⟨⟨terminal, depths, isTerminal, isDepths, isRoot⟩, terminalValid, siblingsValid, short, _, _⟩ :=
    opens
  rw [bits_length] at isDepths short
  have valid : proof.isValid beyond = true := by
    simp only [SmtProof.isValid, Bool.and_eq_true, decide_eq_true_eq, List.all_eq_true]
    exact ⟨⟨short, terminalValid⟩, siblingsValid⟩
  have notInvalid : ¬ proof.isValid beyond = false := by
    rw [valid]
    decide
  rw [State.verifyProof, if_neg notInvalid, isTerminal, isDepths]
  exact decide_eq_true isRoot

/-- Every key of every tree has a proof that is accepted, and it is an inclusion proof with the
value exactly when the tree has the key. -/
theorem prove_complete (crypto : Primitives) (beyond elsewhere : Nat → Bool) (ops : List SmtOp)
    (key : Hash)
    (collisionFree : CollisionFree crypto ((run crypto ops).store.nodeMessages crypto)) :
    ∃ proof, prove crypto elsewhere (run crypto ops) key = some proof ∧
      proof.key = key ∧
      verifyProof crypto beyond (run crypto ops).root proof = true ∧
      (proof.isInclusion = true ↔ ((run crypto ops).get crypto key).isSome = true) ∧
      proof.value = (run crypto ops).get crypto key := by
  have represents := represents_run ops collisionFree
  have isRoot := represents.root
  rw [represents.get collisionFree]
  cases isContent : contentOf ops with
  | none =>
    rw [isContent] at isRoot
    have isDefault : (run crypto ops).root = defaultHash crypto KEY_BITS := isRoot
    refine ⟨SmtProof.blank key [], ?_, rfl, ?_, ?_, rfl⟩
    · rw [prove, proveFromRoot]
      simp only [if_pos isDefault]
    · rw [isDefault]
      simp [verifyProof, SmtProof.isValid, SmtProof.terminalValid, SmtProof.blank, terminalHash,
        siblingDepths, reconstruct, terminalDepth]
    · simp [SmtProof.isInclusion, SmtProof.blank, Trie.lookupIn]
  | some held =>
    rw [isContent] at isRoot
    have isHash : (run crypto ops).root = hashOf crypto held := isRoot
    obtain ⟨proof, tail, isProof, proofKey, isSiblings, opens⟩ :=
      @proveFromRoot_opens crypto beyond elsewhere _ key held [] (bits key) (KEY_BITS + 1)
        (represents.stored held isContent) represents.genuine collisionFree rfl
        (by rw [bits_length]; omega) []
    subst proofKey
    rw [List.nil_append] at isSiblings
    subst isSiblings
    rw [bits_length, ← isHash] at isProof
    refine ⟨proof, isProof, rfl, ?_, ?_, opens.value⟩
    · rw [isHash]
      exact opens.verifyProof
    · rw [opens.isInclusion, Option.isSome_map]
      rfl

namespace SmallTree

theorem pair_complete :
    ∃ proof, prove shortHash (fun _ => false) (run shortHash pair) 3 = some proof ∧
      verifyProof shortHash (fun _ => true) (run shortHash pair).root proof = true ∧
      proof.isInclusion = false := by
  have free : CollisionFree shortHash
      ((run shortHash pair).store.nodeMessages shortHash) :=
    collisionFree (by decide +kernel) (by decide +kernel)
  obtain ⟨proof, isProof, _, accepted, tells, _⟩ :=
    prove_complete shortHash (fun _ => true) (fun _ => false) pair 3 free
  have absent : (run shortHash pair).get shortHash 3 = none := by decide +kernel
  refine ⟨proof, isProof, accepted, ?_⟩
  rw [absent] at tells
  simpa using tells

end SmallTree

end Clarity.State
