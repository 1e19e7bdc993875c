import Clarity.Library.Patricia
import Clarity.State.SparseMerkleTree
import Mathlib.Logic.Relation

/-!
Contract: the stored nodes of a sparse Merkle tree represent a compressed trie.

Owns:
- `hashOf`, the hash of a trie of keys and values, and `Stored`, that its nodes are in the tables;
- `TableWrites`, the writes of a call one by one, and that the tables only grow;
- that a call does not touch what is stored outside the way of its key.
-/

namespace Clarity.State

open Common Crypto Library.PackedBits Library.Patricia Relation

/-- A trie over the bits of keys; a leaf holds the whole key and the value. -/
abbrev Content := Trie (Hash × Bytes)

variable {crypto : Primitives} {store : SmtStore} {path : List Bool} {trie : Content}

/-! ## Tries as nodes -/

def hashOf (crypto : Primitives) : Content → Hash
  | .leaf _ entry => hashLeaf crypto entry.1 (crypto.blake2b entry.2)
  | .branch stem left right =>
    hashBranch crypto stem.length (pack stem) (hashOf crypto left) (hashOf crypto right)

def rootOf (crypto : Primitives) (depth : Nat) : Option Content → Hash
  | none => defaultHash crypto depth
  | some held => hashOf crypto held

def topBytes (crypto : Primitives) : Content → Bytes
  | .leaf _ entry => leafBytes entry.1 (crypto.blake2b entry.2)
  | .branch stem left right =>
    branchBytes stem.length (pack stem) (hashOf crypto left) (hashOf crypto right)

theorem hashOf_eq (trie : Content) :
    hashOf crypto trie = crypto.blake2b (nodeMessage (topBytes crypto trie)) := by
  cases trie <;> rfl

/-- The nodes of a trie below `path` are in the node table, and its values are what the leaf
table returns. -/
def Stored (crypto : Primitives) (store : SmtStore) : Content → List Bool → Prop
  | .leaf suffix entry, path =>
    bits entry.1 = path ++ suffix ∧
      (hashOf crypto (.leaf suffix entry), topBytes crypto (.leaf suffix entry)) ∈ store.nodes ∧
      store.getLeafData (hashOf crypto (.leaf suffix entry)) = some entry.2
  | .branch stem left right, path =>
    (hashOf crypto (.branch stem left right), topBytes crypto (.branch stem left right)) ∈ store.nodes ∧
      Stored crypto store left (path ++ stem ++ [false]) ∧
      Stored crypto store right (path ++ stem ++ [true])

theorem Stored.top (stored : Stored crypto store trie path) :
    (hashOf crypto trie, topBytes crypto trie) ∈ store.nodes := by
  cases trie with
  | leaf suffix entry => exact stored.2.1
  | branch stem left right => exact stored.1

theorem Stored.child {stem : List Bool} {left right : Content} (bit : Bool)
    (stored : Stored crypto store (.branch stem left right) path) :
    Stored crypto store (Trie.child bit left right) (path ++ stem ++ [bit]) := by
  cases bit
  · exact stored.2.1
  · exact stored.2.2

theorem Stored.exists_key (stored : Stored crypto store trie path) :
    ∃ key rest, bits key = path ++ rest := by
  induction trie using Trie.sides generalizing path with
  | leaf suffix entry => exact ⟨entry.1, suffix, stored.1⟩
  | branch stem left right ih =>
    obtain ⟨key, rest, isKey⟩ := ih false stored.2.1
    exact ⟨key, stem ++ [false] ++ rest, by rw [isKey]; simp⟩

/-- The path, the stem and the bit behind it are within the key. -/
theorem Stored.stem_lt {stem : List Bool} {left right : Content}
    (stored : Stored crypto store (.branch stem left right) path) :
    path.length + stem.length < KEY_BITS := by
  obtain ⟨key, rest, isKey⟩ := stored.2.1.exists_key
  have length := congrArg List.length isKey
  simp only [bits_length, List.length_append, List.length_singleton] at length
  omega

theorem Stored.uniform {depth : Nat} (stored : Stored crypto store trie path)
    (isDepth : path.length + depth = KEY_BITS) : trie.Uniform depth := by
  induction trie using Trie.sides generalizing path depth with
  | leaf suffix entry =>
    have length := length_of_bits stored.1
    show suffix.length = depth
    omega
  | branch stem left right ih =>
    have inside := stored.stem_lt
    have children (bit : Bool) : (Trie.child bit left right).Uniform (depth - (stem.length + 1)) := by
      apply ih bit (stored.child bit)
      simp only [List.length_append, List.length_singleton]
      omega
    exact ⟨_, by omega, children false, children true⟩

theorem Stored.lookup_key {rest : List Bool} {entry : Hash × Bytes}
    (stored : Stored crypto store trie path) (found : trie.lookup rest = some entry) :
    bits entry.1 = path ++ rest := by
  induction trie using Trie.sides generalizing path rest with
  | leaf suffix held =>
    rw [Trie.lookup_leaf] at found
    split at found
    next same =>
      cases found
      rw [← same]
      exact stored.1
    next => cases found
  | branch stem left right ih =>
    rcases Trie.behind_or_outside stem rest with ⟨bit, later, isRest⟩ | outside
    · rw [isRest, Trie.lookup_branch] at found
      rw [ih bit (stored.child bit) found, isRest]
      simp
    · rw [Trie.lookup_branch_of_strip outside] at found
      cases found

theorem wellSized_pack {stem : List Bool} (bounded : stem.length ≤ KEY_BITS) :
    WellSized stem.length (pack stem) :=
  { bounded := bounded, sized := pack_length stem }

/-! ## The tables -/

/-- Every node is stored under its hash. -/
def Genuine (crypto : Primitives) (store : SmtStore) : Prop :=
  ∀ entry ∈ store.nodes, entry.1 = crypto.blake2b (nodeMessage entry.2)

theorem nodeMessage_mem {entry : Hash × Bytes} (member : entry ∈ store.nodes) :
    nodeMessage entry.2 ∈ store.nodeMessages crypto :=
  List.mem_append_left _ (List.mem_map.mpr ⟨entry, member, rfl⟩)

theorem defaultMessage_mem (store : SmtStore) (depth : Nat) :
    defaultMessage crypto (min depth KEY_BITS) ∈ store.nodeMessages crypto := by
  apply List.mem_append_right
  apply List.mem_map.mpr
  exact ⟨min depth KEY_BITS, List.mem_range.mpr (by omega), rfl⟩

theorem getNode_of_mem {hash : Hash} {bytes : Bytes} (genuine : Genuine crypto store)
    (collisionFree : CollisionFree crypto (store.nodeMessages crypto))
    (member : (hash, bytes) ∈ store.nodes) : store.getNode hash = some bytes := by
  unfold SmtStore.getNode
  cases found : store.nodes.lookup hash with
  | none =>
    have absent := List.lookup_eq_none_iff.mp found (hash, bytes) member
    simp at absent
  | some other =>
    obtain ⟨before, after, isNodes, _⟩ := List.lookup_eq_some_iff.mp found
    have otherMember : (hash, other) ∈ store.nodes := by
      rw [isNodes]
      simp
    have sameHash : crypto.blake2b (nodeMessage other) = crypto.blake2b (nodeMessage bytes) :=
      (genuine _ otherMember).symm.trans (genuine _ member)
    have same := collisionFree _ (nodeMessage_mem otherMember) _ (nodeMessage_mem member) sameHash
    exact congrArg some (nodeMessage_injective same)

/-- A stored node is not the empty subtree of any depth. -/
theorem hash_ne_default {hash : Hash} {bytes : Bytes} (genuine : Genuine crypto store)
    (collisionFree : CollisionFree crypto (store.nodeMessages crypto))
    (member : (hash, bytes) ∈ store.nodes) (depth : Nat) : hash ≠ defaultHash crypto depth := by
  intro isDefault
  have sameHash : crypto.blake2b (nodeMessage bytes) =
      crypto.blake2b (defaultMessage crypto (min depth KEY_BITS)) :=
    (genuine _ member).symm.trans isDefault
  have same := collisionFree _ (nodeMessage_mem member) _ (defaultMessage_mem store depth) sameHash
  exact nodeMessage_ne_defaultMessage crypto bytes _ same

/-! ## What a call writes -/

/-- One write of a call on `key`: a node under its hash, or the call's value under the leaf it was
put in. `content` is what the call leaves under the key. -/
inductive TableWrite (crypto : Primitives) (key : Hash) (content : Option Bytes) :
    SmtStore → SmtStore → Prop
  | node (store : SmtStore) (bytes : Bytes) :
      TableWrite crypto key content store
        (store.putNode (crypto.blake2b (nodeMessage bytes)) bytes)
  | value (store : SmtStore) (value : Bytes) (isContent : content = some value)
      (isNode : (hashLeaf crypto key (crypto.blake2b value), leafBytes key (crypto.blake2b value)) ∈
        store.nodes) :
      TableWrite crypto key content store
        (store.putLeafData (hashLeaf crypto key (crypto.blake2b value)) value)

/-- The writes of a call, in order. -/
abbrev TableWrites (crypto : Primitives) (key : Hash) (content : Option Bytes) :
    SmtStore → SmtStore → Prop :=
  ReflTransGen (TableWrite crypto key content)

namespace TableWrites

variable {key : Hash} {content : Option Bytes} {before middle after store : SmtStore}

theorem makeLeaf (store : SmtStore) (leafKey valueHash : Hash) :
    TableWrites crypto key content store (makeLeaf crypto store leafKey valueHash).2 :=
  .single (.node store (leafBytes leafKey valueHash))

theorem makeBranch (store : SmtStore) (prefixLen : Nat) (prefixBits : Bytes) (left right : Hash) :
    TableWrites crypto key content store
      (makeBranch crypto store prefixLen prefixBits left right).2 :=
  .single (.node store (branchBytes prefixLen prefixBits left right))

theorem writeLeaf (store : SmtStore) (value : Bytes) :
    TableWrites crypto key (some value) store (writeLeaf crypto store key value).2 :=
  (makeLeaf store key (crypto.blake2b value)).tail (.value _ value rfl List.mem_cons_self)

theorem rejoin (store : SmtStore) (branch : BranchNode) (newLeft newRight : Hash)
    (remainingDepth childRemaining : Nat) :
    TableWrites crypto key content store
      (rejoin crypto store branch newLeft newRight remainingDepth childRemaining).2 := by
  have keep : TableWrites crypto key content store
      (State.makeBranch crypto store branch.prefixLen branch.prefixBits newLeft newRight).2 :=
    makeBranch store _ _ _ _
  unfold State.rejoin
  dsimp only
  split
  · exact .refl
  · split
    · split
      · exact keep
      · split
        · exact .refl
        · split
          · split
            · exact keep
            · exact makeBranch store _ _ _ _
          · exact keep
    · exact keep

/-- A deletion writes no value. -/
theorem updateRecursive {value : Bytes} {isDelete : Bool}
    (isContent : isDelete = false → content = some value) (fuel : Nat) (store : SmtStore)
    (nodeHash : Hash) (remainingDepth : Nat) :
    TableWrites crypto key content store
      (updateRecursive crypto key value isDelete fuel store nodeHash remainingDepth).2 := by
  induction fuel generalizing store nodeHash remainingDepth with
  | zero => exact .refl
  | succ fuel ih =>
    have replaced : TableWrites crypto key content store
        (if isDelete then (defaultHash crypto remainingDepth, store)
          else State.writeLeaf crypto store key value).2 := by
      cases isDelete
      · rw [isContent rfl]
        exact writeLeaf store value
      · exact .refl
    unfold State.updateRecursive
    dsimp only
    split
    · exact replaced
    · split
      · exact replaced
      · split
        · split
          · exact replaced
          · split
            · exact replaced
            · cases isDelete
              · rw [isContent rfl]
                change TableWrites crypto key (some value) store
                  (State.splitLeaf crypto store _ key value remainingDepth).2
                unfold State.splitLeaf
                dsimp only
                split
                · exact writeLeaf store value
                · exact ((makeLeaf store _ _).trans (writeLeaf _ value)).trans
                    (makeBranch _ _ _ _ _)
              · exact makeLeaf store _ _
        · split
          · exact replaced
          · split
            · cases isDelete
              · rw [isContent rfl]
                exact ((makeBranch store _ _ _ _).trans (writeLeaf _ value)).trans
                  (makeBranch _ _ _ _ _)
              · exact makeBranch store _ _ _ _
            · exact (ih store _ _).trans (rejoin _ _ _ _ _ _)

/-- The tables are logs: a call adds rows in front, its values under leaves of its key. -/
structure Adds (crypto : Primitives) (key : Hash) (content : Option Bytes)
    (before after : SmtStore) : Prop where
  nodes : ∃ added, after.nodes = added ++ before.nodes
  leaves : ∃ added, after.leaves = added ++ before.leaves ∧ ∀ entry ∈ added,
    content = some entry.2 ∧ entry.1 = hashLeaf crypto key (crypto.blake2b entry.2) ∧
      (entry.1, leafBytes key (crypto.blake2b entry.2)) ∈ after.nodes

theorem adds (writes : TableWrites crypto key content before after) :
    Adds crypto key content before after := by
  induction writes with
  | refl => exact ⟨⟨[], rfl⟩, ⟨[], rfl, fun _ member => absurd member List.not_mem_nil⟩⟩
  | tail _ write ih =>
    obtain ⟨⟨nodes, isNodes⟩, ⟨leaves, isLeaves, ofKey⟩⟩ := ih
    cases write with
    | node bytes =>
      refine ⟨⟨(crypto.blake2b (nodeMessage bytes), bytes) :: nodes, ?_⟩, ⟨leaves, isLeaves, ?_⟩⟩
      · exact congrArg (List.cons _) isNodes
      · intro entry member
        obtain ⟨isContent, isHash, isNode⟩ := ofKey entry member
        exact ⟨isContent, isHash, List.mem_cons_of_mem _ isNode⟩
    | value value isContent isNode =>
      refine ⟨⟨nodes, isNodes⟩,
        ⟨(hashLeaf crypto key (crypto.blake2b value), value) :: leaves, ?_, ?_⟩⟩
      · exact congrArg (List.cons _) isLeaves
      · intro entry member
        rcases List.mem_cons.mp member with isNew | isOld
        · rw [isNew]
          exact ⟨isContent, rfl, isNode⟩
        · exact ofKey entry isOld

theorem genuine (writes : TableWrites crypto key content before after)
    (isGenuine : Genuine crypto before) : Genuine crypto after := by
  induction writes with
  | refl => exact isGenuine
  | tail _ write ih =>
    cases write with
    | node bytes =>
      intro entry member
      rcases List.mem_cons.mp member with isNew | isOld
      · rw [isNew]
      · exact ih entry isOld
    | value value isContent isNode => exact ih

end TableWrites

/-- What a call on `key` does to the tables: nodes are added under their hashes, and values only
to leaves of the key. -/
structure Writes (crypto : Primitives) (key : Hash) (before after : SmtStore) : Prop where
  nodes : before.nodes ⊆ after.nodes
  genuine : Genuine crypto before → Genuine crypto after
  leaves : ∃ added, after.leaves = added ++ before.leaves ∧ ∀ entry ∈ added, ∃ valueHash,
    entry.1 = hashLeaf crypto key valueHash ∧ (entry.1, leafBytes key valueHash) ∈ after.nodes

namespace Writes

variable {key : Hash} {before middle after store : SmtStore}

theorem of_tableWrites {content : Option Bytes}
    (writes : TableWrites crypto key content before after) : Writes crypto key before after := by
  obtain ⟨⟨nodes, isNodes⟩, leaves, isLeaves, ofKey⟩ := writes.adds
  refine ⟨?_, writes.genuine, leaves, isLeaves, fun entry member => ⟨_, (ofKey entry member).2⟩⟩
  rw [isNodes]
  exact List.subset_append_right _ _

theorem nodeMessages (writes : Writes crypto key before after) :
    before.nodeMessages crypto ⊆ after.nodeMessages crypto := by
  intro message member
  rcases List.mem_append.mp member with isNode | isDefault
  · obtain ⟨entry, inBefore, isMessage⟩ := List.mem_map.mp isNode
    exact List.mem_append_left _ (List.mem_map.mpr ⟨entry, writes.nodes inBefore, isMessage⟩)
  · exact List.mem_append_right _ isDefault

end Writes

/-- A trie stays stored when its nodes stay and the values of its leaves do. -/
theorem Stored.mono {before after : SmtStore} (stored : Stored crypto before trie path)
    (nodes : before.nodes ⊆ after.nodes)
    (leaves : ∀ key valueHash, path <+: bits key →
      (hashLeaf crypto key valueHash, leafBytes key valueHash) ∈ before.nodes →
      after.getLeafData (hashLeaf crypto key valueHash) =
        before.getLeafData (hashLeaf crypto key valueHash)) : Stored crypto after trie path := by
  induction trie using Trie.sides generalizing path with
  | leaf suffix entry =>
    obtain ⟨isKey, isNode, isValue⟩ := stored
    refine ⟨isKey, nodes isNode, ?_⟩
    have kept := leaves entry.1 (crypto.blake2b entry.2) ⟨suffix, isKey.symm⟩ isNode
    exact kept.trans isValue
  | branch stem left right ih =>
    have children (bit : Bool) :
        Stored crypto after (Trie.child bit left right) (path ++ stem ++ [bit]) := by
      apply ih bit (stored.child bit)
      intro key valueHash below isLeaf
      exact leaves key valueHash (List.IsPrefix.trans ⟨stem ++ [bit], by simp⟩ below) isLeaf
    exact ⟨nodes stored.1, children false, children true⟩

/-- A call does not touch a subtree its key is not in. -/
theorem Stored.outside {key : Hash} {before after : SmtStore}
    (stored : Stored crypto before trie path) (writes : Writes crypto key before after)
    (collisionFree : CollisionFree crypto (after.nodeMessages crypto))
    (outside : ¬ path <+: bits key) : Stored crypto after trie path := by
  apply stored.mono writes.nodes
  intro other valueHash below isNode
  obtain ⟨added, isAfter, leaves⟩ := writes.leaves
  have absent : added.lookup (hashLeaf crypto other valueHash) = none := by
    apply List.lookup_eq_none_iff.mpr
    intro entry member
    obtain ⟨newHash, isHash, isNew⟩ := leaves entry member
    rw [bne_iff_ne]
    intro sameHash
    rw [isHash] at sameHash
    have same := collisionFree _ (nodeMessage_mem (writes.nodes isNode)) _ (nodeMessage_mem isNew)
      sameHash
    exact outside ((leafMessage_injective same).1 ▸ below)
  unfold SmtStore.getLeafData
  rw [isAfter, List.lookup_append, absent]
  rfl

theorem Stored.putNode (stored : Stored crypto store trie path) (hash : Hash) (bytes : Bytes) :
    Stored crypto (store.putNode hash bytes) trie path :=
  stored.mono (List.subset_cons_of_subset _ (List.Subset.refl _)) fun _ _ _ _ => rfl

end Clarity.State
