import Clarity.State.SmtRefinement
import Mathlib.Data.List.Induction

/-!
Contract: what any sequence of calls on a sparse Merkle tree leaves.

Owns:
- `contentOf`, the trie the calls leave, and that the tables hold it;
- that a read returns the value of the last call on its key;
- that two trees have one root exactly when the calls left the same values;
- `applyBatch`, and when a batch leaves what its calls leave one by one.
-/

namespace Clarity.State

open Common Crypto Library.PackedBits Library.Patricia SparseMerkleTree

variable {crypto : Primitives} {trie : Option Content} {tree : SparseMerkleTree}

/-! ## Runs -/

/-- The tree holds the nodes of a trie that may be empty. -/
structure Represents (crypto : Primitives) (tree : SparseMerkleTree) (trie : Option Content) : Prop where
  root : tree.root = rootOf crypto KEY_BITS trie
  stored : ∀ held ∈ trie, Stored crypto tree.store held []
  genuine : Genuine crypto tree.store

namespace SmtOp

def edit : SmtOp → Option Content → Option Content
  | update key value, none => some (.leaf (bits key) (key, value))
  | update key value, some held => some (held.insert (bits key) (key, value))
  | remove _, none => none
  | remove key, some held => held.delete (bits key)

/-- What a call leaves under its key, with the key. -/
def entry (op : SmtOp) : Option (Hash × Bytes) := op.value.map fun value => (op.key, value)

theorem edit_some (op : SmtOp) (held : Content) :
    op.edit (some held) = held.edit op.entry (bits op.key) := by
  cases op <;> rfl

theorem apply_writes (op : SmtOp) (tree : SparseMerkleTree) :
    Writes crypto op.key tree.store (op.apply crypto tree).store := by
  cases op <;> exact .of_tableWrites (TableWrites.updateRecursive (fun _ => rfl) _ _ _ _)

end SmtOp

/-- A call on a tree that holds a trie. -/
theorem updates_root {held : Content} (isRoot : tree.root = hashOf crypto held)
    (stored : Stored crypto tree.store held []) (genuine : Genuine crypto tree.store) (key : Hash)
    (value : Bytes) (isDelete : Bool)
    (collisionFree : CollisionFree crypto ((updateRecursive crypto key value isDelete (KEY_BITS + 1)
      tree.store tree.root KEY_BITS).2.nodeMessages crypto)) :
    Updates crypto key value isDelete held [] (bits key) tree.store
      (updateRecursive crypto key value isDelete (KEY_BITS + 1) tree.store tree.root KEY_BITS) := by
  have spec := @updateRecursive_updates crypto held tree.store key value [] (bits key) isDelete
    (KEY_BITS + 1) stored genuine rfl (by rw [bits_length]; omega)
  rw [bits_length, ← isRoot] at spec
  exact spec collisionFree

theorem Represents.apply {op : SmtOp} (represents : Represents crypto tree trie)
    (collisionFree : CollisionFree crypto ((op.apply crypto tree).store.nodeMessages crypto)) :
    Represents crypto (op.apply crypto tree) (op.edit trie) := by
  obtain ⟨isRoot, stored, genuine⟩ := represents
  have genuineAfter := (op.apply_writes tree).genuine genuine
  cases trie with
  | none =>
    -- The root is the empty subtree: a leaf is written, or nothing happens.
    have isDefault : tree.root = defaultHash crypto KEY_BITS := isRoot
    cases op with
    | update key value =>
      have steps : (SmtOp.update key value).apply crypto tree =
          { root := (writeLeaf crypto tree.store key value).1,
            store := (writeLeaf crypto tree.store key value).2 } := by
        simp [SmtOp.apply, update, updateRecursive, isDefault]
      have leaves := @writeLeaf_leaves crypto key [] (bits key) tree.store value rfl
      rw [steps] at genuineAfter ⊢
      exact ⟨rfl, leaves.stored, genuineAfter⟩
    | remove key =>
      have steps : (SmtOp.remove key).apply crypto tree =
          { root := defaultHash crypto KEY_BITS, store := tree.store } := by
        simp [SmtOp.apply, remove, updateRecursive, isDefault]
      rw [steps]
      exact ⟨rfl, stored, genuine⟩
  | some held =>
    have updates := @updates_root crypto tree held isRoot (stored held rfl) genuine
    cases op with
    | update key value =>
      obtain ⟨root, held⟩ := (updates key value false collisionFree).leaves
      rw [bits_length] at root
      exact ⟨root, held, genuineAfter⟩
    | remove key =>
      obtain ⟨root, held⟩ := (updates key [] true collisionFree).leaves
      rw [bits_length] at root
      exact ⟨root, held, genuineAfter⟩

def contentOf (ops : List SmtOp) : Option Content := ops.foldl (fun held op => op.edit held) none

theorem contentOf_append (ops : List SmtOp) (op : SmtOp) :
    contentOf (ops ++ [op]) = op.edit (contentOf ops) := by
  simp [contentOf]

theorem run_append (ops : List SmtOp) (op : SmtOp) :
    run crypto (ops ++ [op]) = op.apply crypto (run crypto ops) := by
  simp [run]

theorem lastWrite_append (ops : List SmtOp) (op : SmtOp) (key : Hash) :
    lastWrite (ops ++ [op]) key = if op.key = key then op.value else lastWrite ops key := by
  simp [lastWrite]

/-- After any calls the tables hold the trie the calls leave. -/
theorem represents_run (ops : List SmtOp)
    (collisionFree : CollisionFree crypto ((run crypto ops).store.nodeMessages crypto)) :
    Represents crypto (run crypto ops) (contentOf ops) := by
  induction ops using List.reverseRecOn with
  | nil =>
    refine ⟨rfl, ?_, ?_⟩
    · intro held isHeld
      cases isHeld
    · intro entry member
      cases member
  | append_singleton ops op ih =>
    rw [run_append] at collisionFree ⊢
    rw [contentOf_append]
    have before := collisionFree.subset (op.apply_writes _).nodeMessages
    exact (ih before).apply collisionFree

theorem SmtOp.edit_uniform {op : SmtOp} (uniform : Trie.UniformIn KEY_BITS trie) :
    Trie.UniformIn KEY_BITS (op.edit trie) := by
  cases trie with
  | none =>
    cases op with
    | update key value =>
      intro held isHeld
      cases isHeld
      exact bits_length key
    | remove key => exact uniform
  | some held =>
    rw [op.edit_some]
    exact (uniform held rfl).edit (bits_length op.key)

theorem contentOf_uniform (ops : List SmtOp) : Trie.UniformIn KEY_BITS (contentOf ops) := by
  induction ops using List.reverseRecOn with
  | nil =>
    intro held isHeld
    cases isHeld
  | append_singleton ops op ih =>
    rw [contentOf_append]
    exact SmtOp.edit_uniform ih

theorem SmtOp.lookup_edit {op : SmtOp} (uniform : Trie.UniformIn KEY_BITS trie) (key : Hash) :
    Trie.lookupIn (op.edit trie) (bits key) =
      if op.key = key then op.value.map fun value => (key, value)
      else Trie.lookupIn trie (bits key) := by
  have keys : bits key = bits op.key ↔ op.key = key :=
    ⟨fun same => (bits_injective same).symm, fun same => by rw [same]⟩
  cases trie with
  | none =>
    cases op with
    | update other value =>
      have apart : bits other = bits key ↔ other = key := eq_comm.trans keys
      by_cases same : other = key <;>
        simp [SmtOp.edit, SmtOp.key, SmtOp.value, Trie.lookupIn, Trie.lookup_leaf, apart, same]
    | remove other => simp [SmtOp.edit, SmtOp.value, Trie.lookupIn]
  | some held =>
    have fits : held.Uniform (bits op.key).length := bits_length op.key ▸ uniform held rfl
    rw [op.edit_some, Trie.lookup_edit fits, if_congr keys rfl rfl]
    by_cases same : op.key = key
    · rw [if_pos same, if_pos same, SmtOp.entry, same]
    · rw [if_neg same, if_neg same]
      rfl

/-- The map of the trie is the map of the last writes. -/
theorem lookup_contentOf (ops : List SmtOp) (key : Hash) :
    Trie.lookupIn (contentOf ops) (bits key) = (lastWrite ops key).map fun value => (key, value) := by
  induction ops using List.reverseRecOn with
  | nil => rfl
  | append_singleton ops op ih =>
    rw [contentOf_append, SmtOp.lookup_edit (contentOf_uniform ops), lastWrite_append,
      ih]
    split <;> rfl

theorem Represents.get (represents : Represents crypto tree trie)
    (collisionFree : CollisionFree crypto (tree.store.nodeMessages crypto)) (key : Hash) :
    tree.get crypto key = (Trie.lookupIn trie (bits key)).map Prod.snd := by
  obtain ⟨isRoot, stored, genuine⟩ := represents
  unfold SparseMerkleTree.get
  cases trie with
  | none =>
    have isDefault : tree.root = defaultHash crypto KEY_BITS := isRoot
    rw [getRecursive, if_pos isDefault]
    rfl
  | some held =>
    have isHash : tree.root = hashOf crypto held := isRoot
    have read := @getRecursive_eq_lookup crypto key held [] (bits key) (KEY_BITS + 1) tree.store
      (stored held rfl) genuine rfl (by rw [bits_length]; omega) collisionFree
    rw [bits_length, ← isHash] at read
    exact read

theorem get_run (ops : List SmtOp) (key : Hash)
    (collisionFree : CollisionFree crypto ((run crypto ops).store.nodeMessages crypto)) :
    (run crypto ops).get crypto key = lastWrite ops key := by
  rw [(represents_run ops collisionFree).get collisionFree, lookup_contentOf, Option.map_map]
  exact Option.map_id_fun' ▸ rfl

/-- After any calls a read returns the value of the last call on the key, and a call changes the
read of its own key only. -/
theorem get_eq_last_write (crypto : Primitives) (ops : List SmtOp) (key : Hash)
    (collisionFree : CollisionFree crypto ((run crypto ops).store.nodeMessages crypto)) :
    (run crypto ops).get crypto key = lastWrite ops key ∧
      ∀ earlier op, ops = earlier ++ [op] → op.key ≠ key →
        (run crypto ops).get crypto key =
          (run crypto earlier).get crypto key := by
  refine ⟨get_run ops key collisionFree, ?_⟩
  intro earlier op isOps different
  have before : CollisionFree crypto
      ((run crypto earlier).store.nodeMessages crypto) := by
    rw [isOps, run_append] at collisionFree
    exact collisionFree.subset (op.apply_writes _).nodeMessages
  rw [get_run ops key collisionFree, get_run earlier key before, isOps, lastWrite_append,
    if_neg different]

namespace SmallTree

/-- Two keys are written, one is written again, the other is removed. -/
def rewritten : List SmtOp := [.update 1 [7], .update 2 [8], .update 1 [9], .remove 2]

/-- What the tables of a tree were hashed from, the empty subtrees apart. -/
def ownMessages (tree : SparseMerkleTree) : List Bytes :=
  tree.store.nodes.map (fun entry => nodeMessage entry.2) ++ tree.store.values

theorem messages_collisionFree (trees : List SparseMerkleTree) (more : List Bytes)
    (distinct : CollisionFree shortHash (trees.flatMap ownMessages ++ more))
    (otherDomain : ∀ message ∈ trees.flatMap ownMessages ++ more, (message.head?.getD 0).toNat ≠ 100) :
    CollisionFree shortHash (trees.flatMap (·.messages shortHash) ++ more) := by
  apply (collisionFree distinct otherDomain).subset
  intro message member
  simp only [messages, SmtStore.nodeMessages, ownMessages, List.mem_append,
    List.mem_flatMap] at member ⊢
  rcases member with ⟨tree, inTrees, (node | default) | value⟩ | hashed
  · exact .inl (.inl ⟨tree, inTrees, .inl node⟩)
  · exact .inr default
  · exact .inl (.inl ⟨tree, inTrees, .inr value⟩)
  · exact .inl (.inr hashed)

theorem rewritten_collisionFree :
    CollisionFree shortHash ((run shortHash rewritten).store.nodeMessages shortHash) :=
  collisionFree (by decide +kernel) (by decide +kernel)

theorem rewritten_get : (run shortHash rewritten).get shortHash 1 = some [9] ∧
      (run shortHash rewritten).get shortHash 2 = none :=
  ⟨(get_eq_last_write shortHash rewritten 1 rewritten_collisionFree).1.trans (by decide),
    (get_eq_last_write shortHash rewritten 2 rewritten_collisionFree).1.trans (by decide)⟩

end SmallTree

/-! ## The root determines the map -/

theorem value_mem {store : SmtStore} {hash : Hash} {value : Bytes}
    (found : store.getLeafData hash = some value) : value ∈ store.values := by
  obtain ⟨before, after, isLeaves, _⟩ := List.lookup_eq_some_iff.mp found
  apply List.mem_map.mpr
  refine ⟨(hash, value), ?_, rfl⟩
  rw [isLeaves]
  simp

/-- Two stored tries with one hash are equal, over all messages that were hashed for them. -/
theorem Stored.eq_of_hash_eq {messages : List Bytes} {first second : SmtStore} {trie other : Content}
    {path : List Bool} (collisionFree : CollisionFree crypto messages)
    (firstMessages : first.nodeMessages crypto ++ first.values ⊆ messages)
    (secondMessages : second.nodeMessages crypto ++ second.values ⊆ messages)
    (stored : Stored crypto first trie path) (otherStored : Stored crypto second other path)
    (same : hashOf crypto trie = hashOf crypto other) : trie = other := by
  induction trie using Trie.sides generalizing other path with
  | leaf suffix entry =>
    have sameTop := collisionFree _
      (firstMessages (List.mem_append_left _ (nodeMessage_mem stored.top))) _
      (secondMessages (List.mem_append_left _ (nodeMessage_mem otherStored.top)))
      (hashOf_eq _ ▸ hashOf_eq other ▸ same)
    cases other with
    | leaf otherSuffix otherEntry =>
      obtain ⟨sameKey, sameHash⟩ := leafMessage_injective sameTop
      obtain ⟨isKey, _, isValue⟩ := stored
      obtain ⟨isOtherKey, _, isOtherValue⟩ := otherStored
      have sameValue : entry.2 = otherEntry.2 :=
        collisionFree _ (firstMessages (List.mem_append_right _ (value_mem isValue))) _
          (secondMessages (List.mem_append_right _ (value_mem isOtherValue))) sameHash
      have sameSuffix : suffix = otherSuffix := by
        rw [← sameKey, isKey] at isOtherKey
        exact List.append_cancel_left isOtherKey
      rw [sameSuffix, Prod.ext sameKey sameValue]
    | branch stem left right => exact absurd sameTop (leafMessage_ne_branchMessage _ _ _ _ _ _)
  | branch stem left right ih =>
    have sameTop := collisionFree _
      (firstMessages (List.mem_append_left _ (nodeMessage_mem stored.top))) _
      (secondMessages (List.mem_append_left _ (nodeMessage_mem otherStored.top)))
      (hashOf_eq _ ▸ hashOf_eq other ▸ same)
    cases other with
    | leaf suffix entry => exact absurd sameTop.symm (leafMessage_ne_branchMessage _ _ _ _ _ _)
    | branch otherStem otherLeft otherRight =>
      have inside := stored.stem_lt
      have otherInside := otherStored.stem_lt
      obtain ⟨lengths, packs, lefts, rights⟩ := branchMessage_injective
        (wellSized_pack (by omega)) (wellSized_pack (by omega)) sameTop
      have stems : stem = otherStem := pack_injective lengths packs
      subst stems
      have isLeft : left = otherLeft := ih false stored.2.1 otherStored.2.1 lefts
      have isRight : right = otherRight := ih true stored.2.2 otherStored.2.2 rights
      rw [isLeft, isRight]

theorem Represents.lookup_key {keyBits : List Bool} {entry : Hash × Bytes}
    (represents : Represents crypto tree trie) (found : Trie.lookupIn trie keyBits = some entry) :
    bits entry.1 = keyBits := by
  cases trie with
  | none => cases found
  | some held => exact (represents.stored held rfl).lookup_key found

theorem Represents.eq_of_lookup_eq {other : SparseMerkleTree} {otherTrie : Option Content}
    (represents : Represents crypto tree trie) (otherRepresents : Represents crypto other otherTrie)
    (uniform : Trie.UniformIn KEY_BITS trie) (otherUniform : Trie.UniformIn KEY_BITS otherTrie)
    (same : ∀ key, Trie.lookupIn trie (bits key) = Trie.lookupIn otherTrie (bits key)) :
    trie = otherTrie := by
  apply Trie.eq_of_lookupIn_eq uniform otherUniform
  intro keyBits _
  -- Bits that are found are the bits of the key found there.
  cases found : Trie.lookupIn trie keyBits with
  | some entry =>
    have isKey := represents.lookup_key found
    rw [← isKey, ← same, isKey, found]
  | none =>
    cases otherFound : Trie.lookupIn otherTrie keyBits with
    | none => rfl
    | some entry =>
      have isKey := otherRepresents.lookup_key otherFound
      rw [← isKey, same, isKey, otherFound] at found
      cases found

/-- Two trees have one root exactly when their calls left the same value under every key. -/
theorem root_eq_iff_same_map (crypto : Primitives) (first second : List SmtOp)
    (collisionFree : CollisionFree crypto ((run crypto first).messages crypto ++
      (run crypto second).messages crypto)) :
    (run crypto first).root = (run crypto second).root ↔
      ∀ key, lastWrite first key = lastWrite second key := by
  have firstMessages := List.subset_append_left ((run crypto first).messages crypto)
    ((run crypto second).messages crypto)
  have secondMessages := List.subset_append_right ((run crypto first).messages crypto)
    ((run crypto second).messages crypto)
  have firstTrie := represents_run first
    ((collisionFree.subset firstMessages).subset (List.subset_append_left _ _))
  have secondTrie := represents_run second
    ((collisionFree.subset secondMessages).subset (List.subset_append_left _ _))
  constructor
  · intro sameRoot key
    have sameTrie : contentOf first = contentOf second := by
      have firstFree := (collisionFree.subset firstMessages).subset (List.subset_append_left _ _)
      have secondFree := (collisionFree.subset secondMessages).subset (List.subset_append_left _ _)
      rw [firstTrie.root, secondTrie.root] at sameRoot
      generalize contentOf first = trie at firstTrie sameRoot ⊢
      generalize contentOf second = otherTrie at secondTrie sameRoot ⊢
      cases trie with
      | none =>
        cases otherTrie with
        | none => rfl
        | some held =>
          have stored := secondTrie.stored held rfl
          exact absurd sameRoot.symm
            (hash_ne_default secondTrie.genuine secondFree stored.top KEY_BITS)
      | some held =>
        have stored := firstTrie.stored held rfl
        cases otherTrie with
        | none =>
          exact absurd sameRoot (hash_ne_default firstTrie.genuine firstFree stored.top KEY_BITS)
        | some otherHeld =>
          rw [stored.eq_of_hash_eq collisionFree firstMessages secondMessages
            (secondTrie.stored otherHeld rfl) sameRoot]
    have sameMap := lookup_contentOf first key
    rw [sameTrie, lookup_contentOf] at sameMap
    exact (Option.map_injective (fun _ _ same => congrArg Prod.snd same) sameMap).symm
  · intro sameMap
    have sameTrie : contentOf first = contentOf second := by
      apply firstTrie.eq_of_lookup_eq secondTrie (contentOf_uniform first) (contentOf_uniform second)
      intro key
      rw [lookup_contentOf, lookup_contentOf, sameMap key]
    rw [firstTrie.root, secondTrie.root, sameTrie]

namespace SmallTree

/-- One key is written, and nothing else happens. -/
def written : List SmtOp := [.update 1 [9]]

theorem rewritten_root :
    (run shortHash rewritten).root = (run shortHash written).root := by
  apply (root_eq_iff_same_map shortHash rewritten written _).mpr
  · intro key
    simp only [lastWrite, rewritten, written, List.foldl_cons, List.foldl_nil, SmtOp.key, SmtOp.value]
    by_cases isOne : 1#256 = key
    · subst isOne
      decide
    · simp [isOne]
  · have free := messages_collisionFree
      [run shortHash rewritten, run shortHash written] []
      (by decide +kernel) (by decide +kernel)
    exact free.subset (by simp)

end SmallTree

/-! ## Batches -/

/-- The walk over the sorted updates: of adjacent calls on one key the last is kept. -/
def keepLast : List SmtOp → List SmtOp
  | [] => []
  | [op] => [op]
  | op :: next :: rest =>
    if op.key = next.key then keepLast (next :: rest) else op :: keepLast (next :: rest)

/-- `applyBatch`, for the order in which `std::sort` leaves the updates. -/
def SparseMerkleTree.applyBatch (crypto : Primitives) (tree : SparseMerkleTree)
    (ordered : List SmtOp) : SparseMerkleTree :=
  (keepLast ordered).foldl (SmtOp.apply crypto) tree

/-- Keys are compared byte by byte. -/
def byteRank (key : Hash) : Nat := getUInt (bytes32 key).reverse

/-- What a correct sort may leave: `std::sort` is not stable. -/
structure BatchOrder (ops ordered : List SmtOp) : Prop where
  perm : ordered.Perm ops
  sorted : ordered.Pairwise fun left right =>
    byteRank left.key ≤ byteRank right.key

section Batches

variable {earlier ops ordered : List SmtOp} {key : Hash}

/-- What calls make of the value a key had. -/
def writes (key : Hash) (ops : List SmtOp) (held : Option Bytes) : Option Bytes :=
  ops.foldl (fun held op => if op.key = key then op.value else held) held

theorem lastWrite_join (earlier ops : List SmtOp) :
    lastWrite (earlier ++ ops) key = writes key ops (lastWrite earlier key) :=
  List.foldl_append

theorem writes_keepLast (ordered : List SmtOp) (held : Option Bytes) :
    writes key (keepLast ordered) held = writes key ordered held := by
  induction ordered using keepLast.induct generalizing held with
  | case1 => rfl
  | case2 op => rfl
  | case3 op next rest same ih =>
    rw [keepLast, if_pos same, ih]
    simp only [writes, List.foldl_cons, same]
    split <;> rfl
  | case4 op next rest differ ih =>
    rw [keepLast, if_neg differ]
    exact ih _

/-- Calls leave the value of one of them on the key, or what was there when there is none. -/
theorem foldl_write (ops : List SmtOp) (key : Hash) :
    (∃ op ∈ ops, op.key = key ∧ ∀ held, writes key ops held = op.value) ∨
      (∀ op ∈ ops, op.key ≠ key) ∧ ∀ held, writes key ops held = held := by
  induction ops with
  | nil => exact .inr ⟨List.forall_mem_nil _, fun _ => rfl⟩
  | cons op rest ih =>
    rcases ih with ⟨last, member, own, is⟩ | ⟨others, is⟩
    · exact .inl ⟨last, List.mem_cons_of_mem _ member, own, fun _ => is _⟩
    by_cases own : op.key = key
    · exact .inl ⟨op, List.mem_cons_self, own, fun _ => (is _).trans (if_pos own)⟩
    · exact .inr ⟨List.forall_mem_cons.mpr ⟨own, others⟩, fun _ => (is _).trans (if_neg own)⟩

theorem writes_of_mem {op : SmtOp} (member : op ∈ ops) (held : Option Bytes) :
    writes op.key ops held = lastWrite ops op.key := by
  rcases foldl_write ops op.key with ⟨_, _, _, is⟩ | ⟨others, _⟩
  · exact (is held).trans (is none).symm
  · exact absurd rfl (others op member)

/-- A correct sort may leave any one of the calls as the last one on its key. -/
theorem exists_ordered_last {op : SmtOp} (member : op ∈ ops) :
    ∃ ordered, BatchOrder ops ordered ∧ lastWrite ordered op.key = op.value := by
  let below (left right : SmtOp) : Bool := byteRank left.key ≤ byteRank right.key
  let rest := (ops.erase op).mergeSort below
  have sorted : rest.Pairwise fun left right => byteRank left.key ≤ byteRank right.key := by
    refine (List.pairwise_mergeSort ?_ ?_ (ops.erase op)).imp of_decide_eq_true
    · intro first second third
      simp only [decide_eq_true_eq]
      exact Nat.le_trans
    · intro first second
      simpa only [below, Bool.or_eq_true, decide_eq_true_eq] using Nat.le_total _ _
  refine ⟨rest.filter (below · op) ++ op :: rest.filter (!below · op), ⟨?_, ?_⟩, ?_⟩
  · exact List.perm_middle.trans (((List.filter_append_perm _ rest).trans
      (List.mergeSort_perm _ _)).cons op |>.trans (List.perm_cons_erase member).symm)
  · rw [List.pairwise_append, List.pairwise_cons]
    simp only [below, List.mem_filter, List.mem_cons, Bool.not_eq_true', decide_eq_false_iff_not,
      decide_eq_true_eq]
    refine ⟨sorted.filter _, ⟨fun other later => (Nat.not_le.mp later.2).le, sorted.filter _⟩, ?_⟩
    rintro first ⟨_, low⟩ second (rfl | ⟨_, high⟩)
    · exact low
    · exact low.trans (Nat.not_le.mp high).le
  · rw [lastWrite_join]
    rcases foldl_write (rest.filter (!below · op)) op.key with ⟨later, member, own, _⟩ | ⟨_, is⟩
    · simp [below, own] at member
    · exact (is _).trans (if_pos rfl)

/-- **A batch leaves the root and the values of its calls one by one, whatever order a correct
sort leaves them in, exactly when calls on one key have one effect.** -/
theorem applyBatch_same_iff (crypto : Primitives) (earlier ops : List SmtOp)
    (collisionFree : ∀ ordered, BatchOrder ops ordered → CollisionFree crypto
      (((run crypto earlier).applyBatch crypto ordered).messages crypto ++
        (run crypto (earlier ++ ops)).messages crypto)) :
    (∀ ordered, BatchOrder ops ordered →
      ((run crypto earlier).applyBatch crypto ordered).root =
          (run crypto (earlier ++ ops)).root ∧
        ∀ key, ((run crypto earlier).applyBatch crypto ordered).get crypto key =
          (run crypto (earlier ++ ops)).get crypto key) ↔
      ∀ op ∈ ops, op.value = lastWrite ops op.key := by
  have isRun (ordered : List SmtOp) : (run crypto earlier).applyBatch crypto ordered =
      run crypto (earlier ++ keepLast ordered) :=
    (List.foldl_append ..).symm
  have last (key : Hash) (ordered : List SmtOp) :
      lastWrite (earlier ++ keepLast ordered) key = writes key ordered (lastWrite earlier key) :=
    (lastWrite_join _ _).trans (writes_keepLast _ _)
  simp only [isRun] at collisionFree ⊢
  constructor
  · intro same op member
    obtain ⟨ordered, isOrdered, isLast⟩ := exists_ordered_last member
    have sameValue := (root_eq_iff_same_map crypto _ _ (collisionFree ordered isOrdered)).mp
      (same ordered isOrdered).1 op.key
    rwa [last, lastWrite_join, writes_of_mem (isOrdered.perm.mem_iff.mpr member),
      writes_of_mem member, isLast] at sameValue
  · intro agree ordered isOrdered
    have free := collisionFree ordered isOrdered
    have sameMap (key : Hash) :
        lastWrite (earlier ++ keepLast ordered) key = lastWrite (earlier ++ ops) key := by
      rw [last, lastWrite_join]
      rcases foldl_write ordered key with ⟨op, member, rfl, is⟩ | ⟨others, is⟩
      · have own := isOrdered.perm.mem_iff.mp member
        rw [is, writes_of_mem own, agree op own]
      · rcases foldl_write ops key with ⟨op, member, own, _⟩ | ⟨_, isOps⟩
        · exact absurd own (others op (isOrdered.perm.mem_iff.mpr member))
        · rw [is, isOps]
    refine ⟨(root_eq_iff_same_map crypto _ _ free).mpr sameMap, fun key => ?_⟩
    rw [get_run _ _ ((free.subset (List.subset_append_left _ _)).subset (List.subset_append_left _ _)),
      get_run _ _ ((free.subset (List.subset_append_right _ _)).subset (List.subset_append_left _ _)),
      sameMap]

end Batches

namespace SmallTree

/-- Seventeen calls on one key, more than `std::sort` leaves to its insertion sort. -/
def seventeen : List SmtOp :=
  [0, 1, 2, 3, 4, 5, 6, 7, 8, 9, 10, 11, 12, 13, 14, 15, 16].map fun value => .update 1 [value]

/-- The order they are in after the partitions of `std::sort`. -/
def partitioned : List SmtOp :=
  [8, 16, 15, 14, 13, 12, 11, 10, 9, 0, 7, 6, 5, 4, 3, 2, 1].map fun value => .update 1 [value]

theorem partitioned_keeps_another : BatchOrder seventeen partitioned ∧
    ((run shortHash []).applyBatch shortHash partitioned).get shortHash 1 ≠
      (run shortHash seventeen).get shortHash 1 :=
  ⟨⟨by decide +kernel, by decide +kernel⟩, by decide +kernel⟩

/-- Two keys out of order, one of them called twice alike. -/
def scrambled : List SmtOp := [.update 2 [8], .update 1 [7], .update 2 [8]]

def unscrambled : List SmtOp := [.update 1 [7], .update 2 [8], .update 2 [8]]

/-- A sort has no choice where calls on one key are equal. -/
theorem scrambled_order {ordered : List SmtOp} (isOrdered : BatchOrder scrambled ordered) :
    ordered = unscrambled := by
  have perm : ordered.Perm unscrambled := isOrdered.perm.trans (by decide)
  refine List.Perm.eq_of_pairwise ?_ isOrdered.sorted (by decide +kernel) perm
  have alike : ∀ left ∈ unscrambled, ∀ right ∈ unscrambled, byteRank left.key ≤ byteRank right.key →
      byteRank right.key ≤ byteRank left.key → left = right := by
    decide +kernel
  exact fun left right inLeft inRight => alike left (perm.mem_iff.mp inLeft) right inRight

theorem scrambled_sameRoot : BatchOrder scrambled unscrambled ∧
    ((run shortHash written).applyBatch shortHash unscrambled).root =
      (run shortHash (written ++ scrambled)).root := by
  have isOrdered : BatchOrder scrambled unscrambled := ⟨by decide, by decide +kernel⟩
  have same := (applyBatch_same_iff shortHash written scrambled ?_).mpr (by decide +kernel)
  · exact ⟨isOrdered, (same unscrambled isOrdered).1⟩
  · intro ordered isOrdered
    rw [scrambled_order isOrdered]
    have free := messages_collisionFree [(run shortHash written).applyBatch shortHash unscrambled,
      run shortHash (written ++ scrambled)] [] (by decide +kernel) (by decide +kernel)
    exact free.subset (by simp)

end SmallTree

end Clarity.State
