import Clarity.Library.PatriciaWay
import Clarity.State.SmtMap
import Clarity.State.VersionedTree

/-!
Contract: what a historical read of a sparse Merkle tree returns.

Owns:
- `OnRecord`, that the historical tables hold a row of a version for every node on the way of a key
  and for its value;
- that a read of a version finds the value the key had then exactly when the key had none, the tree
  is again as it was then, or the way of the key is on record.
-/

namespace Clarity.State

open Common Crypto Library.PackedBits Library.Patricia SparseMerkleTree

variable {crypto : Primitives}

/-! ## Rows -/

def NodeRow (crypto : Primitives) (versioned : VersionedTree) (version : Nat) (node : Content) :
    Prop :=
  ((hashOf crypto node, version), topBytes crypto node) ∈ versioned.nodesHist

def ValueRow (crypto : Primitives) (versioned : VersionedTree) (version : Nat) (key : Hash)
    (value : Bytes) : Prop :=
  ((hashLeaf crypto key (crypto.blake2b value), version), value) ∈ versioned.leavesHist

/-- Every node on the way of the key has a row of the version, and so has the value it holds. -/
def OnRecord (crypto : Primitives) (versioned : VersionedTree) (version : Nat)
    (content : Option Content) (key : Hash) : Prop :=
  ∀ held ∈ content, held.Along (NodeRow crypto versioned version) (bits key) ∧
    ∀ entry ∈ held.lookup (bits key), ValueRow crypto versioned version entry.1 entry.2

/-- Historical rows are rows of the live tables, which keep all they were given. -/
structure Historical (crypto : Primitives) (versioned : VersionedTree) : Prop where
  genuine : Genuine crypto versioned.tree.store
  nodes : ∀ row ∈ versioned.nodesHist, (row.1.1, row.2) ∈ versioned.tree.store.nodes
  leaves : ∀ row ∈ versioned.leavesHist, ∃ key,
    row.1.1 = hashLeaf crypto key (crypto.blake2b row.2) ∧
      (row.1.1, leafBytes key (crypto.blake2b row.2)) ∈ versioned.tree.store.nodes ∧
      row.2 ∈ versioned.tree.store.values

theorem mem_of_lookup {rows : HistoricalRows} {key : Hash × Nat} {bytes : Bytes}
    (found : rows.lookup key = some bytes) : (key, bytes) ∈ rows := by
  obtain ⟨before, after, isRows, _⟩ := List.lookup_eq_some_iff.mp found
  rw [isRows]
  simp

section

variable {versioned : VersionedTree} {version : Nat}

/-- Two nodes stored under one hash are the same bytes. -/
theorem bytes_eq_of_hash {store : SmtStore} {hash : Hash} {bytes other : Bytes}
    (genuine : Genuine crypto store)
    (collisionFree : CollisionFree crypto (store.nodeMessages crypto))
    (member : (hash, bytes) ∈ store.nodes) (otherMember : (hash, other) ∈ store.nodes) :
    other = bytes := by
  have found := getNode_of_mem genuine collisionFree member
  rw [getNode_of_mem genuine collisionFree otherMember] at found
  exact Option.some.inj found

theorem Historical.getNode (historical : Historical crypto versioned)
    (collisionFree : CollisionFree crypto (versioned.tree.store.nodeMessages crypto))
    {node : Content}
    (live : (hashOf crypto node, topBytes crypto node) ∈ versioned.tree.store.nodes) :
    (NodeRow crypto versioned version node ∧
        versioned.getNodeAtVersion (hashOf crypto node) version = some (topBytes crypto node)) ∨
      (¬ NodeRow crypto versioned version node ∧
        versioned.getNodeAtVersion (hashOf crypto node) version = none) := by
  unfold VersionedTree.getNodeAtVersion
  cases found : versioned.nodesHist.lookup (hashOf crypto node, version) with
  | none =>
    refine Or.inr ⟨?_, rfl⟩
    intro row
    have absent := List.lookup_eq_none_iff.mp found _ row
    simp at absent
  | some bytes =>
    have row := mem_of_lookup found
    have same := bytes_eq_of_hash historical.genuine collisionFree live (historical.nodes _ row)
    subst same
    exact Or.inl ⟨row, rfl⟩

theorem Historical.getLeafData (historical : Historical crypto versioned)
    (collisionFree : CollisionFree crypto (versioned.tree.messages crypto)) {key : Hash}
    {value : Bytes}
    (live : (hashLeaf crypto key (crypto.blake2b value), leafBytes key (crypto.blake2b value)) ∈
      versioned.tree.store.nodes) (inValues : value ∈ versioned.tree.store.values) :
    (ValueRow crypto versioned version key value ∧
        versioned.getLeafDataAtVersion (hashLeaf crypto key (crypto.blake2b value)) version =
          some value) ∨
      (¬ ValueRow crypto versioned version key value ∧
        versioned.getLeafDataAtVersion (hashLeaf crypto key (crypto.blake2b value)) version =
          none) := by
  unfold VersionedTree.getLeafDataAtVersion
  cases found : versioned.leavesHist.lookup (hashLeaf crypto key (crypto.blake2b value), version) with
  | none =>
    refine Or.inr ⟨?_, rfl⟩
    intro row
    have absent := List.lookup_eq_none_iff.mp found _ row
    simp at absent
  | some other =>
    have row := mem_of_lookup found
    obtain ⟨otherKey, _, isNode, inOther⟩ := historical.leaves _ row
    have nodesFree := collisionFree.subset (List.subset_append_left _ _)
    have sameBytes := bytes_eq_of_hash historical.genuine nodesFree live isNode
    have sameMessage : leafMessage otherKey (crypto.blake2b other) =
        leafMessage key (crypto.blake2b value) := congrArg (DOMAIN_LEAF ++ ·) sameBytes
    have sameValue : other = value :=
      collisionFree _ (List.mem_append_right _ inOther) _ (List.mem_append_right _ inValues)
        (leafMessage_injective sameMessage).2
    subst sameValue
    exact Or.inl ⟨row, rfl⟩

/-- The walk of a historical read finds what is on record. -/
theorem getAtVersionRecursive_eq_some_iff {early : SmtStore} {key : Hash} {value : Bytes}
    {trie : Content} {path rest : List Bool} {fuel : Nat} (stored : Stored crypto early trie path)
    (nodesKept : early.nodes ⊆ versioned.tree.store.nodes)
    (valuesKept : early.values ⊆ versioned.tree.store.values)
    (historical : Historical crypto versioned)
    (collisionFree : CollisionFree crypto (versioned.tree.messages crypto))
    (isKey : bits key = path ++ rest) (enough : rest.length < fuel) :
    versioned.getAtVersionRecursive crypto key version fuel (hashOf crypto trie) rest.length =
        some value ↔
      trie.lookup rest = some (key, value) ∧ trie.Along (NodeRow crypto versioned version) rest ∧
        ValueRow crypto versioned version key value := by
  have nodesFree := collisionFree.subset (List.subset_append_left _ _)
  induction trie using Trie.sides generalizing path rest fuel with
  | leaf suffix entry =>
    rcases fuel with _ | fuel
    · omega
    have different := hash_ne_default historical.genuine nodesFree (nodesKept stored.top)
      rest.length
    obtain ⟨isOld, isNode, isValue⟩ := stored
    have keys := suffix_eq_iff isOld isKey
    rw [VersionedTree.getAtVersionRecursive, if_neg different, Trie.lookup_leaf]
    rcases @Historical.getNode crypto versioned version historical nodesFree
      (.leaf suffix entry) (nodesKept isNode) with ⟨row, read⟩ | ⟨noRow, read⟩
    · rw [read]
      simp only [topBytes, leafBytes_head, if_true, parseLeaf_leafBytes]
      by_cases sameKey : entry.1 = key
      · rw [if_neg (not_not_intro sameKey), if_pos (keys.mpr sameKey)]
        subst sameKey
        rcases @Historical.getLeafData crypto versioned version historical collisionFree entry.1
          entry.2 (nodesKept isNode) (valuesKept (value_mem isValue)) with
          ⟨valueRow, readValue⟩ | ⟨noValue, readValue⟩
        · have isEntry : some entry = some (entry.1, value) ↔ some entry.2 = some value := by
            rw [Option.some_inj, Option.some_inj, Prod.ext_iff]
            exact and_iff_right rfl
          show versioned.getLeafDataAtVersion _ version = some value ↔ _
          rw [isEntry, hashOf, readValue]
          refine ⟨?_, And.left⟩
          intro same
          cases same
          exact ⟨rfl, row, valueRow⟩
        · show versioned.getLeafDataAtVersion _ version = some value ↔ _
          rw [hashOf, readValue]
          constructor
          · intro found
            cases found
          · rintro ⟨isEntry, _, valueRow⟩
            have isValue : entry.2 = value := congrArg Prod.snd (Option.some.inj isEntry)
            exact absurd (isValue ▸ valueRow) noValue
      · rw [if_pos sameKey, if_neg (keys.not.mpr sameKey)]
        simp
    · rw [read]
      constructor
      · intro found
        cases found
      · rintro ⟨_, row, _⟩
        exact absurd row noRow
  | branch stem left right ih =>
    rcases fuel with _ | fuel
    · omega
    have different := hash_ne_default historical.genuine nodesFree (nodesKept stored.top)
      rest.length
    obtain ⟨bounded, goes⟩ := stored.branch_cases isKey
    have isBranch : ¬ some TAG_BRANCH = some TAG_LEAF := by decide
    rw [VersionedTree.getAtVersionRecursive, if_neg different]
    rcases @Historical.getNode crypto versioned version historical nodesFree
      (.branch stem left right) (nodesKept stored.top) with ⟨row, read⟩ | ⟨noRow, read⟩
    · rw [read]
      simp only [topBytes, branchBytes_head, if_neg isBranch,
        parseBranch_branchBytes (wellSized_pack bounded), startBit_eq isKey]
      rcases goes with ⟨_, _, outside, leaves⟩ | ⟨bit, later, isRest, goesOn⟩
      · rw [if_pos leaves, Trie.lookup_branch_of_strip outside]
        simp
      · subst isRest
        have shorter := shorter_below enough
        rw [if_neg goesOn, (bitAt_fork isKey).1, childDepth_eq isKey, Trie.lookup_branch,
          Trie.along_branch, and_iff_right row]
        have child := ih bit (stored.child bit) (below_key isKey) shorter
        cases bit <;> exact child
    · rw [read]
      constructor
      · intro found
        cases found
      · rintro ⟨_, along, _⟩
        exact absurd along.1 noRow

end

/-! ## Runs -/

theorem VersionedTree.run_append (history : List VersionedOp) (step : VersionedOp) :
    VersionedTree.run crypto (history ++ [step]) =
      step.apply crypto (VersionedTree.run crypto history) := by
  simp [VersionedTree.run]

theorem liveOps_append (history more : List VersionedOp) :
    liveOps (history ++ more) = liveOps history ++ liveOps more :=
  List.filterMap_append

theorem tree_run (history : List VersionedOp) :
    (VersionedTree.run crypto history).tree = run crypto (liveOps history) := by
  induction history using List.reverseRecOn with
  | nil => rfl
  | append_singleton history step ih =>
    rw [VersionedTree.run_append, liveOps_append]
    cases step with
    | write version op =>
      have single : liveOps [.write version op] = [op] := rfl
      rw [single, State.run_append, ← ih]
      rfl
    | save version =>
      have none : liveOps [.save version] = [] := rfl
      rw [none, List.append_nil, ← ih]
      rfl
    | prune keepFrom =>
      have none : liveOps [.prune keepFrom] = [] := rfl
      rw [none, List.append_nil, ← ih]
      rfl

theorem SmtOp.apply_adds (op : SmtOp) (tree : SparseMerkleTree) :
    TableWrites.Adds crypto op.key op.value tree.store (op.apply crypto tree).store := by
  apply TableWrites.adds
  cases op with
  | update key value => exact TableWrites.updateRecursive (fun _ => rfl) _ _ _ _
  | remove key =>
    exact TableWrites.updateRecursive (fun isUpdate : true = false => nomatch isUpdate) _ _ _ _

/-- The rows of a call are the rows it added, under its version. -/
theorem mem_addedRows {version : Nat} {before after added : List (Hash × Bytes)}
    {row : (Hash × Nat) × Bytes} (isAfter : after = added ++ before) :
    row ∈ addedRows version before after ↔
      version ≠ 0 ∧ row.1.2 = version ∧ (row.1.1, row.2) ∈ added := by
  have count : after.length - before.length = added.length := by
    rw [isAfter, List.length_append]
    omega
  unfold addedRows
  rw [count, isAfter, List.take_left]
  split
  next isZero => simp [isZero]
  next positive =>
    rw [List.mem_map]
    constructor
    · rintro ⟨entry, member, isRow⟩
      subst isRow
      exact ⟨positive, rfl, member⟩
    · rintro ⟨_, isVersion, member⟩
      exact ⟨(row.1.1, row.2), member, by rw [← isVersion]⟩

/-- What the historical tables of a run hold. -/
theorem historical_run (history : List VersionedOp) :
    Historical crypto (VersionedTree.run crypto history) := by
  induction history using List.reverseRecOn with
  | nil =>
    refine ⟨?_, ?_, ?_⟩
    · intro entry member
      cases member
    · intro row member
      cases member
    · intro row member
      cases member
  | append_singleton history step ih =>
    obtain ⟨genuine, nodes, leaves⟩ := ih
    rw [VersionedTree.run_append]
    cases step with
    | save version => exact ⟨genuine, nodes, leaves⟩
    | prune keepFrom =>
      exact ⟨genuine, fun row member => nodes row (List.mem_filter.mp member).1,
        fun row member => leaves row (List.mem_filter.mp member).1⟩
    | write version op =>
      have writes := @SmtOp.apply_writes crypto op (VersionedTree.run crypto history).tree
      obtain ⟨⟨addedNodes, isNodes⟩, ⟨addedLeaves, isLeaves, ofKey⟩⟩ :=
        @SmtOp.apply_adds crypto op (VersionedTree.run crypto history).tree
      refine ⟨writes.genuine genuine, ?_, ?_⟩
      · intro row member
        rcases List.mem_append.mp member with isNew | isOld
        · obtain ⟨_, _, inAdded⟩ := (mem_addedRows isNodes).mp isNew
          show _ ∈ ((op.apply crypto _).store.nodes)
          rw [isNodes]
          exact List.mem_append_left _ inAdded
        · exact writes.nodes (nodes row isOld)
      · intro row member
        rcases List.mem_append.mp member with isNew | isOld
        · obtain ⟨_, _, inAdded⟩ := (mem_addedRows isLeaves).mp isNew
          obtain ⟨_, isHash, isNode⟩ := ofKey _ inAdded
          refine ⟨op.key, isHash, isNode, List.mem_map.mpr ⟨(row.1.1, row.2), ?_, rfl⟩⟩
          show _ ∈ ((op.apply crypto _).store.leaves)
          rw [isLeaves]
          exact List.mem_append_left _ inAdded
        · obtain ⟨key, isHash, isNode, inValues⟩ := leaves row isOld
          refine ⟨key, isHash, writes.nodes isNode, ?_⟩
          obtain ⟨entry, inLeaves, isValue⟩ := List.mem_map.mp inValues
          refine List.mem_map.mpr ⟨entry, ?_, isValue⟩
          show _ ∈ ((op.apply crypto _).store.leaves)
          rw [isLeaves]
          exact List.mem_append_right _ inLeaves

/-- More calls take nothing out of the live tables. -/
theorem run_grows (ops more : List SmtOp) : (run crypto ops).store.nodes ⊆
        (run crypto (ops ++ more)).store.nodes ∧
      (run crypto ops).store.values ⊆
        (run crypto (ops ++ more)).store.values := by
  induction more using List.reverseRecOn with
  | nil => simp
  | append_singleton more op ih =>
    rw [← List.append_assoc, State.run_append]
    obtain ⟨⟨addedNodes, isNodes⟩, ⟨addedLeaves, isLeaves, _⟩⟩ :=
      @SmtOp.apply_adds crypto op (run crypto (ops ++ more))
    constructor
    · rw [isNodes]
      exact List.Subset.trans ih.1 (List.subset_append_right _ _)
    · unfold SmtStore.values
      rw [isLeaves, List.map_append]
      exact List.Subset.trans ih.2 (List.subset_append_right _ _)

theorem rootAtVersion_run {earlier later : List VersionedOp} {version : Nat}
    (lastSave : .save version ∉ later) :
    (VersionedTree.run crypto (earlier ++ .save version :: later)).rootAtVersion version =
      some (VersionedTree.run crypto earlier).tree.root := by
  unfold VersionedTree.rootAtVersion
  induction later using List.reverseRecOn with
  | nil =>
    rw [VersionedTree.run_append]
    exact List.lookup_cons_self
  | append_singleton later step ih =>
    have earlierSave : .save version ∉ later :=
      fun member => lastSave (List.mem_append_left _ member)
    have found := ih earlierSave
    have whole : earlier ++ .save version :: (later ++ [step]) =
        (earlier ++ .save version :: later) ++ [step] := by simp
    rw [whole, VersionedTree.run_append]
    cases step with
    | write _ _ => exact found
    | prune _ => exact found
    | save other =>
      have different : (version == other) = false := by
        rw [beq_eq_false_iff_ne]
        rintro rfl
        exact lastSave (List.mem_append_right _ List.mem_cons_self)
      show List.lookup version (_ :: _) = _
      rw [List.lookup_cons, different]
      exact found

theorem nodeMessages_subset {store other : SmtStore} (nodes : store.nodes ⊆ other.nodes) :
    store.nodeMessages crypto ⊆ other.nodeMessages crypto := by
  apply List.append_subset.mpr
  constructor
  · exact List.Subset.trans (List.map_subset _ nodes) (List.subset_append_left _ _)
  · exact List.subset_append_right _ _

theorem getAtVersionRecursive_run {versioned : VersionedTree} {ops more : List SmtOp} {version : Nat}
    {key : Hash} (live : versioned.tree = run crypto (ops ++ more))
    (historical : Historical crypto versioned)
    (collisionFree : CollisionFree crypto (versioned.tree.messages crypto)) :
    versioned.getAtVersionRecursive crypto key version (KEY_BITS + 1)
        (run crypto ops).root KEY_BITS = lastWrite ops key ↔
      lastWrite ops key = none ∨ OnRecord crypto versioned version (contentOf ops) key := by
  obtain ⟨nodesKept, valuesKept⟩ := @run_grows crypto ops more
  rw [← live] at nodesKept valuesKept
  have nodesFree := collisionFree.subset (List.subset_append_left _ _)
  have represents := represents_run ops (nodesFree.subset (nodeMessages_subset nodesKept))
  have lookups := lookup_contentOf ops key
  rw [represents.root]
  cases isContent : contentOf ops with
  | none =>
    have isNone : lastWrite ops key = none := by
      rw [isContent] at lookups
      exact Option.map_eq_none_iff.mp lookups.symm
    rw [rootOf, VersionedTree.getAtVersionRecursive, if_pos rfl, isNone]
    exact ⟨fun _ => Or.inl rfl, fun _ => rfl⟩
  | some held =>
    have stored := represents.stored held isContent
    have found : ∀ value, versioned.getAtVersionRecursive crypto key version (KEY_BITS + 1)
        (hashOf crypto held) KEY_BITS = some value ↔
          held.lookup (bits key) = some (key, value) ∧
            held.Along (NodeRow crypto versioned version) (bits key) ∧
            ValueRow crypto versioned version key value := by
      intro value
      have walk := @getAtVersionRecursive_eq_some_iff crypto versioned version _ key value held []
        (bits key) (KEY_BITS + 1) stored nodesKept valuesKept historical collisionFree rfl
        (by rw [bits_length]; omega)
      rw [bits_length] at walk
      exact walk
    rw [isContent] at lookups
    have isHeld : held.lookup (bits key) = (lastWrite ops key).map fun value => (key, value) :=
      lookups
    rw [rootOf]
    cases written : lastWrite ops key with
    | none =>
      refine ⟨fun _ => Or.inl rfl, fun _ => ?_⟩
      rw [written] at isHeld
      by_contra someValue
      obtain ⟨value, isValue⟩ := Option.ne_none_iff_exists'.mp someValue
      have same := ((found value).mp isValue).1.symm.trans isHeld
      cases same
    | some value =>
      rw [written] at isHeld
      rw [found value, isHeld]
      constructor
      · rintro ⟨_, along, valueRow⟩
        refine Or.inr ?_
        intro other isOther
        cases isOther
        refine ⟨along, ?_⟩
        rw [isHeld]
        intro entry isEntry
        cases isEntry
        exact valueRow
      · rintro (isNone | onRecord)
        · cases isNone
        · obtain ⟨along, values⟩ := onRecord held rfl
          exact ⟨rfl, along, values (key, value) isHeld⟩

/-- A read of a version finds the value the key had when the version was saved exactly when there
was none, the tree holds the same values again, or the way of the key is on record. -/
theorem getAtVersion_run {earlier later : List VersionedOp} {version : Nat} (key : Hash)
    (lastSave : .save version ∉ later)
    (collisionFree : CollisionFree crypto
      ((VersionedTree.run crypto (earlier ++ .save version :: later)).tree.messages crypto)) :
    (VersionedTree.run crypto (earlier ++ .save version :: later)).getAtVersion crypto key version =
        lastWrite (liveOps earlier) key ↔
      lastWrite (liveOps earlier) key = none ∨
        (∀ other, lastWrite (liveOps (earlier ++ later)) other = lastWrite (liveOps earlier) other) ∨
        OnRecord crypto (VersionedTree.run crypto (earlier ++ .save version :: later)) version
          (contentOf (liveOps earlier)) key := by
  have live : (VersionedTree.run crypto (earlier ++ .save version :: later)).tree =
      run crypto (liveOps earlier ++ liveOps later) := by
    rw [tree_run, liveOps_append]
    rfl
  have isRoot := @rootAtVersion_run crypto earlier later version lastSave
  have historical := @historical_run crypto (earlier ++ .save version :: later)
  have walk := @getAtVersionRecursive_run crypto _ _ _ version key live historical collisionFree
  obtain ⟨nodesKept, valuesKept⟩ := @run_grows crypto (liveOps earlier) (liveOps later)
  rw [live] at collisionFree
  have same := root_eq_iff_same_map crypto (liveOps earlier ++ liveOps later) (liveOps earlier)
    (collisionFree.subset (List.append_subset.mpr
      ⟨List.Subset.refl _, List.append_subset.mpr
        ⟨List.Subset.trans (nodeMessages_subset nodesKept) (List.subset_append_left _ _),
          List.Subset.trans valuesKept (List.subset_append_right _ _)⟩⟩))
  rw [tree_run] at isRoot
  unfold VersionedTree.getAtVersion
  rw [isRoot, liveOps_append, ← same]
  dsimp only
  rw [live]
  by_cases sameRoot : (run crypto (liveOps earlier)).root =
      (run crypto (liveOps earlier ++ liveOps later)).root
  · rw [if_pos sameRoot, get_run _ key (collisionFree.subset (List.subset_append_left _ _))]
    have sameMap := same.mp sameRoot.symm key
    exact ⟨fun _ => Or.inr (Or.inl sameRoot.symm), fun _ => sameMap⟩
  · rw [if_neg sameRoot, walk]
    exact or_congr_right (or_iff_right (Ne.symm sameRoot)).symm

end Clarity.State
