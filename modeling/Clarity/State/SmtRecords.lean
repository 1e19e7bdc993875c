import Clarity.State.SmtHistory

/-!
Contract: what the calls of one version put on record.

Owns:
- that a call writes the nodes the trie operation makes (`Trie.written`);
- that, when versions grow, the way of a key is on record for a version exactly when the key was
  written in that version;
- the condition under which a historical read is right.

## What is not on record

A call writes the nodes on the way of its key under its version. The rest of the tree, with the
nodes that were written in earlier versions, gets no rows of the new version, and a leaf that is
moved by a split gets a row for its node but none for its value.
-/

namespace Clarity.State

open Common Crypto Library.PackedBits Library.Patricia

variable {crypto : Primitives} {version : Nat} {key : Hash} {value : Bytes}
  {history : List VersionedOp} {path rest : List Bool} {store : SmtStore} {op : SmtOp}
  {versioned : VersionedTree} {trie : Option Content}

/-! ## Calls -/

section

variable {tree : SparseMerkleTree} {held : Content}

theorem Represents.apply_written {op : SmtOp} (represents : Represents crypto tree (some held))
    (collisionFree : CollisionFree crypto ((op.apply crypto tree).store.nodeMessages crypto)) :
    ∀ node ∈ held.written op.entry (bits op.key),
      Fresh SmtStore.nodes tree.store (op.apply crypto tree).store (rowOf crypto node) := by
  obtain ⟨isRoot, stored, genuine⟩ := represents
  have updates := @updates_root crypto tree held isRoot (stored held rfl) genuine
  cases op with
  | update key value => exact (updates key value false collisionFree).written
  | remove key => exact (updates key [] true collisionFree).written

/-- An update of the empty tree writes a leaf. -/
theorem update_empty_store (key : Hash) (value : Bytes)
    (isDefault : tree.root = defaultHash crypto KEY_BITS) :
    (tree.update crypto key value).store = (writeLeaf crypto tree.store key value).2 := by
  simp [SparseMerkleTree.update, updateRecursive, isDefault]

end

/-! ## Histories -/

/-- The versions of the calls do not go down, and end at `version`. -/
def Ordered (version : Nat) (history : List VersionedOp) : Prop :=
  (history.filterMap VersionedOp.writeVersion ++ [version]).Pairwise (· ≤ ·)

/-- Nothing of the version was pruned: a prune that would take it came before it. -/
def Retained (version : Nat) (history : List VersionedOp) : Prop :=
  ∀ front keepFrom back, history = front ++ .prune keepFrom :: back → version < keepFrom →
    .save version ∉ front ∧ ∀ op, .write version op ∉ front

theorem Retained.before {more : List VersionedOp} (retained : Retained version (history ++ more)) :
    Retained version history := by
  intro front keepFrom back isHistory
  apply retained front keepFrom (back ++ more)
  rw [isHistory]
  simp

theorem Ordered.before {step : VersionedOp} (ordered : Ordered version (history ++ [step])) :
    Ordered version history := by
  refine List.Pairwise.sublist ?_ ordered
  rw [List.filterMap_append, List.append_assoc]
  exact List.Sublist.append_left (List.sublist_append_right _ _) _

/-- Calls of the last version are not followed by calls of another. -/
theorem Ordered.last {other : Nat} (ordered : Ordered version (history ++ [.write other op]))
    (written : ∃ early, .write version early ∈ history) : other = version := by
  obtain ⟨early, member⟩ := written
  unfold Ordered at ordered
  rw [List.filterMap_append, List.append_assoc, List.pairwise_append] at ordered
  have inVersions : version ∈ history.filterMap VersionedOp.writeVersion :=
    List.mem_filterMap.mpr ⟨_, member, rfl⟩
  have below : version ≤ other := ordered.2.2 version inVersions other List.mem_cons_self
  have above : other ≤ version := by
    have tail := ordered.2.1
    simp [VersionedOp.writeVersion] at tail
    exact tail
  omega

theorem OnRecord.mono {before after : VersionedTree} {version : Nat} {content : Option Content}
    {key : Hash} (onRecord : OnRecord crypto before version content key)
    (nodes : ∀ row ∈ before.nodesHist, row.1.2 = version → row ∈ after.nodesHist)
    (leaves : ∀ row ∈ before.leavesHist, row.1.2 = version → row ∈ after.leavesHist) :
    OnRecord crypto after version content key := by
  intro held isHeld
  obtain ⟨along, values⟩ := onRecord held isHeld
  refine ⟨along.mono fun node row => nodes _ row rfl, ?_⟩
  intro entry isEntry
  exact leaves _ (values entry isEntry) rfl

/-- A call puts the rows it adds on record under its version. -/
theorem nodeRow_of_fresh {node : Content} (positive : version ≠ 0)
    (fresh : Fresh SmtStore.nodes versioned.tree.store (op.apply crypto versioned.tree).store
      (rowOf crypto node)) : NodeRow crypto (versioned.write crypto version op) version node := by
  obtain ⟨added, isAfter, inAdded⟩ := fresh
  exact List.mem_append_left _ ((mem_addedRows isAfter).mpr ⟨positive, rfl, inAdded⟩)

/-- The way of the key of an update is put on record. -/
theorem write_onRecord_own (positive : version ≠ 0)
    (represents : Represents crypto versioned.tree trie) (uniform : Trie.UniformIn KEY_BITS trie)
    (collisionFree : CollisionFree crypto
      (((SmtOp.update key value).apply crypto versioned.tree).store.nodeMessages crypto)) :
    OnRecord crypto (versioned.write crypto version (.update key value)) version
      ((SmtOp.update key value).edit trie) key := by
  have fresh : Fresh SmtStore.leaves versioned.tree.store
      (versioned.tree.update crypto key value).store
      (hashLeaf crypto key (crypto.blake2b value), value) := by
    obtain ⟨isRoot, stored, genuine⟩ := represents
    cases trie with
    | none =>
      rw [update_empty_store key value isRoot]
      exact ⟨[_], rfl, List.mem_cons_self⟩
    | some held =>
      exact (updates_root isRoot (stored held rfl) genuine key value false collisionFree).value rfl
  have valueRow : ValueRow crypto (versioned.write crypto version (.update key value)) version key
      value := by
    obtain ⟨added, isAfter, inAdded⟩ := fresh
    exact List.mem_append_left _ ((mem_addedRows isAfter).mpr ⟨positive, rfl, inAdded⟩)
  have isValue : Trie.lookupIn ((SmtOp.update key value).edit trie) (bits key) = some (key, value) := by
    rw [SmtOp.lookup_edit uniform]
    exact if_pos rfl
  intro held isHeld
  have along : held.Along (NodeRow crypto (versioned.write crypto version (.update key value)) version)
      (bits key) := by
    cases trie with
    | none =>
      cases isHeld
      have fresh : Fresh SmtStore.nodes versioned.tree.store
          (versioned.tree.update crypto key value).store
          (rowOf crypto (.leaf (bits key) (key, value))) := by
        rw [update_empty_store key value represents.root]
        exact ⟨[_], rfl, List.mem_cons_self⟩
      exact nodeRow_of_fresh positive fresh
    | some old =>
      rw [isHeld] at isValue
      rw [SmtOp.edit_some] at isHeld
      refine (uniform old rfl).along_edit (bits_length key) (fun _ _ _ row => row)
        (fun other => absurd rfl other) ?_ isHeld (Option.isSome_of_mem isValue)
      intro node made
      exact nodeRow_of_fresh positive (represents.apply_written collisionFree node made)
  refine ⟨along, ?_⟩
  rw [isHeld] at isValue
  intro entry isEntry
  cases isEntry.symm.trans isValue
  exact valueRow

/-- The way of another key that was on record stays so. -/
theorem write_onRecord_other (positive : version ≠ 0)
    (represents : Represents crypto versioned.tree trie) (uniform : Trie.UniformIn KEY_BITS trie)
    (collisionFree : CollisionFree crypto ((op.apply crypto versioned.tree).store.nodeMessages crypto))
    (different : op.key ≠ key) (isValue : Trie.lookupIn trie (bits key) = some (key, value))
    (onRecord : OnRecord crypto versioned version trie key) :
    OnRecord crypto (versioned.write crypto version op) version (op.edit trie) key := by
  cases trie with
  | none => cases isValue
  | some old =>
    have found : old.lookup (bits key) = some (key, value) := isValue
    have kept := @OnRecord.mono crypto versioned (versioned.write crypto version op) version _ key
      onRecord (fun row member _ => List.mem_append_right _ member)
      (fun row member _ => List.mem_append_right _ member)
    obtain ⟨along, values⟩ := kept old rfl
    have sameValue : Trie.lookupIn (op.edit (some old)) (bits key) = some (key, value) := by
      rw [SmtOp.lookup_edit uniform, if_neg different]
      exact isValue
    intro held isHeld
    rw [isHeld] at sameValue
    refine ⟨?_, ?_⟩
    · rw [SmtOp.edit_some] at isHeld
      refine (uniform old rfl).along_edit (bits_length op.key) (fun _ _ _ row => row)
        (fun _ => along) ?_ isHeld (Option.isSome_of_mem sameValue)
      intro node made
      exact nodeRow_of_fresh positive (represents.apply_written collisionFree node made)
    · intro entry isEntry
      cases isEntry.symm.trans sameValue
      exact values _ found

/-- A key that was written in the last version, and holds what was written, is on record. -/
theorem onRecord_of_update (positive : version ≠ 0) (ordered : Ordered version history)
    (retained : Retained version history)
    (collisionFree : CollisionFree crypto
      ((VersionedTree.run crypto history).tree.store.nodeMessages crypto))
    (held : lastWrite (liveOps history) key = some value)
    (written : .write version (.update key value) ∈ history) :
    OnRecord crypto (VersionedTree.run crypto history) version (contentOf (liveOps history)) key := by
  induction history using List.reverseRecOn with
  | nil => cases written
  | append_singleton history step ih =>
    rw [VersionedTree.run_append] at collisionFree ⊢
    rw [liveOps_append] at held ⊢
    cases step with
    | save other =>
      have isOld : .write version (.update key value) ∈ history := by simpa using written
      have noCall : liveOps [.save other] = [] := rfl
      rw [noCall, List.append_nil] at held ⊢
      exact ih ordered.before retained.before collisionFree held isOld
    | prune keepFrom =>
      have isOld : .write version (.update key value) ∈ history := by simpa using written
      have noCall : liveOps [.prune keepFrom] = [] := rfl
      rw [noCall, List.append_nil] at held ⊢
      have kept : keepFrom ≤ version := by
        by_contra above
        exact (retained history keepFrom [] rfl (Nat.lt_of_not_le above)).2 _ isOld
      have onRecord := ih ordered.before retained.before collisionFree held isOld
      apply onRecord.mono
      · intro row member isVersion
        exact List.mem_filter.mpr ⟨member, decide_eq_true (isVersion ▸ kept)⟩
      · intro row member isVersion
        exact List.mem_filter.mpr ⟨member, decide_eq_true (isVersion ▸ kept)⟩
    | write other op =>
      have single : liveOps [.write other op] = [op] := rfl
      rw [single] at held ⊢
      rw [lastWrite_append] at held
      rw [contentOf_append]
      have writes := @SmtOp.apply_writes crypto op (VersionedTree.run crypto history).tree
      have before := collisionFree.subset writes.nodeMessages
      have represents : Represents crypto (VersionedTree.run crypto history).tree
          (contentOf (liveOps history)) := by
        rw [tree_run] at before ⊢
        exact represents_run (liveOps history) before
      have uniform := contentOf_uniform (liveOps history)
      by_cases sameKey : op.key = key
      · have isOp : op = .update key value := by
          rw [if_pos sameKey] at held
          cases op with
          | update opKey opValue =>
            have isKey : opKey = key := sameKey
            rw [isKey, Option.some.inj held]
          | remove opKey => cases held
        have isVersion : other = version := by
          rcases List.mem_append.mp written with isOld | isLast
          · exact ordered.last ⟨_, isOld⟩
          · cases List.mem_singleton.mp isLast
            rfl
        subst isOp isVersion
        exact write_onRecord_own positive represents uniform collisionFree
      · have isOld : .write version (.update key value) ∈ history := by
          rcases List.mem_append.mp written with isOld | isLast
          · exact isOld
          · cases List.mem_singleton.mp isLast
            exact absurd rfl sameKey
        have isVersion := ordered.last ⟨_, isOld⟩
        subst isVersion
        rw [if_neg sameKey] at held
        have onRecord := ih ordered.before retained.before before held isOld
        apply write_onRecord_other positive represents uniform collisionFree sameKey _ onRecord
        · exact value
        · rw [lookup_contentOf, held]
          rfl

/-! ## Which rows a version has -/

/-- The row of a value was written by an update of its version. -/
theorem update_of_valueRow {row : (Hash × Nat) × Bytes}
    (member : row ∈ (VersionedTree.run crypto history).leavesHist) :
    ∃ key, row.1.1 = hashLeaf crypto key (crypto.blake2b row.2) ∧
      (row.1.1, leafBytes key (crypto.blake2b row.2)) ∈
        (VersionedTree.run crypto history).tree.store.nodes ∧
      row.1.2 ≠ 0 ∧ .write row.1.2 (.update key row.2) ∈ history := by
  induction history using List.reverseRecOn with
  | nil => cases member
  | append_singleton history step ih =>
    have older : row ∈ (VersionedTree.run crypto history).leavesHist →
        ∃ key, row.1.1 = hashLeaf crypto key (crypto.blake2b row.2) ∧
          (row.1.1, leafBytes key (crypto.blake2b row.2)) ∈
            (VersionedTree.run crypto history).tree.store.nodes ∧
          row.1.2 ≠ 0 ∧ .write row.1.2 (.update key row.2) ∈ history ++ [step] := by
      intro isOld
      obtain ⟨key, isHash, isNode, positive, written⟩ := ih isOld
      exact ⟨key, isHash, isNode, positive, List.mem_append_left _ written⟩
    rw [VersionedTree.run_append] at member ⊢
    cases step with
    | save version => exact older member
    | prune keepFrom => exact older (List.mem_filter.mp member).1
    | write version op =>
      obtain ⟨added, isLeaves, ofKey⟩ :=
        (@SmtOp.apply_adds crypto op (VersionedTree.run crypto history).tree).leaves
      rcases List.mem_append.mp member with isNew | isOld
      · obtain ⟨positive, isVersion, inAdded⟩ := (mem_addedRows isLeaves).mp isNew
        obtain ⟨isContent, isHash, isNode⟩ := ofKey _ inAdded
        have isOp : op = .update op.key row.2 := by
          cases op with
          | update key value => rw [Option.some.inj isContent]; rfl
          | remove key => cases isContent
        refine ⟨op.key, isHash, isNode, isVersion ▸ positive, ?_⟩
        rw [← isOp, isVersion]
        exact List.mem_append_right _ List.mem_cons_self
      · obtain ⟨key, isHash, isNode, rest⟩ := older isOld
        exact ⟨key, isHash, (@SmtOp.apply_writes crypto op _).nodes isNode, rest⟩

theorem rows_kept {earlier later : List VersionedOp} {version : Nat}
    (retained : Retained version (earlier ++ .save version :: later)) :
    (∀ row ∈ (VersionedTree.run crypto earlier).nodesHist, row.1.2 = version →
        row ∈ (VersionedTree.run crypto (earlier ++ .save version :: later)).nodesHist) ∧
      ∀ row ∈ (VersionedTree.run crypto earlier).leavesHist, row.1.2 = version →
        row ∈ (VersionedTree.run crypto (earlier ++ .save version :: later)).leavesHist := by
  induction later using List.reverseRecOn with
  | nil =>
    rw [VersionedTree.run_append]
    exact ⟨fun _ member _ => member, fun _ member _ => member⟩
  | append_singleton later step ih =>
    have whole : earlier ++ .save version :: (later ++ [step]) =
        (earlier ++ .save version :: later) ++ [step] := by simp
    rw [whole] at retained ⊢
    obtain ⟨nodes, leaves⟩ := ih retained.before
    rw [VersionedTree.run_append]
    cases step with
    | save other => exact ⟨nodes, leaves⟩
    | write other op =>
      exact ⟨fun row member isVersion => List.mem_append_right _ (nodes row member isVersion),
        fun row member isVersion => List.mem_append_right _ (leaves row member isVersion)⟩
    | prune keepFrom =>
      have kept : keepFrom ≤ version := by
        by_contra above
        apply (retained _ keepFrom [] rfl (Nat.lt_of_not_le above)).1
        simp
      refine ⟨fun row member isVersion => ?_, fun row member isVersion => ?_⟩
      · exact List.mem_filter.mpr
          ⟨nodes row member isVersion, decide_eq_true (isVersion ▸ kept)⟩
      · exact List.mem_filter.mpr
          ⟨leaves row member isVersion, decide_eq_true (isVersion ▸ kept)⟩

/-- When versions grow, a key is on record for a version exactly when it was written in it. -/
theorem onRecord_iff_updated {earlier later : List VersionedOp}
    (lastOps : ∀ op, .write version op ∉ later) (ordered : Ordered version earlier)
    (retained : Retained version (earlier ++ .save version :: later))
    (collisionFree : CollisionFree crypto
      ((VersionedTree.run crypto (earlier ++ .save version :: later)).tree.messages crypto))
    (isValue : lastWrite (liveOps earlier) key = some value) :
    OnRecord crypto (VersionedTree.run crypto (earlier ++ .save version :: later)) version
        (contentOf (liveOps earlier)) key ↔
      version ≠ 0 ∧ .write version (.update key value) ∈ earlier := by
  have nodesFree := collisionFree.subset (List.subset_append_left _ _)
  have historical := @historical_run crypto (earlier ++ .save version :: later)
  have lookups := lookup_contentOf (liveOps earlier) key
  rw [isValue] at lookups
  constructor
  · intro onRecord
    obtain ⟨held, isHeld, found⟩ := Option.bind_eq_some_iff.mp lookups
    obtain ⟨along, values⟩ := onRecord held isHeld
    obtain ⟨suffix, leafRow⟩ := along.leaf_of_lookup found
    obtain ⟨otherKey, _, isNode, positive, written⟩ := update_of_valueRow (values _ found)
    have sameBytes := bytes_eq_of_hash historical.genuine nodesFree (historical.nodes _ leafRow) isNode
    have sameMessage : leafMessage otherKey (crypto.blake2b value) =
        leafMessage key (crypto.blake2b value) := congrArg (DOMAIN_LEAF ++ ·) sameBytes
    have sameKey := (leafMessage_injective sameMessage).1
    subst sameKey
    refine ⟨positive, ?_⟩
    rcases List.mem_append.mp written with inEarlier | inLater
    · exact inEarlier
    · rcases List.mem_cons.mp inLater with isSave | inLater
      · cases isSave
      · exact absurd inLater (lastOps _)
  · rintro ⟨positive, written⟩
    have early : CollisionFree crypto
        ((VersionedTree.run crypto earlier).tree.store.nodeMessages crypto) := by
      have live : liveOps (earlier ++ .save version :: later) = liveOps earlier ++ liveOps later :=
        liveOps_append _ _
      rw [tree_run, live] at nodesFree
      rw [tree_run]
      exact nodesFree.subset (nodeMessages_subset (run_grows _ _).1)
    have retainedEarly : Retained version earlier := retained.before
    have onRecord := onRecord_of_update positive ordered retainedEarly early isValue written
    obtain ⟨nodes, leaves⟩ := @rows_kept crypto earlier later version retained
    exact onRecord.mono nodes leaves

/-- A read of a version finds the value the key had when the version was saved exactly when there
was none, the tree holds the same values again, or the way of the key is on record for the version.
When versions grow and the version is kept, the last is so exactly when the version wrote the
value. -/
theorem getAtVersion_correct_iff (crypto : Primitives) (earlier later : List VersionedOp)
    (version : Nat) (key : Hash) (lastSave : .save version ∉ later)
    (collisionFree : CollisionFree crypto
      ((VersionedTree.run crypto (earlier ++ .save version :: later)).tree.messages crypto)) :
    ((VersionedTree.run crypto (earlier ++ .save version :: later)).getAtVersion crypto key version =
          lastWrite (liveOps earlier) key ↔
        lastWrite (liveOps earlier) key = none ∨
          (∀ other,
            lastWrite (liveOps (earlier ++ later)) other = lastWrite (liveOps earlier) other) ∨
          OnRecord crypto (VersionedTree.run crypto (earlier ++ .save version :: later)) version
            (contentOf (liveOps earlier)) key) ∧
      ((∀ op, .write version op ∉ later) → Ordered version earlier →
        Retained version (earlier ++ .save version :: later) →
        ∀ value, lastWrite (liveOps earlier) key = some value →
          (OnRecord crypto (VersionedTree.run crypto (earlier ++ .save version :: later)) version
              (contentOf (liveOps earlier)) key ↔
            version ≠ 0 ∧ .write version (.update key value) ∈ earlier)) :=
  ⟨getAtVersion_run key lastSave collisionFree, fun lastOps ordered retained _ isValue =>
    onRecord_iff_updated lastOps ordered retained collisionFree isValue⟩

namespace SmallTree

/-- Three versions, each of which writes one key. -/
def firstTwo : List VersionedOp :=
  [.write 1 (.update 1 [7]), .save 1, .write 2 (.update 2 [8])]

def third : List VersionedOp := [.write 3 (.update 3 [9]), .save 3]

/-- In version 2 the first key holds the value version 1 gave it, and a read of version 2 does not
find it. -/
theorem untouched_key_not_found : lastWrite (liveOps firstTwo) 1 = some [7] ∧
      (VersionedTree.run shortHash (firstTwo ++ .save 2 :: third)).getAtVersion shortHash 1 2 =
        none := by
  decide +kernel

theorem threeVersions_collisionFree : CollisionFree shortHash
      ((VersionedTree.run shortHash (firstTwo ++ .save 2 :: third)).tree.messages shortHash) := by
  have free := messages_collisionFree
    [(VersionedTree.run shortHash (firstTwo ++ .save 2 :: third)).tree] []
    (by decide +kernel) (by decide +kernel)
  exact free.subset (by simp)

/-- The key version 2 wrote is found there. -/
theorem written_key_found :
    (VersionedTree.run shortHash (firstTwo ++ .save 2 :: third)).getAtVersion shortHash 2 2 =
      lastWrite (liveOps firstTwo) 2 := by
  obtain ⟨correct, onRecord⟩ := getAtVersion_correct_iff shortHash firstTwo third 2 2 (by decide)
    threeVersions_collisionFree
  refine correct.mpr (Or.inr (Or.inr ((onRecord ?_ ?_ ?_ [8] (by decide)).mpr (by decide))))
  · intro op member
    simp [third] at member
  · unfold Ordered
    decide
  · intro front keepFrom back isHistory
    have pruned : .prune keepFrom ∈ firstTwo ++ .save 2 :: third := by
      rw [isHistory]
      simp
    simp [firstTwo, third] at pruned

end SmallTree

end Clarity.State
