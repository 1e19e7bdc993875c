import Clarity.Library.PatriciaWay
import Clarity.State.SmtStorage

/-!
Contract: the recursions of the sparse Merkle tree are the operations of a compressed trie.

Owns:
- `Updates`, what a call leaves and which rows it adds, for each of the splits and collapses of
  `updateRecursive`;
- that `updateRecursive` is insertion and deletion of the trie, and `getRecursive` its lookup.
-/

namespace Clarity.State

open Common Crypto Library.PackedBits Library.Patricia

variable {crypto : Primitives} {path rest : List Bool} {trie : Content} {store : SmtStore}

/-! ## What a call leaves -/

/-- A call ended with the hash of a trie that may be empty, whose nodes are stored. -/
structure Leaves (crypto : Primitives) (path : List Bool) (depth : Nat) (result : Hash × SmtStore)
    (trie : Option Content) : Prop where
  root : result.1 = rootOf crypto depth trie
  stored : ∀ held ∈ trie, Stored crypto result.2 held path

theorem Leaves.of_stored {depth : Nat} {result : Hash × SmtStore}
    (root : result.1 = hashOf crypto trie) (stored : Stored crypto result.2 trie path) :
    Leaves crypto path depth result (some trie) := by
  refine ⟨root, ?_⟩
  intro held isHeld
  cases isHeld
  exact stored

/-- The row is one of those added to a table. -/
def Fresh (table : SmtStore → List (Hash × Bytes)) (before after : SmtStore) (row : Hash × Bytes) :
    Prop :=
  ∃ added, table after = added ++ table before ∧ row ∈ added

section

variable {table : SmtStore → List (Hash × Bytes)} {before middle after : SmtStore}
  {row : Hash × Bytes}

theorem Fresh.earlier (fresh : Fresh table before middle row)
    (grows : ∃ late, table after = late ++ table middle) : Fresh table before after row := by
  obtain ⟨early, isMiddle, inEarly⟩ := fresh
  obtain ⟨late, isAfter⟩ := grows
  exact ⟨late ++ early, by rw [isAfter, isMiddle, List.append_assoc], List.mem_append_right _ inEarly⟩

theorem Fresh.later (grows : ∃ early, table middle = early ++ table before)
    (fresh : Fresh table middle after row) : Fresh table before after row := by
  obtain ⟨early, isMiddle⟩ := grows
  obtain ⟨late, isAfter, inLate⟩ := fresh
  exact ⟨late ++ early, by rw [isAfter, isMiddle, List.append_assoc], List.mem_append_left _ inLate⟩

theorem TableWrites.grows_leaves {key : Hash} {content : Option Bytes}
    (writes : TableWrites crypto key content before after) :
    ∃ added, after.leaves = added ++ before.leaves := by
  obtain ⟨added, isAfter, _⟩ := writes.adds.leaves
  exact ⟨added, isAfter⟩

end

/-- What a call leaves of a trie. -/
def edited (isDelete : Bool) (entry : Hash × Bytes) (trie : Content) (rest : List Bool) :
    Option Content :=
  if isDelete then trie.delete rest else some (trie.insert rest entry)

/-- The row of the node at the top of a trie. -/
abbrev rowOf (crypto : Primitives) (trie : Content) : Hash × Bytes :=
  (hashOf crypto trie, topBytes crypto trie)

/-- A call edited the trie: it ended with what the trie operation leaves, put down a row for each
node the operation makes, and an update put down its value. -/
structure Updates (crypto : Primitives) (key : Hash) (value : Bytes) (isDelete : Bool)
    (trie : Content) (path rest : List Bool) (store : SmtStore) (result : Hash × SmtStore) :
    Prop where
  leaves : Leaves crypto path rest.length result (edited isDelete (key, value) trie rest)
  written : ∀ node ∈ trie.written (if isDelete then none else some (key, value)) rest,
    Fresh SmtStore.nodes store result.2 (rowOf crypto node)
  value : isDelete = false → Fresh SmtStore.leaves store result.2
    (hashLeaf crypto key (crypto.blake2b value), value)

section

variable {store : SmtStore} {key : Hash} {value : Bytes} {path rest : List Bool}
  {bit isDelete : Bool} {stem shared later front suffix : List Bool}
  {left right other own first second : Content} {depth childRemaining fuel : Nat}
  {branch : BranchNode} {entry : Hash × Bytes}

theorem startBit_eq (isKey : bits key = path ++ rest) : KEY_BITS - rest.length = path.length := by
  have length := length_of_bits isKey
  omega

theorem writeLeaf_stored (store : SmtStore) (value : Bytes) (isKey : bits key = path ++ rest) :
    Stored crypto (writeLeaf crypto store key value).2 (.leaf rest (key, value)) path := by
  refine ⟨isKey, List.mem_cons_self, ?_⟩
  exact List.lookup_cons_self

theorem writeLeaf_leaves (store : SmtStore) (value : Bytes) (isKey : bits key = path ++ rest) :
    Leaves crypto path rest.length (writeLeaf crypto store key value)
      (some (.leaf rest (key, value))) :=
  .of_stored rfl (writeLeaf_stored store value isKey)

theorem fresh_makeBranch (store : SmtStore) (stem : List Bool) (left right : Content) :
    Fresh SmtStore.nodes store
      (makeBranch crypto store stem.length (pack stem) (hashOf crypto left) (hashOf crypto right)).2
      (rowOf crypto (.branch stem left right)) :=
  ⟨[_], rfl, List.mem_cons_self⟩

/-- The branch over two nodes, with the first on the side of the bit. -/
def makeFork (crypto : Primitives) (store : SmtStore) (stem : List Bool) (bit : Bool)
    (own other : Hash) : Hash × SmtStore :=
  makeBranch crypto store stem.length (pack stem) (if bit then other else own)
    (if bit then own else other)

/-- A branch over two stored tries. -/
theorem makeFork_leaves (ownStored : Stored crypto store own (path ++ stem ++ [bit]))
    (otherStored : Stored crypto store other (path ++ stem ++ [!bit])) :
    Leaves crypto path depth
      (makeFork crypto store stem bit (hashOf crypto own) (hashOf crypto other))
      (some (Trie.fork stem bit own other)) := by
  unfold makeFork
  apply Leaves.of_stored
  · cases bit <;> rfl
  · cases bit
    · exact ⟨List.mem_cons_self, ownStored.putNode _ _, otherStored.putNode _ _⟩
    · exact ⟨List.mem_cons_self, otherStored.putNode _ _, ownStored.putNode _ _⟩

theorem fresh_makeFork (store : SmtStore) (stem : List Bool) (bit : Bool) (own other : Content) :
    Fresh SmtStore.nodes store
      (makeFork crypto store stem bit (hashOf crypto own) (hashOf crypto other)).2
      (rowOf crypto (Trie.fork stem bit own other)) := by
  cases bit
  · exact fresh_makeBranch store stem own other
  · exact fresh_makeBranch store stem other own

/-- The key goes the other way at a fork. -/
theorem not_below_fork {shared right : List Bool} {bit : Bool}
    (isKey : bits key = path ++ (shared ++ (!bit) :: right)) :
    ¬ path ++ shared ++ [bit] <+: bits key := by
  rintro ⟨tail, same⟩
  rw [isKey] at same
  cases bit <;> simp at same

/-- The bits of a key up to a fork. -/
theorem bitAt_fork (isKey : bits key = path ++ (shared ++ bit :: later)) :
    bitAt key (path.length + shared.length) = bit ∧
      ∀ index < shared.length, bitAt key (path.length + index) = shared.getD index false := by
  constructor
  · rw [bitAt_of_bits isKey (by simp)]
    simp
  · intro index below
    rw [bitAt_of_bits isKey (by rw [List.length_append]; omega)]
    simp [List.getD_eq_getElem?_getD, List.getElem?_append_left below]

/-- A leaf is split where the keys part: the old leaf is written again, then the new one, then
the branch over both. -/
theorem splitLeaf_eq (leaf : LeafNode) {shared left right : List Bool} {bit : Bool}
    (isOld : bits leaf.key = path ++ (shared ++ bit :: left))
    (isKey : bits key = path ++ (shared ++ (!bit) :: right)) :
    splitLeaf crypto store leaf key value (shared ++ (!bit) :: right).length =
      let oldLeaf := makeLeaf crypto store leaf.key leaf.valueHash
      let newLeaf := writeLeaf crypto oldLeaf.2 key value
      makeFork crypto newLeaf.2 shared bit oldLeaf.1 newLeaf.1 := by
  obtain ⟨oldFork, oldBits⟩ := bitAt_fork isOld
  obtain ⟨newFork, newBits⟩ := bitAt_fork isKey
  have start := startBit_eq isKey
  have length := length_of_bits isKey
  have limit : KEY_BITS - path.length = (shared ++ (!bit) :: right).length := by omega
  have longer : shared.length < (shared ++ (!bit) :: right).length := by simp
  have isLen : firstDifference (shared ++ (!bit) :: right).length
      (fun index => bitAt leaf.key (path.length + index))
      (fun index => bitAt key (path.length + index)) = shared.length := by
    apply firstDifference_eq longer
    · rw [oldFork, newFork]
      simp
    · intro index below
      rw [oldBits index below, newBits index below]
  have isBits : packBits shared.length (fun index => bitAt leaf.key (path.length + index)) =
      pack shared := packBits_eq_pack rfl oldBits
  simp only [splitLeaf, makeFork, start, limit, isLen, isBits, oldFork,
    if_neg (Nat.not_le.mpr longer)]

/-- A branch of a trie as a node. -/
def branchNode (crypto : Primitives) (stem : List Bool) (left right : Content) : BranchNode :=
  { prefixLen := stem.length
    prefixBits := pack stem
    left := hashOf crypto left
    right := hashOf crypto right }

/-- A branch is split where the key leaves its stem: the shortened branch is written, then the
new leaf, then the branch over both. -/
theorem splitBranch_eq {shared left right : List Bool} {bit : Bool} {first second : Content}
    (bounded : (shared ++ bit :: left).length ≤ KEY_BITS)
    (isKey : bits key = path ++ (shared ++ (!bit) :: right)) :
    splitBranch crypto store (branchNode crypto (shared ++ bit :: left) first second) key value
        (shared ++ (!bit) :: right).length =
      let rewritten := makeBranch crypto store left.length (pack left) (hashOf crypto first)
        (hashOf crypto second)
      let newLeaf := writeLeaf crypto rewritten.2 key value
      makeFork crypto newLeaf.2 shared bit rewritten.1 newLeaf.1 := by
  obtain ⟨newFork, newBits⟩ := bitAt_fork isKey
  have start := startBit_eq isKey
  have stemLength : (shared ++ bit :: left).length = shared.length + (left.length + 1) := by simp
  have divergeAt : firstDifference (shared ++ bit :: left).length
      (fun index => bitAt key (path.length + index)) (packed (pack (shared ++ bit :: left))) =
        shared.length := by
    apply firstDifference_eq (by omega)
    · rw [newFork, packed_pack]
      simp
    · intro index below
      rw [newBits index below, packed_pack]
      simp [List.getD_eq_getElem?_getD, List.getElem?_append_left below]
  have isShared : packBits shared.length (fun index => bitAt key (path.length + index)) =
      pack shared := packBits_eq_pack rfl newBits
  have isLeft : packBits left.length
      (fun index => packed (pack (shared ++ bit :: left)) (shared.length + 1 + index)) = pack left := by
    apply packBits_eq_pack rfl
    intro index below
    have behind : shared.length + 1 + index - shared.length = index + 1 := by omega
    rw [packed_pack, List.getD_eq_getElem?_getD, List.getElem?_append_right (by omega), behind,
      List.getElem?_cons_succ, List.getD_eq_getElem?_getD]
  have remaining : u16 (sub64 (sub64 (shared ++ bit :: left).length shared.length) 1) =
      left.length := by
    unfold KEY_BITS at bounded
    unfold u16 sub64
    omega
  simp only [splitBranch, branchNode, start, divergeAt, isShared, remaining, isLeft, newFork]
  cases bit <;> rfl

/-- Both splits write the part that stays, the new leaf, and the branch over both. -/
theorem split_updates {kept : Content} {fork : Fork} {middle : SmtStore}
    (isKey : bits key = path ++ (fork.shared ++ (!fork.bit) :: fork.right))
    (isEdited : trie.insert rest (key, value) =
      Trie.fork fork.shared fork.bit kept (.leaf fork.right (key, value)))
    (isWritten : trie.written (some (key, value)) rest = [kept, .leaf fork.right (key, value),
      Trie.fork fork.shared fork.bit kept (.leaf fork.right (key, value))])
    (keptWrites : TableWrites crypto key (some value) store middle)
    (keptFresh : Fresh SmtStore.nodes store middle (rowOf crypto kept))
    (keptStored : Stored crypto (writeLeaf crypto middle key value).2 kept
      (path ++ fork.shared ++ [fork.bit])) :
    Updates crypto key value false trie path rest store
      (makeFork crypto (writeLeaf crypto middle key value).2 fork.shared fork.bit
        (hashOf crypto kept) (hashOf crypto (.leaf fork.right (key, value)))) := by
  have leafWrites := @TableWrites.writeLeaf crypto key middle value
  have branchWrites : TableWrites crypto key (some value) _ (makeFork crypto
      (writeLeaf crypto middle key value).2 fork.shared fork.bit (hashOf crypto kept)
      (hashOf crypto (.leaf fork.right (key, value)))).2 := TableWrites.makeBranch _ _ _ _ _
  have leafFresh : Fresh SmtStore.nodes middle (writeLeaf crypto middle key value).2
      (rowOf crypto (.leaf fork.right (key, value))) := ⟨[_], rfl, List.mem_cons_self⟩
  have valueFresh : Fresh SmtStore.leaves middle (writeLeaf crypto middle key value).2
      (hashLeaf crypto key (crypto.blake2b value), value) := ⟨[_], rfl, List.mem_cons_self⟩
  refine ⟨?_, ?_, fun _ => (Fresh.later keptWrites.grows_leaves valueFresh).earlier
    branchWrites.grows_leaves⟩
  · rw [edited, if_neg (by decide), isEdited]
    apply makeFork_leaves keptStored
    apply writeLeaf_stored
    rw [isKey]
    simp
  · intro node member
    rw [if_neg (by decide), isWritten] at member
    rcases List.mem_cons.mp member with isKept | member
    · rw [isKept]
      exact (keptFresh.earlier leafWrites.adds.nodes).earlier branchWrites.adds.nodes
    rcases List.mem_cons.mp member with isLeaf | member
    · rw [isLeaf]
      exact (Fresh.later keptWrites.adds.nodes leafFresh).earlier branchWrites.adds.nodes
    rw [List.mem_singleton.mp member]
    have bothWrites : TableWrites crypto key (some value) store _ := keptWrites.trans leafWrites
    exact Fresh.later bothWrites.adds.nodes (fresh_makeFork _ fork.shared fork.bit _ _)

theorem splitLeaf_updates {fork : Fork}
    (stored : Stored crypto store (.leaf suffix entry) path) (isKey : bits key = path ++ rest)
    (parts : diverge suffix rest = some fork)
    (collisionFree : CollisionFree crypto ((splitLeaf crypto store
      { key := entry.1, valueHash := crypto.blake2b entry.2 } key value rest.length).2.nodeMessages
        crypto)) :
    Updates crypto key value false (.leaf suffix entry) path rest store
      (splitLeaf crypto store { key := entry.1, valueHash := crypto.blake2b entry.2 } key value
        rest.length) := by
  obtain ⟨isSuffix, isRest⟩ := diverge_eq_some parts
  have isOld : bits entry.1 = path ++ (fork.shared ++ fork.bit :: fork.left) :=
    isSuffix ▸ stored.1
  rw [isRest] at isKey
  have steps := @splitLeaf_eq crypto store key value path
    { key := entry.1, valueHash := crypto.blake2b entry.2 } fork.shared fork.left fork.right fork.bit
    isOld isKey
  rw [← isRest] at steps
  rw [steps] at collisionFree ⊢
  have writes : Writes crypto key store (writeLeaf crypto
      (makeLeaf crypto store entry.1 (crypto.blake2b entry.2)).2 key value).2 :=
    .of_tableWrites ((TableWrites.makeLeaf store _ _).trans (TableWrites.writeLeaf _ value))
  refine @split_updates crypto _ _ key value path rest (.leaf fork.left entry) fork _ isKey
    (by simp [Trie.insert, parts]) (by simp [Trie.written, parts]) (.makeLeaf store _ _)
    ⟨[_], rfl, List.mem_cons_self⟩ ?_
  rw [isSuffix] at stored
  -- the leaf of the other key moves below the branch
  have below : Stored crypto store (.leaf fork.left entry) (path ++ fork.shared ++ [fork.bit]) :=
    ⟨by rw [stored.1]; simp, stored.2⟩
  apply below.outside writes _ (not_below_fork isKey)
  exact collisionFree.subset
    (Writes.of_tableWrites (@TableWrites.makeBranch crypto key none _ _ _ _ _)).nodeMessages

theorem splitBranch_updates {fork : Fork}
    (stored : Stored crypto store (.branch stem left right) path) (isKey : bits key = path ++ rest)
    (bounded : stem.length ≤ KEY_BITS) (parts : diverge stem rest = some fork)
    (collisionFree : CollisionFree crypto ((splitBranch crypto store
      (branchNode crypto stem left right) key value rest.length).2.nodeMessages crypto)) :
    Updates crypto key value false (.branch stem left right) path rest store
      (splitBranch crypto store (branchNode crypto stem left right) key value rest.length) := by
  obtain ⟨isStem, isRest⟩ := diverge_eq_some parts
  rw [isRest] at isKey
  have steps := @splitBranch_eq crypto store key value path fork.shared fork.left fork.right fork.bit
    left right (isStem ▸ bounded) isKey
  rw [← isRest, ← isStem] at steps
  rw [steps] at collisionFree ⊢
  have shortened : Stored crypto
      (makeBranch crypto store fork.left.length (pack fork.left) (hashOf crypto left)
        (hashOf crypto right)).2
      (.branch fork.left left right) (path ++ fork.shared ++ [fork.bit]) := by
    rw [isStem] at stored
    obtain ⟨_, lefts, rights⟩ := stored
    refine ⟨List.mem_cons_self, Stored.putNode ?_ _ _, Stored.putNode ?_ _ _⟩
    · simpa using lefts
    · simpa using rights
  refine @split_updates crypto _ _ key value path rest (.branch fork.left left right) fork _ isKey
    (by simp [Trie.insert, parts]) (by simp [Trie.written, parts]) (.makeBranch store _ _ _ _)
    (fresh_makeBranch store fork.left left right) ?_
  apply shortened.outside (.of_tableWrites (.writeLeaf _ value)) _ (not_below_fork isKey)
  exact collisionFree.subset
    (Writes.of_tableWrites (@TableWrites.makeBranch crypto key none _ _ _ _ _)).nodeMessages

theorem stored_attach {trie : Content} (stored : Stored crypto store trie (path ++ front))
    (top : (hashOf crypto (Trie.attach front trie), topBytes crypto (Trie.attach front trie)) ∈
      store.nodes) : Stored crypto store (Trie.attach front trie) path := by
  cases trie with
  | leaf suffix entry =>
    obtain ⟨isKey, isNode, isValue⟩ := stored
    exact ⟨by rw [isKey]; simp, isNode, isValue⟩
  | branch stem left right =>
    obtain ⟨_, lefts, rights⟩ := stored
    exact ⟨top, by simpa using lefts, by simpa using rights⟩

theorem pack_merged (stem later : List Bool) (bit : Bool) :
    packBits (stem.length + 1 + later.length) (fun index =>
        if index < stem.length then packed (pack stem) index
        else if index = stem.length then bit
        else packed (pack later) (index - (stem.length + 1))) =
      pack (stem ++ [bit] ++ later) := by
  apply packBits_eq_pack
  · simp only [List.length_append, List.length_singleton]
  · intro index below
    by_cases inStem : index < stem.length
    · rw [if_pos inStem, packed_pack]
      simp [List.getD_eq_getElem?_getD, List.getElem?_append_left inStem]
    · rw [if_neg inStem]
      by_cases isBit : index = stem.length
      · subst isBit
        simp
      · have behind : index - stem.length = index - (stem.length + 1) + 1 := by omega
        rw [if_neg isBit, packed_pack, List.append_assoc, List.getD_eq_getElem?_getD,
          List.getD_eq_getElem?_getD, List.getElem?_append_right (by omega), behind]
        simp

/-- The end of a call below a branch: the child on the side of the bit has a new hash. -/
def joinChild (crypto : Primitives) (store : SmtStore) (branch : BranchNode) (bit : Bool)
    (own other : Hash) (depth childRemaining : Nat) : Hash × SmtStore :=
  rejoin crypto store branch (if bit then other else own) (if bit then own else other) depth
    childRemaining

section

variable (genuine : Genuine crypto store)
  (collisionFree : CollisionFree crypto (store.nodeMessages crypto))
include genuine collisionFree

/-- A branch whose child on one side became empty, over a branch: the stems are joined. -/
theorem joinChild_lone_branch
    (stored : Stored crypto store (.branch later left right) (path ++ (stem ++ [!bit]))) :
    joinChild crypto store (branchNode crypto stem first second) bit
        (defaultHash crypto childRemaining) (hashOf crypto (.branch later left right)) depth
        childRemaining =
      makeBranch crypto store (stem ++ [!bit] ++ later).length (pack (stem ++ [!bit] ++ later))
        (hashOf crypto left) (hashOf crypto right) := by
  have different := hash_ne_default genuine collisionFree stored.top childRemaining
  have read := getNode_of_mem genuine collisionFree stored.top
  have inside := stored.stem_lt
  simp only [List.length_append, List.length_singleton] at inside
  have parsed := parseBranch_branchBytes (@wellSized_pack later (by omega))
    (hashOf crypto left) (hashOf crypto right)
  have narrow : u16 (stem.length + 1 + later.length) = stem.length + 1 + later.length := by
    unfold KEY_BITS at inside
    unfold u16
    omega
  have merged : (stem ++ [!bit] ++ later).length = stem.length + 1 + later.length := by
    simp only [List.length_append, List.length_singleton]
  rw [merged, ← pack_merged]
  cases bit <;>
    simp [joinChild, branchNode, rejoin, different, read, topBytes, parsed, narrow, TAG_LEAF,
      TAG_BRANCH]

/-- A branch over the edited child and the other one is written, unless the child became empty
and a leaf moves up. -/
theorem joinChild_joins {shrunk : Option Content}
    (ownStored : ∀ held ∈ shrunk, Stored crypto store held (path ++ stem ++ [bit]))
    (otherStored : Stored crypto store other (path ++ stem ++ [!bit])) :
    Leaves crypto path depth
        (joinChild crypto store (branchNode crypto stem first second) bit
          (rootOf crypto childRemaining shrunk) (hashOf crypto other) depth childRemaining)
        (some (Trie.shrink stem bit shrunk other)) ∧
      ∀ node ∈ Trie.rejoined stem bit shrunk other,
        Fresh SmtStore.nodes store
          (joinChild crypto store (branchNode crypto stem first second) bit
            (rootOf crypto childRemaining shrunk) (hashOf crypto other) depth childRemaining).2
          (rowOf crypto node) := by
  cases shrunk with
  | none =>
    rw [List.append_assoc] at otherStored
    cases other with
    | leaf suffix entry =>
      -- the leaf moves up
      have different := hash_ne_default genuine collisionFree otherStored.top childRemaining
      have read := getNode_of_mem genuine collisionFree otherStored.top
      have steps : joinChild crypto store (branchNode crypto stem first second) bit
          (defaultHash crypto childRemaining) (hashOf crypto (.leaf suffix entry)) depth
          childRemaining = (hashOf crypto (.leaf suffix entry), store) := by
        cases bit <;> simp [joinChild, rejoin, different, read, topBytes]
      rw [rootOf, steps]
      exact ⟨.of_stored rfl (stored_attach otherStored otherStored.top),
        fun _ member => absurd member List.not_mem_nil⟩
    | branch later left right =>
      rw [rootOf, joinChild_lone_branch genuine collisionFree otherStored]
      refine ⟨.of_stored rfl (stored_attach (otherStored.putNode _ _) List.mem_cons_self), ?_⟩
      intro node member
      rw [List.mem_singleton.mp member]
      exact fresh_makeBranch store (stem ++ [!bit] ++ later) left right
  | some own =>
    have ownDifferent := hash_ne_default genuine collisionFree (ownStored own rfl).top childRemaining
    have otherDifferent := hash_ne_default genuine collisionFree otherStored.top childRemaining
    have steps : joinChild crypto store (branchNode crypto stem first second) bit (hashOf crypto own)
        (hashOf crypto other) depth childRemaining =
        makeFork crypto store stem bit (hashOf crypto own) (hashOf crypto other) := by
      cases bit <;> simp [joinChild, makeFork, branchNode, rejoin, ownDifferent, otherDifferent]
    rw [rootOf, steps]
    refine ⟨makeFork_leaves (ownStored own rfl) otherStored, ?_⟩
    intro node member
    rw [List.mem_singleton.mp member]
    exact fresh_makeFork store stem bit own other

end

/-! ## The recursion -/

theorem updateRecursive_branch {isDelete : Bool} {fuel remainingDepth : Nat} {nodeHash : Hash}
    {branch : BranchNode} (different : nodeHash ≠ defaultHash crypto remainingDepth)
    (wellSized : WellSized branch.prefixLen branch.prefixBits)
    (read : store.getNode nodeHash =
      some (branchBytes branch.prefixLen branch.prefixBits branch.left branch.right)) :
    updateRecursive crypto key value isDelete (fuel + 1) store nodeHash remainingDepth =
      if sharesPrefix key (KEY_BITS - remainingDepth) branch.prefixLen branch.prefixBits = false then
        if isDelete then
          makeBranch crypto store branch.prefixLen branch.prefixBits branch.left branch.right
        else splitBranch crypto store branch key value remainingDepth
      else
        let bit := bitAt key (KEY_BITS - remainingDepth + branch.prefixLen)
        let childRemaining := sub64 (sub64 remainingDepth branch.prefixLen) 1
        let child := updateRecursive crypto key value isDelete fuel store
          (if bit then branch.right else branch.left) childRemaining
        rejoin crypto child.2 branch (if bit then branch.left else child.1)
          (if bit then child.1 else branch.right) remainingDepth childRemaining := by
  have isBranch : ¬ some TAG_BRANCH = some TAG_LEAF := by decide
  rw [updateRecursive]
  simp only [if_neg different, read, branchBytes_head, if_neg isBranch,
    parseBranch_branchBytes wellSized]

/-- The depth below a branch: the subtraction does not wrap. -/
theorem childDepth_eq (isKey : bits key = path ++ (stem ++ bit :: later)) :
    sub64 (sub64 (stem ++ bit :: later).length stem.length) 1 = later.length := by
  have length := length_of_bits isKey
  unfold KEY_BITS at length
  rw [List.length_append, List.length_cons] at length ⊢
  unfold sub64
  omega

/-- Where the key goes at a stored branch. -/
theorem Stored.branch_cases (stored : Stored crypto store (.branch stem left right) path)
    (isKey : bits key = path ++ rest) :
    stem.length ≤ KEY_BITS ∧
      ((∃ fork, diverge stem rest = some fork ∧ (∀ bit later, rest ≠ stem ++ bit :: later) ∧
          sharesPrefix key path.length stem.length (pack stem) = false) ∨
        ∃ bit later, rest = stem ++ bit :: later ∧
          ¬ sharesPrefix key path.length stem.length (pack stem) = false) := by
  have length := length_of_bits isKey
  have uniform : (Trie.branch stem left right).Uniform rest.length := stored.uniform (by omega)
  have longer : stem.length ≤ rest.length := by
    obtain ⟨below, isLength, _⟩ := uniform
    omega
  refine ⟨by omega, ?_⟩
  cases parts : diverge stem rest with
  | some fork =>
    refine .inl ⟨fork, rfl, fun _ _ => outside_of_diverge parts _, ?_⟩
    rw [← Bool.not_eq_true, sharesPrefix_pack isKey longer]
    exact fun ⟨tail, isRest⟩ => outside_of_diverge parts tail isRest.symm
  | none =>
    obtain ⟨bit, later, isRest, _⟩ := uniform.strip_branch parts
    refine .inr ⟨bit, later, isRest, ?_⟩
    rw [Bool.not_eq_false, sharesPrefix_pack isKey longer, isRest]
    exact List.prefix_append _ _

theorem shorter_below (enough : (stem ++ bit :: later).length < fuel + 1) :
    later.length < fuel := by
  rw [List.length_append, List.length_cons] at enough
  omega

theorem below_key (isKey : bits key = path ++ (stem ++ bit :: later)) :
    bits key = (path ++ stem ++ [bit]) ++ later := by
  rw [isKey]
  simp

section

variable (stored : Stored crypto store (.branch stem left right) path)
  (genuine : Genuine crypto store)
  (collisionFree : CollisionFree crypto (store.nodeMessages crypto))
include stored genuine collisionFree

/-- The key goes on behind the stem of a stored branch. -/
theorem Stored.updateRecursive_behind (isKey : bits key = path ++ (stem ++ bit :: later))
    (goesOn : ¬ sharesPrefix key path.length stem.length (pack stem) = false) :
    updateRecursive crypto key value isDelete (fuel + 1) store
        (hashOf crypto (.branch stem left right)) (stem ++ bit :: later).length =
      let child := updateRecursive crypto key value isDelete fuel store
        (hashOf crypto (Trie.child bit left right)) later.length
      joinChild crypto child.2 (branchNode crypto stem left right) bit child.1
        (hashOf crypto (Trie.child (!bit) left right)) (stem ++ bit :: later).length
        later.length := by
  obtain ⟨bounded, _⟩ := stored.branch_cases isKey
  have steps := @updateRecursive_branch crypto store key value isDelete fuel
    (stem ++ bit :: later).length (hashOf crypto (.branch stem left right))
    (branchNode crypto stem left right) (hash_ne_default genuine collisionFree stored.top _)
    (wellSized_pack bounded) (getNode_of_mem genuine collisionFree stored.top)
  rw [startBit_eq isKey] at steps
  refine (steps.trans (if_neg goesOn)).trans ?_
  simp only [branchNode, (bitAt_fork isKey).1, childDepth_eq isKey, joinChild]
  cases bit <;> rfl

end

/-- The leaf a key ends at holds it exactly when the bits that are left are the same. -/
theorem suffix_eq_iff (isOld : bits entry.1 = path ++ suffix) (isKey : bits key = path ++ rest) :
    suffix = rest ↔ entry.1 = key := by
  constructor
  · intro same
    rw [same, ← isKey] at isOld
    exact bits_injective isOld
  · intro same
    rw [same, isKey] at isOld
    exact (List.append_cancel_left isOld).symm

theorem updateRecursive_leaf_updates
    (stored : Stored crypto store (.leaf suffix entry) path) (genuine : Genuine crypto store)
    (isKey : bits key = path ++ rest)
    (collisionFree : CollisionFree crypto ((updateRecursive crypto key value isDelete (fuel + 1) store
      (hashOf crypto (.leaf suffix entry)) rest.length).2.nodeMessages crypto)) :
    Updates crypto key value isDelete (.leaf suffix entry) path rest store
      (updateRecursive crypto key value isDelete (fuel + 1) store (hashOf crypto (.leaf suffix entry))
        rest.length) := by
  have before : CollisionFree crypto (store.nodeMessages crypto) :=
    collisionFree.subset
      (Writes.of_tableWrites (TableWrites.updateRecursive (fun _ => rfl) _ store _ _)).nodeMessages
  have different := hash_ne_default genuine before stored.top rest.length
  have read : store.getNode (hashOf crypto (.leaf suffix entry)) =
      some (leafBytes entry.1 (crypto.blake2b entry.2)) := getNode_of_mem genuine before stored.top
  rw [updateRecursive] at collisionFree ⊢
  simp only [if_neg different, read, leafBytes_head, if_true, parseLeaf_leafBytes]
    at collisionFree ⊢
  have isOld : bits entry.1 = path ++ suffix := stored.1
  have keys := suffix_eq_iff isOld isKey
  by_cases sameKey : entry.1 = key
  · have together : diverge suffix suffix = none := by
      have itself := diverge_append suffix []
      rwa [List.append_nil] at itself
    have isSuffix := keys.mpr sameKey
    subst isSuffix
    rw [if_pos sameKey]
    cases isDelete with
    | true =>
      have gone : edited true (key, value) (.leaf suffix entry) suffix = none := by
        simp [edited, Trie.delete]
      refine ⟨?_, by simp [Trie.written], fun isUpdate => Bool.noConfusion isUpdate⟩
      rw [gone]
      exact ⟨rfl, by simp⟩
    | false =>
      have replaced : edited false (key, value) (.leaf suffix entry) suffix =
          some (.leaf suffix (key, value)) := by
        simp [edited, Trie.insert, together]
      refine ⟨?_, ?_, fun _ => ⟨[_], rfl, List.mem_cons_self⟩⟩
      · rw [replaced]
        exact writeLeaf_leaves store value isKey
      · intro node member
        simp only [Trie.written, together, Bool.false_eq_true, if_false, List.mem_singleton] at member
        rw [member]
        exact ⟨[_], rfl, List.mem_cons_self⟩
  · rw [if_neg sameKey] at collisionFree ⊢
    have apart := keys.not.mpr sameKey
    cases isDelete with
    | true =>
      have kept : edited true (key, value) (.leaf suffix entry) rest = some (.leaf suffix entry) :=
        if_neg apart
      refine ⟨?_, ?_, fun isUpdate => Bool.noConfusion isUpdate⟩
      · rw [kept]
        exact .of_stored rfl (stored.putNode _ _)
      · intro node member
        simp only [Trie.written, if_true, if_neg apart, List.mem_singleton] at member
        rw [member]
        exact ⟨[_], rfl, List.mem_cons_self⟩
    | false =>
      cases parts : diverge suffix rest with
      | none =>
        have oldLength := length_of_bits isOld
        have newLength := length_of_bits isKey
        exact absurd (eq_of_diverge_eq_none parts (by omega)) apart
      | some fork => exact splitLeaf_updates stored isKey parts collisionFree

theorem edited_eq_edit (isDelete : Bool) (entry : Hash × Bytes) (trie : Content) (rest : List Bool) :
    edited isDelete entry trie rest = trie.edit (if isDelete then none else some entry) rest := by
  cases isDelete <;> rfl

/-- A call is insertion or deletion in the trie. -/
theorem updateRecursive_updates (stored : Stored crypto store trie path)
    (genuine : Genuine crypto store) (isKey : bits key = path ++ rest) (enough : rest.length < fuel)
    (collisionFree : CollisionFree crypto ((updateRecursive crypto key value isDelete fuel store
      (hashOf crypto trie) rest.length).2.nodeMessages crypto)) :
    Updates crypto key value isDelete trie path rest store
      (updateRecursive crypto key value isDelete fuel store (hashOf crypto trie) rest.length) := by
  induction trie using Trie.sides generalizing path rest fuel with
  | leaf suffix entry =>
    rcases fuel with _ | fuel
    · omega
    exact updateRecursive_leaf_updates stored genuine isKey collisionFree
  | branch stem left right ih =>
    rcases fuel with _ | fuel
    · omega
    have before : CollisionFree crypto (store.nodeMessages crypto) :=
      collisionFree.subset
        (Writes.of_tableWrites (TableWrites.updateRecursive (fun _ => rfl) _ store _ _)).nodeMessages
    obtain ⟨bounded, ⟨fork, parts, outside, leaves⟩ | ⟨bit, later, isRest, goesOn⟩⟩ :=
      stored.branch_cases isKey
    · -- the key leaves the stem of the branch
      have steps := @updateRecursive_branch crypto store key value isDelete fuel rest.length
        (hashOf crypto (.branch stem left right)) (branchNode crypto stem left right)
        (hash_ne_default genuine before stored.top _) (wellSized_pack bounded)
        (getNode_of_mem genuine before stored.top)
      rw [startBit_eq isKey] at steps
      rw [steps.trans (if_pos leaves)] at collisionFree ⊢
      cases isDelete with
      | true =>
        have kept : edited true (key, value) (.branch stem left right) rest =
            some (.branch stem left right) := Trie.delete_branch_of_outside outside
        refine ⟨?_, ?_, fun isUpdate => Bool.noConfusion isUpdate⟩
        · rw [kept]
          exact .of_stored rfl (stored.putNode _ _)
        · intro node member
          simp only [Trie.written, parts, if_true, List.mem_singleton] at member
          rw [member]
          exact fresh_makeBranch store stem left right
      | false => exact splitBranch_updates stored isKey bounded parts collisionFree
    · subst isRest
      rw [stored.updateRecursive_behind genuine before isKey goesOn] at collisionFree ⊢
      have aboveKey : ¬ path ++ stem ++ [!bit] <+: bits key :=
        @not_below_fork key path stem later (!bit) (by rw [isKey, Bool.not_not])
      have shorter := shorter_below enough
      have childWrites : TableWrites crypto key (some value) store
          (updateRecursive crypto key value isDelete fuel store
            (hashOf crypto (Trie.child bit left right)) later.length).2 :=
        TableWrites.updateRecursive (fun _ => rfl) fuel store _ _
      have writes := Writes.of_tableWrites childWrites
      have childFree := collisionFree.subset
        (Writes.of_tableWrites (@TableWrites.rejoin crypto key none _ _ _ _ _ _)).nodeMessages
      have child := ih bit (stored.child bit) (below_key isKey) shorter childFree
      have joined := @joinChild_joins crypto _ path bit stem
        (Trie.child (!bit) left right) left right (stem ++ bit :: later).length later.length
        (writes.genuine genuine) childFree _ child.leaves.stored
        ((stored.child (!bit)).outside writes childFree aboveKey)
      rw [← child.leaves.root] at joined
      have grows := @TableWrites.rejoin crypto key (some value)
      refine ⟨?_, ?_, fun isUpdate => (child.value isUpdate).earlier (grows ..).grows_leaves⟩
      · rw [edited_eq_edit, Trie.edit_branch, ← edited_eq_edit]
        exact joined.1
      · intro node member
        rw [Trie.written_branch, ← edited_eq_edit] at member
        rcases List.mem_append.mp member with inChild | inJoined
        · exact (child.written node inChild).earlier (grows ..).adds.nodes
        · exact Fresh.later childWrites.adds.nodes (joined.2 node inJoined)

end

theorem getRecursive_eq_lookup {key : Hash} {trie : Content} {path rest : List Bool} {fuel : Nat}
    {store : SmtStore} (stored : Stored crypto store trie path) (genuine : Genuine crypto store)
    (isKey : bits key = path ++ rest) (enough : rest.length < fuel)
    (collisionFree : CollisionFree crypto (store.nodeMessages crypto)) :
    getRecursive crypto store key fuel (hashOf crypto trie) rest.length =
      (trie.lookup rest).map Prod.snd := by
  induction trie using Trie.sides generalizing path rest fuel with
  | leaf suffix entry =>
    rcases fuel with _ | fuel
    · omega
    have different := hash_ne_default genuine collisionFree stored.top rest.length
    have read := getNode_of_mem genuine collisionFree stored.top
    obtain ⟨isOld, _, isValue⟩ := stored
    rw [getRecursive, if_neg different, read]
    simp only [topBytes, leafBytes_head, if_true, parseLeaf_leafBytes, isValue, Trie.lookup_leaf]
    have keys := suffix_eq_iff isOld isKey
    by_cases sameKey : entry.1 = key
    · simp [sameKey, keys.mpr sameKey]
    · simp [sameKey, keys.not.mpr sameKey]
  | branch stem left right ih =>
    rcases fuel with _ | fuel
    · omega
    have different := hash_ne_default genuine collisionFree stored.top rest.length
    have read := getNode_of_mem genuine collisionFree stored.top
    obtain ⟨bounded, goes⟩ := stored.branch_cases isKey
    have isBranch : ¬ some TAG_BRANCH = some TAG_LEAF := by decide
    rw [getRecursive, if_neg different, read]
    simp only [topBytes, branchBytes_head, if_neg isBranch,
      parseBranch_branchBytes (wellSized_pack bounded), startBit_eq isKey]
    rcases goes with ⟨_, _, outside, leaves⟩ | ⟨bit, later, isRest, goesOn⟩
    · rw [if_pos leaves, Trie.lookup_branch_of_strip outside]
      rfl
    · subst isRest
      have shorter := shorter_below enough
      rw [if_neg goesOn, (bitAt_fork isKey).1, childDepth_eq isKey, Trie.lookup_branch]
      have child := ih bit (stored.child bit) (below_key isKey) shorter
      cases bit <;> exact child

end Clarity.State
