import Clarity.State.SmtNodes

/-!
Contract: the compressed sparse Merkle tree of `State/SparseMerkleTree.cpp`.

Owns: the node and leaf tables, `getRecursive`, `updateRecursive` with its splits and collapses,
and `get`, `update` and `remove` at the root.

A table is the list of its writes, newest first, and a read finds the newest one. The rows of
older versions (`version != 0`) are in tables of their own that these reads never see
(`VersionedTree`); the statistics are left out. The recursion is over fuel: a node that was read
back damaged could name any remaining depth.
-/

namespace Clarity.State

open Common Crypto Library.PackedBits

/-- `TBL_SMT_NODES` and `TBL_SMT_LEAVES`. -/
structure SmtStore where
  nodes : List (Hash × Bytes)
  leaves : List (Hash × Bytes)

namespace SmtStore

def empty : SmtStore := { nodes := [], leaves := [] }

def getNode (store : SmtStore) (hash : Hash) : Option Bytes := store.nodes.lookup hash

def putNode (store : SmtStore) (hash : Hash) (bytes : Bytes) : SmtStore :=
  { store with nodes := (hash, bytes) :: store.nodes }

def getLeafData (store : SmtStore) (hash : Hash) : Option Bytes := store.leaves.lookup hash

def putLeafData (store : SmtStore) (hash : Hash) (value : Bytes) : SmtStore :=
  { store with leaves := (hash, value) :: store.leaves }

/-- The messages that were hashed for nodes: those written at any time, and the default table. -/
def nodeMessages (crypto : Primitives) (store : SmtStore) : List Bytes :=
  store.nodes.map (fun entry => nodeMessage entry.2) ++ defaultMessages crypto

/-- The values that were hashed. -/
def values (store : SmtStore) : List Bytes := store.leaves.map Prod.snd

end SmtStore

section

variable (crypto : Primitives)

def makeLeaf (store : SmtStore) (key valueHash : Hash) : Hash × SmtStore :=
  let hash := hashLeaf crypto key valueHash
  (hash, store.putNode hash (leafBytes key valueHash))

def makeBranch (store : SmtStore) (prefixLen : Nat) (prefixBits : Bytes) (left right : Hash) :
    Hash × SmtStore :=
  let hash := hashBranch crypto prefixLen prefixBits left right
  (hash, store.putNode hash (branchBytes prefixLen prefixBits left right))

/-- A leaf for a new value: its node and its value are written. -/
def writeLeaf (store : SmtStore) (key : Hash) (value : Bytes) : Hash × SmtStore :=
  let leaf := makeLeaf crypto store key (crypto.blake2b value)
  (leaf.1, leaf.2.putLeafData leaf.1 value)

/-! ## Read -/

def getRecursive (store : SmtStore) (key : Hash) : Nat → Hash → Nat → Option Bytes
  | 0, _, _ => none
  | fuel + 1, nodeHash, remainingDepth =>
    if nodeHash = defaultHash crypto remainingDepth then none
    else
      match store.getNode nodeHash with
      | none => none
      | some bytes =>
        if bytes.head? = some TAG_LEAF then
          match parseLeaf bytes with
          | none => none
          | some leaf => if leaf.key ≠ key then none else store.getLeafData nodeHash
        else
          match parseBranch bytes with
          | none => none
          | some branch =>
            let startBit := KEY_BITS - remainingDepth
            if sharesPrefix key startBit branch.prefixLen branch.prefixBits = false then none
            else
              let bit := bitAt key (startBit + branch.prefixLen)
              let childRemaining := sub64 (sub64 remainingDepth branch.prefixLen) 1
              getRecursive store key fuel (if bit then branch.right else branch.left)
                childRemaining

/-! ## Update -/

/-- Case 2, another key: the leaf becomes a branch over the two leaves. -/
def splitLeaf (store : SmtStore) (leaf : LeafNode) (key : Hash) (value : Bytes)
    (remainingDepth : Nat) : Hash × SmtStore :=
  let startBit := KEY_BITS - remainingDepth
  let sharedLen := firstDifference (KEY_BITS - startBit) (fun index => bitAt leaf.key (startBit + index))
    (fun index => bitAt key (startBit + index))
  let sharedBits := packBits sharedLen fun index => bitAt leaf.key (startBit + index)
  if sharedLen ≥ remainingDepth then writeLeaf crypto store key value
  else
    let oldLeaf := makeLeaf crypto store leaf.key leaf.valueHash
    let newLeaf := writeLeaf crypto oldLeaf.2 key value
    let bitOfOld := bitAt leaf.key (startBit + sharedLen)
    makeBranch crypto newLeaf.2 sharedLen sharedBits (if bitOfOld then newLeaf.1 else oldLeaf.1)
      (if bitOfOld then oldLeaf.1 else newLeaf.1)

/-- Case 3a: a branch over the shortened branch and a new leaf. -/
def splitBranch (store : SmtStore) (branch : BranchNode) (key : Hash) (value : Bytes)
    (remainingDepth : Nat) : Hash × SmtStore :=
  let prefixStart := KEY_BITS - remainingDepth
  let divergeAt := firstDifference branch.prefixLen (fun index => bitAt key (prefixStart + index))
    (packed branch.prefixBits)
  let sharedBits := packBits divergeAt fun index => bitAt key (prefixStart + index)
  let remainingPrefixLen := u16 (sub64 (sub64 branch.prefixLen divergeAt) 1)
  let remainingBits := packBits remainingPrefixLen fun index =>
    packed branch.prefixBits (divergeAt + 1 + index)
  let rewritten :=
    makeBranch crypto store remainingPrefixLen remainingBits branch.left branch.right
  let newLeaf := writeLeaf crypto rewritten.2 key value
  let keyBit := bitAt key (prefixStart + divergeAt)
  makeBranch crypto newLeaf.2 divergeAt sharedBits (if keyBit then rewritten.1 else newLeaf.1)
    (if keyBit then newLeaf.1 else rewritten.1)

/-- Case 3b, after the descent: an empty child makes the branch collapse into the other. -/
def rejoin (store : SmtStore) (branch : BranchNode) (newLeft newRight : Hash)
    (remainingDepth childRemaining : Nat) : Hash × SmtStore :=
  let childDefault := defaultHash crypto childRemaining
  if newLeft = childDefault ∧ newRight = childDefault then (defaultHash crypto remainingDepth, store)
  else if newLeft = childDefault ∨ newRight = childDefault then
    let leftIsDefault := decide (newLeft = childDefault)
    let surviving := if leftIsDefault then newRight else newLeft
    let keep := makeBranch crypto store branch.prefixLen branch.prefixBits newLeft newRight
    match store.getNode surviving with
    | none => keep
    | some bytes =>
      if bytes.head? = some TAG_LEAF then (surviving, store)
      else if bytes.head? = some TAG_BRANCH then
        match parseBranch bytes with
        | none => keep
        | some child =>
          let newPrefixLen := u16 (branch.prefixLen + 1 + child.prefixLen)
          let newPrefix := packBits newPrefixLen fun index =>
            if index < branch.prefixLen then packed branch.prefixBits index
            else if index = branch.prefixLen then leftIsDefault
            else packed child.prefixBits (index - (branch.prefixLen + 1))
          makeBranch crypto store newPrefixLen newPrefix child.left child.right
      else keep
  else makeBranch crypto store branch.prefixLen branch.prefixBits newLeft newRight

def updateRecursive (key : Hash) (value : Bytes) (isDelete : Bool) :
    Nat → SmtStore → Hash → Nat → Hash × SmtStore
  | 0, store, nodeHash, _ => (nodeHash, store)
  | fuel + 1, store, nodeHash, remainingDepth =>
    -- An empty subtree, an unreadable node and a leaf with this key end the same way.
    let replaced :=
      if isDelete then (defaultHash crypto remainingDepth, store)
      else writeLeaf crypto store key value
    if nodeHash = defaultHash crypto remainingDepth then replaced
    else
      match store.getNode nodeHash with
      | none => replaced
      | some bytes =>
        if bytes.head? = some TAG_LEAF then
          match parseLeaf bytes with
          | none => replaced
          | some leaf =>
            if leaf.key = key then replaced
            else if isDelete then makeLeaf crypto store leaf.key leaf.valueHash
            else splitLeaf crypto store leaf key value remainingDepth
        else
          match parseBranch bytes with
          | none => replaced
          | some branch =>
            let startBit := KEY_BITS - remainingDepth
            if sharesPrefix key startBit branch.prefixLen branch.prefixBits = false then
              if isDelete then
                makeBranch crypto store branch.prefixLen branch.prefixBits branch.left branch.right
              else splitBranch crypto store branch key value remainingDepth
            else
              let bit := bitAt key (startBit + branch.prefixLen)
              let childRemaining := sub64 (sub64 remainingDepth branch.prefixLen) 1
              let child := updateRecursive key value isDelete fuel store
                (if bit then branch.right else branch.left) childRemaining
              rejoin crypto child.2 branch (if bit then branch.left else child.1)
                (if bit then child.1 else branch.right) remainingDepth childRemaining

end

/-! ## The tree -/

structure SparseMerkleTree where
  root : Hash
  store : SmtStore

namespace SparseMerkleTree

def empty (crypto : Primitives) : SparseMerkleTree :=
  { root := defaultHash crypto KEY_BITS, store := .empty }

def get (crypto : Primitives) (tree : SparseMerkleTree) (key : Hash) : Option Bytes :=
  getRecursive crypto tree.store key (KEY_BITS + 1) tree.root KEY_BITS

def update (crypto : Primitives) (tree : SparseMerkleTree) (key : Hash) (value : Bytes) :
    SparseMerkleTree :=
  let written := updateRecursive crypto key value false (KEY_BITS + 1) tree.store tree.root KEY_BITS
  { root := written.1, store := written.2 }

def remove (crypto : Primitives) (tree : SparseMerkleTree) (key : Hash) : SparseMerkleTree :=
  let written := updateRecursive crypto key [] true (KEY_BITS + 1) tree.store tree.root KEY_BITS
  { root := written.1, store := written.2 }

/-- All messages that were hashed in the life of the tree: nodes, empty subtrees and values. -/
def messages (crypto : Primitives) (tree : SparseMerkleTree) : List Bytes :=
  tree.store.nodeMessages crypto ++ tree.store.values

end SparseMerkleTree

/-- A call on the tree. -/
inductive SmtOp where
  | update (key : Hash) (value : Bytes)
  | remove (key : Hash)
deriving DecidableEq

namespace SmtOp

def key : SmtOp → Hash
  | update key _ => key
  | remove key => key

def value : SmtOp → Option Bytes
  | update _ value => some value
  | remove _ => none

def apply (crypto : Primitives) (tree : SparseMerkleTree) : SmtOp → SparseMerkleTree
  | update key value => tree.update crypto key value
  | remove key => tree.remove crypto key

end SmtOp

/-- A sequence of calls on an empty tree. -/
def SparseMerkleTree.run (crypto : Primitives) (ops : List SmtOp) : SparseMerkleTree :=
  ops.foldl (SmtOp.apply crypto) (.empty crypto)

/-- The value of the last call on a key. -/
def lastWrite (ops : List SmtOp) (key : Hash) : Option Bytes :=
  ops.foldl (fun held op => if op.key = key then op.value else held) none

end Clarity.State
