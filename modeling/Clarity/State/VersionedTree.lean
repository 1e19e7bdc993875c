import Clarity.State.SparseMerkleTree

/-!
Contract: the versions of a sparse Merkle tree: the historical tables of `State/StateDB.cpp` and
the reads of `SparseMerkleTree::getAtVersion`.

Owns: `TBL_SMT_NODES_HIST` and `TBL_SMT_LEAVES_HIST`, the roots saved under `smt_root_at_<version>`,
calls with a version, `save`, `pruneHistory` and the walk of a historical read.

`putNodeImpl` and `putLeafDataImpl` write each row of a live table a second time, under its hash and
the version, unless the version is 0. A live table is the list of its writes, so these are the rows
the call added. The by-version indexes hold the keys of the historical rows in the order of their
versions; `pruneOneTableImpl` scans them up to the first version it keeps, so it deletes the rows of
all lower versions. The indexes and the statistics are left out.
-/

namespace Clarity.State

open Common Crypto Library.PackedBits

/-- A historical table: rows under a hash and a version. -/
abbrev HistoricalRows := List ((Hash × Nat) × Bytes)

structure VersionedTree where
  tree : SparseMerkleTree
  nodesHist : HistoricalRows
  leavesHist : HistoricalRows
  roots : List (Nat × Hash)

def addedRows (version : Nat) (before after : List (Hash × Bytes)) : HistoricalRows :=
  if version = 0 then []
  else (after.take (after.length - before.length)).map fun row => ((row.1, version), row.2)

namespace VersionedTree

def empty (crypto : Primitives) : VersionedTree :=
  { tree := .empty crypto, nodesHist := [], leavesHist := [], roots := [] }

/-- `update` and `remove` with a version. -/
def write (crypto : Primitives) (versioned : VersionedTree) (version : Nat) (op : SmtOp) :
    VersionedTree :=
  let after := op.apply crypto versioned.tree
  { versioned with
    tree := after
    nodesHist := addedRows version versioned.tree.store.nodes after.store.nodes ++ versioned.nodesHist
    leavesHist :=
      addedRows version versioned.tree.store.leaves after.store.leaves ++ versioned.leavesHist }

def save (versioned : VersionedTree) (version : Nat) : VersionedTree :=
  { versioned with roots := (version, versioned.tree.root) :: versioned.roots }

def pruneHistory (versioned : VersionedTree) (keepFrom : Nat) : VersionedTree :=
  { versioned with
    nodesHist := versioned.nodesHist.filter fun row => keepFrom ≤ row.1.2
    leavesHist := versioned.leavesHist.filter fun row => keepFrom ≤ row.1.2 }

/-! ## Historical reads -/

def getNodeAtVersion (versioned : VersionedTree) (hash : Hash) (version : Nat) : Option Bytes :=
  versioned.nodesHist.lookup (hash, version)

def getLeafDataAtVersion (versioned : VersionedTree) (hash : Hash) (version : Nat) : Option Bytes :=
  versioned.leavesHist.lookup (hash, version)

def getAtVersionRecursive (crypto : Primitives) (versioned : VersionedTree) (key : Hash)
    (version : Nat) : Nat → Hash → Nat → Option Bytes
  | 0, _, _ => none
  | fuel + 1, nodeHash, remainingDepth =>
    if nodeHash = defaultHash crypto remainingDepth then none
    else
      match versioned.getNodeAtVersion nodeHash version with
      | none => none
      | some bytes =>
        if bytes.head? = some TAG_LEAF then
          match parseLeaf bytes with
          | none => none
          | some leaf =>
            if leaf.key ≠ key then none else versioned.getLeafDataAtVersion nodeHash version
        else
          match parseBranch bytes with
          | none => none
          | some branch =>
            let startBit := KEY_BITS - remainingDepth
            if sharesPrefix key startBit branch.prefixLen branch.prefixBits = false then none
            else
              let bit := bitAt key (startBit + branch.prefixLen)
              let childRemaining := sub64 (sub64 remainingDepth branch.prefixLen) 1
              getAtVersionRecursive crypto versioned key version fuel
                (if bit then branch.right else branch.left) childRemaining

def rootAtVersion (versioned : VersionedTree) (version : Nat) : Option Hash :=
  versioned.roots.lookup version

def getAtVersion (crypto : Primitives) (versioned : VersionedTree) (key : Hash) (version : Nat) :
    Option Bytes :=
  match versioned.rootAtVersion version with
  | none => none
  | some historicRoot =>
    -- While the root is still the saved one, the live tables are read.
    if historicRoot = versioned.tree.root then versioned.tree.get crypto key
    else versioned.getAtVersionRecursive crypto key version (KEY_BITS + 1) historicRoot KEY_BITS

end VersionedTree

/-- A call on a tree with versions. -/
inductive VersionedOp where
  | write (version : Nat) (op : SmtOp)
  | save (version : Nat)
  | prune (keepFrom : Nat)
deriving DecidableEq

namespace VersionedOp

def apply (crypto : Primitives) (versioned : VersionedTree) : VersionedOp → VersionedTree
  | write version op => versioned.write crypto version op
  | save version => versioned.save version
  | prune keepFrom => versioned.pruneHistory keepFrom

def op : VersionedOp → Option SmtOp
  | write _ op => some op
  | _ => none

def writeVersion : VersionedOp → Option Nat
  | write version _ => some version
  | _ => none

end VersionedOp

def VersionedTree.run (crypto : Primitives) (history : List VersionedOp) : VersionedTree :=
  history.foldl (VersionedOp.apply crypto) (.empty crypto)

def liveOps (history : List VersionedOp) : List SmtOp := history.filterMap VersionedOp.op

end Clarity.State
