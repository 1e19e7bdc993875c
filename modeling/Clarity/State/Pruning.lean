import Clarity.Library.BigEndian
import Clarity.State.VersionedTree
import Mathlib.Data.List.Dedup

/-!
Contract: the pruning of the historical tables of `State/StateDB.cpp`, on the bytes of their keys.

Owns: the keys of a row in its history table and in its by-version index, `pruneOneTableImpl` with
its scan, and that both tables lose the rows below the version that is kept, and no others.

MDBX is an ordered map: a table is the list of its rows in the order of their keys, and a scan
visits them in this order. `State/VersionedTree.lean` prunes the rows without their keys; the tables
that hold its rows hold them after the pruning of both.
-/

namespace Clarity.State

open Common Crypto Library

/-- A table of the store, in the order of its keys. -/
structure Rows where
  entries : List (Bytes × Bytes)
  sorted : (entries.map Prod.fst).Pairwise (· < ·)

def Rows.keys (rows : Rows) : List Bytes := rows.entries.map Prod.fst

def Rows.del (rows : Rows) (key : Bytes) : Rows where
  entries := rows.entries.filter (·.1 ≠ key)
  sorted := rows.sorted.sublist (List.filter_sublist.map _)

/-- A history table and its by-version index. -/
structure History where
  byVersion : Rows
  hist : Rows

structure StateDB where
  nodes : History
  leaves : History

def makeHistKey (hash : Hash) (version : Nat) : Bytes := bytes32 hash ++ bigEndian 8 version

def makeByVersionKey (version : Nat) (hash : Hash) : Bytes := bigEndian 8 version ++ bytes32 hash

def readVersionFromByVersionKey (key : Bytes) : Nat :=
  (key.take 8).foldl (fun version byte => version * 256 + byte.toNat) 0

/-- The keys the scan of the index collects, up to the first version that is kept. -/
def toDelete (keepFrom : Nat) : List (Bytes × Bytes) → List Bytes
  | [] => []
  | (key, _) :: rest =>
    if key.length ≠ 40 then toDelete keepFrom rest
    else if readVersionFromByVersionKey key ≥ keepFrom then []
    else key :: toDelete keepFrom rest

/-- The two halves of an index key, swapped. -/
def histKey (key : Bytes) : Bytes := key.drop 8 ++ key.take 8

def deleteRow (history : History) (key : Bytes) : History where
  byVersion := history.byVersion.del key
  hist := history.hist.del (histKey key)

def pruneOneTableImpl (keepFrom : Nat) (history : History) : History :=
  (toDelete keepFrom history.byVersion.entries).foldl deleteRow history

def StateDB.pruneHistoryBefore (keepFrom : Nat) (db : StateDB) : StateDB where
  nodes := pruneOneTableImpl keepFrom db.nodes
  leaves := pruneOneTableImpl keepFrom db.leaves

variable {keepFrom version : Nat} {hash : Hash} {history : History} {rows : List (Hash × Nat)}

/-- The two tables hold the same rows, each under its own key. -/
structure Corresponds (rows : List (Hash × Nat)) (history : History) : Prop where
  versions : ∀ row ∈ rows, row.2 < 2 ^ 64
  byVersion : history.byVersion.keys.Perm (rows.map fun row => makeByVersionKey row.2 row.1)
  hist : history.hist.keys.Perm (rows.map fun row => makeHistKey row.1 row.2)

/-- Nothing but the rows of the lower versions is gone, from both tables. -/
structure Pruned (keepFrom : Nat) (rows : List (Hash × Nat)) (before after : History) : Prop where
  corresponds : Corresponds (rows.filter (keepFrom ≤ ·.2)) after
  byVersion : after.byVersion.entries.Sublist before.byVersion.entries
  hist : after.hist.entries.Sublist before.hist.entries

theorem readVersion_makeByVersionKey (fits : version < 2 ^ 64) :
    readVersionFromByVersionKey (makeByVersionKey version hash) = version := by
  unfold readVersionFromByVersionKey makeByVersionKey
  rw [List.take_left' (bigEndian_length 8 version), foldl_bigEndian, Nat.zero_mul, Nat.zero_add]
  exact Nat.mod_eq_of_lt fits

theorem histKey_makeByVersionKey :
    histKey (makeByVersionKey version hash) = makeHistKey hash version := by
  simp [histKey, makeByVersionKey, makeHistKey]

/-- The scan stops at no row of a lower version: the order of the keys is the order of the
versions. -/
theorem mem_toDelete {entries : List (Bytes × Bytes)} {key : Bytes}
    (sorted : (entries.map Prod.fst).Pairwise (· < ·))
    (isRow : ∀ key ∈ entries.map Prod.fst, ∃ version hash, version < 2 ^ 64 ∧
      key = makeByVersionKey version hash) :
    key ∈ toDelete keepFrom entries ↔
      key ∈ entries.map Prod.fst ∧ readVersionFromByVersionKey key < keepFrom := by
  induction entries with
  | nil => simp [toDelete]
  | cons entry rest ih =>
    obtain ⟨entryKey, value⟩ := entry
    obtain ⟨above, sorted⟩ := List.pairwise_cons.mp sorted
    have tail := ih sorted fun key member => isRow key (List.mem_cons_of_mem _ member)
    obtain ⟨version, hash, fits, rfl⟩ := isRow entryKey List.mem_cons_self
    have length : (makeByVersionKey version hash).length = 40 := by simp [makeByVersionKey]
    rw [toDelete, if_neg (not_not.mpr length), readVersion_makeByVersionKey fits]
    split
    next kept =>
      refine ⟨fun member => absurd member List.not_mem_nil, fun deleted => ?_⟩
      obtain ⟨member, lower⟩ := deleted
      exfalso
      obtain ⟨other, otherHash, otherFits, rfl⟩ := isRow key member
      rw [readVersion_makeByVersionKey otherFits] at lower
      rcases List.mem_cons.mp member with isEntry | isLater
      · rw [← readVersion_makeByVersionKey otherFits, isEntry,
          readVersion_makeByVersionKey fits] at lower
        omega
      · have := (bigEndian_append_lt_iff fits otherFits _ _).mp (above _ isLater)
        omega
    next lower =>
      rw [List.mem_cons, tail, List.map_cons, List.mem_cons, or_and_right]
      refine or_congr_left ⟨fun isKey => ⟨isKey, ?_⟩, And.left⟩
      rw [isKey, readVersion_makeByVersionKey fits]
      omega

theorem foldl_deleteRow (keys : List Bytes) (history : History) :
    (keys.foldl deleteRow history).byVersion.entries =
        history.byVersion.entries.filter (·.1 ∉ keys) ∧
      (keys.foldl deleteRow history).hist.entries =
        history.hist.entries.filter (·.1 ∉ keys.map histKey) := by
  induction keys generalizing history with
  | nil => simp
  | cons key rest ih =>
    rw [List.foldl_cons, (ih _).1, (ih _).2]
    simp [deleteRow, Rows.del, List.filter_filter, Bool.and_comm]

/-- Deleting the keys of the lower rows leaves the keys of the others. -/
theorem keys_filter {entries : List (Bytes × Bytes)} {encode : Hash × Nat → Bytes}
    {keys : List Bytes} (same : (entries.map Prod.fst).Perm (rows.map encode))
    (deleted : ∀ row ∈ rows, encode row ∈ keys ↔ row.2 < keepFrom) :
    ((entries.filter (·.1 ∉ keys)).map Prod.fst).Perm
      ((rows.filter (keepFrom ≤ ·.2)).map encode) := by
  have kept : rows.filter (keepFrom ≤ ·.2) = rows.filter ((· ∉ keys) ∘ encode) :=
    List.filter_congr fun row member =>
      decide_eq_decide.mpr ((not_congr (deleted row member)).trans Nat.not_lt).symm
  have filtered := same.filter (· ∉ keys)
  rw [List.filter_map, List.filter_map] at filtered
  rw [kept]
  exact filtered

theorem pruneOneTableImpl_pruned (corresponds : Corresponds rows history) :
    Pruned keepFrom rows history (pruneOneTableImpl keepFrom history) := by
  obtain ⟨versions, byVersion, hist⟩ := corresponds
  obtain ⟨isIndex, isHist⟩ := foldl_deleteRow (toDelete keepFrom history.byVersion.entries) history
  have isRow : ∀ key ∈ history.byVersion.keys, ∃ version hash, version < 2 ^ 64 ∧
      key = makeByVersionKey version hash := by
    intro key member
    obtain ⟨row, isRow, isKey⟩ := List.mem_map.mp (byVersion.mem_iff.mp member)
    exact ⟨row.2, row.1, versions row isRow, isKey.symm⟩
  have scanned (key : Bytes) := @mem_toDelete keepFrom _ key history.byVersion.sorted isRow
  have deleted (row : Hash × Nat) (inRows : row ∈ rows) :
      makeByVersionKey row.2 row.1 ∈ toDelete keepFrom history.byVersion.entries ↔
        row.2 < keepFrom := by
    rw [scanned, readVersion_makeByVersionKey (versions row inRows)]
    exact and_iff_right (byVersion.mem_iff.mpr (List.mem_map_of_mem inRows))
  refine ⟨⟨fun row member => versions row (List.mem_of_mem_filter member), ?_, ?_⟩, ?_, ?_⟩
  · unfold pruneOneTableImpl Rows.keys
    rw [isIndex]
    exact keys_filter byVersion deleted
  · unfold pruneOneTableImpl Rows.keys
    rw [isHist]
    refine keys_filter hist fun row inRows => Iff.trans ⟨fun member => ?_, fun member => ?_⟩
      (deleted row inRows)
    · obtain ⟨key, member, isKey⟩ := List.mem_map.mp member
      obtain ⟨version, hash, fits, rfl⟩ := isRow key ((scanned key).mp member).1
      rw [histKey_makeByVersionKey] at isKey
      obtain ⟨sameHash, sameVersion⟩ := List.append_inj isKey (by simp)
      unfold makeByVersionKey
      rw [← sameHash, ← sameVersion]
      exact member
    · exact List.mem_map.mpr ⟨_, member, histKey_makeByVersionKey⟩
  · exact isIndex ▸ List.filter_sublist
  · exact isHist ▸ List.filter_sublist

theorem StateDB.pruneHistoryBefore_exact {db : StateDB} {nodeRows leafRows : List (Hash × Nat)}
    (nodes : Corresponds nodeRows db.nodes) (leaves : Corresponds leafRows db.leaves)
    (keepFrom : Nat) :
    Pruned keepFrom nodeRows db.nodes (db.pruneHistoryBefore keepFrom).nodes ∧
      Pruned keepFrom leafRows db.leaves (db.pruneHistoryBefore keepFrom).leaves :=
  ⟨pruneOneTableImpl_pruned nodes, pruneOneTableImpl_pruned leaves⟩

/-- One hash at two versions. -/
def twoVersions : History where
  byVersion := ⟨[(makeByVersionKey 1 0, []), (makeByVersionKey 2 0, [])], by decide⟩
  hist := ⟨[(makeHistKey 0 1, [7]), (makeHistKey 0 2, [8])], by decide⟩

theorem StateDB.firstVersion_pruned :
    Corresponds [(0, 1), (0, 2)] twoVersions ∧
      (StateDB.pruneHistoryBefore 2 ⟨twoVersions, twoVersions⟩).nodes.hist.keys.Perm
        [makeHistKey 0 2] :=
  have corresponds : Corresponds [(0, 1), (0, 2)] twoVersions :=
    ⟨by decide, by decide, by decide⟩
  ⟨corresponds, (@pruneHistoryBefore_exact ⟨twoVersions, twoVersions⟩ _ _ corresponds corresponds
    2).1.corresponds.hist⟩

/-! ## The rows of a tree with versions -/

/-- The tables hold these rows and no others, and under the key of a row what a read of it finds. -/
structure StoresRows (table : HistoricalRows) (history : History) : Prop where
  keys : Corresponds (table.map Prod.fst).dedup history
  reads : ∀ {row : Hash × Nat} {bytes : Bytes}, table.lookup row = some bytes →
    (makeHistKey row.1 row.2, bytes) ∈ history.hist.entries

theorem Corresponds.perm {other : List (Hash × Nat)} (corresponds : Corresponds rows history)
    (same : rows.Perm other) : Corresponds other history :=
  ⟨fun row member => corresponds.versions row (same.mem_iff.mpr member),
    corresponds.byVersion.trans (same.map _), corresponds.hist.trans (same.map _)⟩

theorem keys_filter_dedup (table : HistoricalRows) :
    ((table.map Prod.fst).dedup.filter (keepFrom ≤ ·.2)).Perm
      ((table.filter (keepFrom ≤ ·.1.2)).map Prod.fst).dedup := by
  refine (List.perm_ext_iff_of_nodup ((List.nodup_dedup _).filter _) (List.nodup_dedup _)).mpr ?_
  intro row
  simp only [List.mem_filter, List.mem_dedup, List.mem_map, decide_eq_true_eq]
  constructor
  · rintro ⟨⟨entry, member, rfl⟩, kept⟩
    exact ⟨entry, ⟨member, kept⟩, rfl⟩
  · rintro ⟨entry, ⟨member, kept⟩, rfl⟩
    exact ⟨⟨entry, member, rfl⟩, kept⟩

theorem lookup_of_lookup_filter {table : HistoricalRows} {row : Hash × Nat} {bytes : Bytes}
    (found : (table.filter (keepFrom ≤ ·.1.2)).lookup row = some bytes) :
    keepFrom ≤ row.2 ∧ table.lookup row = some bytes := by
  induction table with
  | nil => cases found
  | cons entry rest ih =>
    by_cases isRow : row = entry.1
    · subst isRow
      by_cases kept : keepFrom ≤ entry.1.2
      · rw [List.filter_cons_of_pos (by simpa using kept), List.lookup_cons_self] at found
        exact ⟨kept, List.lookup_cons_self.trans found⟩
      · rw [List.filter_cons_of_neg (by simpa using kept)] at found
        exact absurd (ih found).1 kept
    · have other : (row == entry.1) = false := beq_false_of_ne isRow
      have later : (rest.filter (keepFrom ≤ ·.1.2)).lookup row = some bytes := by
        rw [List.filter_cons] at found
        split at found
        · rwa [List.lookup_cons, other] at found
        · exact found
      rw [List.lookup_cons, other]
      exact ih later

theorem Rows.value_unique {table : Rows} {key first second : Bytes}
    (inFirst : (key, first) ∈ table.entries) (inSecond : (key, second) ∈ table.entries) :
    first = second := by
  have apart (lower upper : Bytes) (lt : lower < upper) : lower ≠ upper := by
    rintro rfl
    exact List.lt_irrefl lower lt
  have distinct : (table.entries.map Prod.fst).Nodup := table.sorted.imp (apart _ _)
  exact congrArg Prod.snd (List.inj_on_of_nodup_map distinct inFirst inSecond rfl)

theorem StoresRows.prune {table : HistoricalRows} (stores : StoresRows table history) :
    StoresRows (table.filter (keepFrom ≤ ·.1.2)) (pruneOneTableImpl keepFrom history) := by
  have pruned := @pruneOneTableImpl_pruned keepFrom history _ stores.keys
  refine ⟨pruned.corresponds.perm (keys_filter_dedup table), ?_⟩
  intro row bytes found
  obtain ⟨kept, stored⟩ := lookup_of_lookup_filter found
  have isRow : row ∈ (table.map Prod.fst).dedup.filter (keepFrom ≤ ·.2) := by
    obtain ⟨before, after, rfl, _⟩ := List.lookup_eq_some_iff.mp stored
    simpa using kept
  -- The key is still there, with the value it had.
  obtain ⟨entry, member, isKey⟩ := List.mem_map.mp
    (pruned.corresponds.hist.mem_iff.mpr (List.mem_map_of_mem isRow))
  obtain ⟨key, value⟩ := entry
  cases isKey
  exact Rows.value_unique (stores.reads stored) (pruned.hist.subset member) ▸ member

/-- **The pruning of the tables is the pruning of the tree.** Tables that hold the historical rows of
a tree hold those of the pruned tree after `pruneHistoryBefore`. -/
theorem StateDB.pruneHistoryBefore_stores {db : StateDB} {versioned : VersionedTree}
    (nodes : StoresRows versioned.nodesHist db.nodes)
    (leaves : StoresRows versioned.leavesHist db.leaves) (keepFrom : Nat) :
    StoresRows (versioned.pruneHistory keepFrom).nodesHist (db.pruneHistoryBefore keepFrom).nodes ∧
      StoresRows (versioned.pruneHistory keepFrom).leavesHist
        (db.pruneHistoryBefore keepFrom).leaves :=
  ⟨nodes.prune, leaves.prune⟩

end Clarity.State
