import Clarity.Library.Table
import Clarity.Core.Transaction

/-!
Contract: the pool of waiting transactions, `Core/Mempool.h`.

Owns: the entries, their nonce index, the bytes they take and the rows that survive a restart; and
`reject`, the removal of one transaction.

The selection heap, the fee tiers and the admission of transactions are left out: the removal reads
none of them.
-/

namespace Clarity.Core

open Crypto Library

/-- `Mempool::Entry`, as far as it is read when it is removed. -/
structure MempoolEntry where
  tx : Transaction
  txSize : Nat
deriving DecidableEq

structure Mempool where
  entries : Table Hash MempoolEntry := .empty
  nonceIndex : Table (Address × Nat) Hash := .empty
  totalBytes : Nat := 0
  /-- The rows of the database. -/
  rows : Table Hash MempoolEntry := .empty
deriving DecidableEq

namespace Mempool

/-- `reject`, outside of `load`. -/
def reject (pool : Mempool) (txid : Hash) : Mempool :=
  match pool.entries.find? txid with
  | none => pool
  | some entry =>
    { entries := pool.entries.erase txid
      nonceIndex := pool.nonceIndex.erase (entry.tx.sender, entry.tx.nonce)
      totalBytes := sub64 pool.totalBytes entry.txSize
      rows := pool.rows.erase txid }

end Mempool

end Clarity.Core
