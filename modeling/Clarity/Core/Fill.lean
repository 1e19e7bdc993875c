import Clarity.Core.Block

/-!
Contract: fills, and the root a header commits them under
(`Core/Fill.h`, `BlockProcessor::computeEpochFillsRoot`).
-/

namespace Clarity.Core

open Common Crypto

inductive FillSource
  | limit
  | amm
deriving DecidableEq, Repr, Inhabited

/-- One execution, in the canonical frame of its pair. -/
structure Fill where
  source : FillSource := .limit
  makerOrderId : Nat := 0
  takerOrderId : Nat := 0
  poolId : Nat := 0
  qtyBase : Nat := 0
  qtyQuote : Nat := 0
  price : Nat := 0
  baseToken : Nat := 0
  quoteToken : Nat := 0
deriving DecidableEq, Repr, Inhabited

def FillSource.code : FillSource → Nat
  | limit => 0
  | amm => 1

def Fill.serializeState (fill : Fill) : Bytes :=
  putU8 fill.source.code ++ putU64 fill.makerOrderId ++ putU64 fill.takerOrderId ++
    putU32 fill.poolId ++ putU64 fill.qtyBase ++ putU64 fill.qtyQuote ++ putU64 fill.price ++
    putU32 fill.baseToken ++ putU32 fill.quoteToken

def EPOCH_FILL_TAG : Bytes := putText "efil".toList

def computeEpochFillsRoot (crypto : Primitives) (fills : List Fill) : Hash :=
  computeMerkleRoot crypto
    (fills.map fun fill => crypto.hashDomain EPOCH_FILL_TAG fill.serializeState)

end Clarity.Core
