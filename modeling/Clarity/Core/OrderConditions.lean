import Clarity.Core.BlockProcessor.Passes
import Clarity.Core.PoolTrades

/-!
Contract: what the conditions of an order compare.

Owns: when the price conditions decide as the exact spot price of the pool does; the history of
a pool's trades, and when the volume a condition reads belongs to a recent window of them.
-/

namespace Clarity.Core

open Common Crypto Library State State.StateAccess
open Clarity.Core.TransactionExecutor BlockProcessor AmmPool

variable {changed : AmmPool} {volume : Nat}

/-! ## Price conditions -/

/-- The spot price in unbounded integers: bought per sold, scaled and rounded down. -/
def AmmPool.exactSpotPrice (pool : AmmPool) (sellToken : Nat) : Nat :=
  pool.reserveOut sellToken * PRICE_SCALE / pool.reserveIn sellToken

/-- A pool with reserves that trades the two tokens of an order. -/
structure Prices (pool : AmmPool) (order : Order) : Prop where
  faced : order.sellToken = pool.tokenA ∧ order.buyToken = pool.tokenB ∨
    order.sellToken = pool.tokenB ∧ order.buyToken = pool.tokenA
  positiveA : 0 < pool.reserveA
  positiveB : 0 < pool.reserveB

/-- Both price conditions with a threshold decide as the exact price does. -/
structure JudgesExactly (state : StateAccess) (order : Order) (height poolId threshold : Nat)
    (pool : AmmPool) : Prop where
  above : conditionHolds state order height ⟨.priceAbove, threshold, poolId⟩ = true ↔
    pool.exactSpotPrice order.sellToken ≤ threshold
  below : conditionHolds state order height ⟨.priceBelow, threshold, poolId⟩ = true ↔
    threshold ≤ pool.exactSpotPrice order.sellToken

section Price

variable {state : StateAccess} {order : Order} {pool : AmmPool} {height poolId threshold : Nat}

theorem poolSpotPrice_eq (found : state.getAmmPool poolId = some pool) (prices : Prices pool order) :
    poolSpotPrice state poolId order.sellToken order.buyToken =
      some (u64 (pool.exactSpotPrice order.sellToken)) := by
  have hasA := prices.positiveA.ne'
  have hasB := prices.positiveB.ne'
  have distinct : pool.tokenB ≠ pool.tokenA := by
    have valid := getAmmPool_isValid found
    simp only [isValid, Bool.and_eq_true, bne_iff_ne] at valid
    exact valid.1.1.1.2.symm
  rcases prices.faced with ⟨sells, buys⟩ | ⟨sells, buys⟩
  · simp [poolSpotPrice, found, sells, buys, hasA, hasB, exactSpotPrice,
      reserveIn, reserveOut]
  · simp [poolSpotPrice, found, sells, buys, hasA, hasB, exactSpotPrice,
      reserveIn, reserveOut, distinct, distinct.symm]

/-- The price is cut to 64 bits, so it is compared right unless the cut brings it down to the
threshold or below. -/
theorem judgesExactly_iff (found : state.getAmmPool poolId = some pool) (prices : Prices pool order)
    (word : threshold < 2 ^ 64) :
    JudgesExactly state order height poolId threshold pool ↔
      pool.exactSpotPrice order.sellToken < 2 ^ 64 ∨
        threshold < pool.exactSpotPrice order.sellToken % 2 ^ 64 := by
  have price := poolSpotPrice_eq found prices
  have above : conditionHolds state order height ⟨.priceAbove, threshold, poolId⟩ = true ↔
      u64 (pool.exactSpotPrice order.sellToken) ≤ threshold := by
    simp [conditionHolds, price]
  have below : conditionHolds state order height ⟨.priceBelow, threshold, poolId⟩ = true ↔
      threshold ≤ u64 (pool.exactSpotPrice order.sellToken) := by
    simp [conditionHolds, price]
  unfold u64 at above below
  constructor
  · rintro ⟨exactAbove, -⟩
    rw [above] at exactAbove
    omega
  · intro fits
    constructor
    · rw [above]
      omega
    · rw [below]
      omega

end Price

namespace Regtest

/-- A pool in which one unit of the lower token is worth ten billion units of the other. -/
def thinPool : AmmPool := { evenPool 1 with reserveB := 10 ^ 10 }

def cheapSeller : Order := { sellToken := 1, buyToken := 2 }

/-- The exact price is above `2 ^ 64`, and the condition that it is not above the threshold
holds. -/
theorem thinPool_price_wraps :
    (market thinPool).getAmmPool 1 = some thinPool ∧ Prices thinPool cheapSeller ∧
      thinPool.exactSpotPrice 1 = 10 ^ 20 ∧
      conditionHolds (market thinPool) cheapSeller 1 ⟨.priceAbove, 8 * 10 ^ 18, 1⟩ = true ∧
      ¬JudgesExactly (market thinPool) cheapSeller 1 1 (8 * 10 ^ 18) thinPool := by
  have holds : conditionHolds (market thinPool) cheapSeller 1
      ⟨.priceAbove, 8 * 10 ^ 18, 1⟩ = true := by decide +kernel
  refine ⟨by decide +kernel, ⟨by decide, by decide, by decide⟩, by decide +kernel, holds, ?_⟩
  intro exact
  exact absurd (exact.above.mp holds) (by decide +kernel)

theorem evenPool_judged : (market (evenPool 1000)).getAmmPool 1 = some (evenPool 1000) ∧
      JudgesExactly (market (evenPool 1000)) cheapSeller 1 1 (2 ^ 40) (evenPool 1000) := by
  have found : (market (evenPool 1000)).getAmmPool 1 = some (evenPool 1000) := by decide +kernel
  exact ⟨found, (judgesExactly_iff found ⟨by decide, by decide, by decide⟩ (by decide)).mpr
    (.inl (by decide +kernel))⟩

end Regtest

/-! ## The volume window -/

/-- `clrtyVolume` in unbounded integers. -/
def AmmPool.exactVolume (pool : AmmPool) (tokenIn amountIn : Nat) : Nat :=
  if tokenIn = NATIVE_TOKEN_ID then amountIn
  else if pool.tokenA = NATIVE_TOKEN_ID ∧ pool.reserveB > 0 then
    amountIn * pool.reserveA / pool.reserveB
  else if pool.tokenB = NATIVE_TOKEN_ID ∧ pool.reserveA > 0 then
    amountIn * pool.reserveB / pool.reserveA
  else 0

/-- The three fields of the window. -/
def AmmPool.window (pool : AmmPool) : Nat × Nat × Nat :=
  (pool.volumeWindowHeight, pool.volumeCurrent, pool.volumeLast)

/-- A pool is traded at a height, by one of the two functions that do it. -/
inductive TradedBy (pool traded : AmmPool) (height tokenIn amountIn : Nat) : Prop
  | swap (state after : StateAccess) (tx : Transaction) (ctx : TxExecutionContext)
      (tokenOut reserveIn reserveOut : Nat)
      (found : state.getAmmPool (readU64At tx.payload 0) = some pool)
      (sides : swapSides pool tx.tokenId = some (tokenOut, reserveIn, reserveOut))
      (ran : executeSwap state tx ctx = some after)
      (stored : after.tree.ammPools.find? pool.id = some traded)
      (isHeight : height = ctx.currentHeight) (isToken : tokenIn = tx.tokenId)
      (isAmount : amountIn = tx.amount)
  | active (state after : StateAccess) (order : Order) (fill : Fill)
      (found : state.getAmmPool order.poolId = some pool)
      (ran : executeActiveOrder state order height = .filled after fill)
      (stored : after.tree.ammPools.find? pool.id = some traded)
      (isToken : tokenIn = order.sellToken) (isAmount : amountIn = fill.soldBy order)

/-- The trades of a pool so far, by height and exact volume. Heights start at one and do not
decrease, the volume of an open window stays a word, and what else happens to a pool leaves its
window. -/
inductive VolumeHistory : AmmPool → List (Nat × Nat) → Prop
  | fresh (pool : AmmPool) (unused : pool.window = (0, 0, 0)) : VolumeHistory pool []
  | trade {pool traded : AmmPool} {trades : List (Nat × Nat)} {height tokenIn amountIn : Nat}
      (history : VolumeHistory pool trades) (ran : TradedBy pool traded height tokenIn amountIn)
      (later : ∀ trade ∈ trades, trade.1 ≤ height) (started : 0 < height)
      (small : height + ROTATION_INTERVAL < 2 ^ 64)
      (fits : pool.volumeCurrent + pool.exactVolume tokenIn amountIn < 2 ^ 64) :
      VolumeHistory traded (trades ++ [(height, pool.exactVolume tokenIn amountIn)])
  | other {pool changed : AmmPool} {trades : List (Nat × Nat)} (history : VolumeHistory pool trades)
      (kept : changed.window = pool.window) : VolumeHistory changed trades

/-- The volume of the trades in the window that starts at a height. -/
def volumeFrom (trades : List (Nat × Nat)) (first : Nat) : Nat :=
  ((trades.filter fun trade => first ≤ trade.1 ∧ trade.1 < first + ROTATION_INTERVAL).map
    Prod.snd).sum

/-- The volume read at a height is that of one window, and none where two windows passed without
a trade. -/
structure ReportsWindow (pool : AmmPool) (trades : List (Nat × Nat)) (height : Nat) : Prop where
  window : ∃ first, pool.reportedVolume height = volumeFrom trades first
  stale : (∀ trade ∈ trades, trade.1 + 2 * ROTATION_INTERVAL ≤ height) →
    pool.reportedVolume height = 0

section Volume

variable {pool traded : AmmPool} {trades : List (Nat × Nat)} {height tokenIn amountIn : Nat}

theorem window_eq_iff :
    changed.window = pool.window ↔ changed.volumeWindowHeight = pool.volumeWindowHeight ∧
      changed.volumeCurrent = pool.volumeCurrent ∧ changed.volumeLast = pool.volumeLast := by
  simp [window]

theorem window_moveReserves {amountOut : Nat} :
    (pool.moveReserves tokenIn amountIn amountOut).window = pool.window := by
  unfold moveReserves window
  split <;> dsimp only

theorem window_recordVolume (kept : changed.window = pool.window) :
    (changed.recordVolume height volume).window = (pool.recordVolume height volume).window := by
  obtain ⟨sameHeight, sameCurrent, sameLast⟩ := window_eq_iff.mp kept
  unfold recordVolume
  rw [sameHeight, sameCurrent]
  split
  · rfl
  · split
    · rfl
    · simp [window, sameLast]

/-- Both functions record the volume of the trade the same way. -/
theorem TradedBy.window_eq (ran : TradedBy pool traded height tokenIn amountIn) :
    traded.window = (pool.recordVolume height (pool.clrtyVolume tokenIn amountIn)).window := by
  cases ran with
  | swap state after tx ctx tokenOut reserveIn reserveOut found sides ran stored isHeight isToken
      isAmount =>
    cases stored.symm.trans (executeSwap_stored found sides after ran)
    subst isHeight isToken isAmount
    exact window_recordVolume window_moveReserves
  | active state after order fill found ran stored isToken isAmount =>
    cases stored.symm.trans (executeActiveOrder_filled found ran).2
    subst isToken isAmount
    exact window_recordVolume window_moveReserves

theorem clrtyVolume_eq (fits : pool.exactVolume tokenIn amountIn < 2 ^ 64) :
    pool.clrtyVolume tokenIn amountIn = pool.exactVolume tokenIn amountIn := by
  unfold exactVolume at fits ⊢
  unfold clrtyVolume
  split
  · rfl
  next notNative =>
    rw [if_neg notNative] at fits
    split
    next isA =>
      rw [if_pos isA] at fits
      exact Nat.mod_eq_of_lt fits
    next notA =>
      rw [if_neg notA] at fits
      split
      next isB =>
        rw [if_pos isB] at fits
        exact Nat.mod_eq_of_lt fits
      · rfl

theorem volumeFrom_append (trade : Nat × Nat) (first : Nat) :
    volumeFrom (trades ++ [trade]) first = volumeFrom trades first +
      if first ≤ trade.1 ∧ trade.1 < first + ROTATION_INTERVAL then trade.2 else 0 := by
  unfold volumeFrom
  rw [List.filter_append, List.map_append, List.sum_append]
  congr 1
  by_cases inside : first ≤ trade.1 ∧ trade.1 < first + ROTATION_INTERVAL <;> simp [inside]

theorem volumeFrom_eq_zero {first : Nat} (outside : ∀ trade ∈ trades, trade.1 < first) :
    volumeFrom trades first = 0 := by
  have none : trades.filter (fun trade => first ≤ trade.1 ∧ trade.1 < first + ROTATION_INTERVAL) =
      [] := by
    rw [List.filter_eq_nil_iff]
    intro trade member
    have := outside trade member
    simp only [decide_eq_true_eq]
    omega
  rw [volumeFrom, none]
  rfl

/-- What the window of a pool says of its trades: nothing was traded, or the open window holds
every trade since it was opened and the last one is a window that ended before. -/
inductive TracksTrades (pool : AmmPool) (trades : List (Nat × Nat)) : Prop
  | idle (none : trades = []) (unused : pool.window = (0, 0, 0))
  | opened (volume : Nat) (member : (pool.volumeWindowHeight, volume) ∈ trades)
      (started : 0 < pool.volumeWindowHeight)
      (small : pool.volumeWindowHeight + ROTATION_INTERVAL < 2 ^ 64)
      (inside : ∀ trade ∈ trades, trade.1 < pool.volumeWindowHeight + ROTATION_INTERVAL)
      (current : pool.volumeCurrent = volumeFrom trades pool.volumeWindowHeight)
      (last : pool.volumeLast = 0 ∨ ∃ first, first + ROTATION_INTERVAL ≤ pool.volumeWindowHeight ∧
        pool.volumeLast = volumeFrom trades first)

theorem TracksTrades.congr (tracks : TracksTrades pool trades)
    (kept : changed.window = pool.window) : TracksTrades changed trades := by
  obtain ⟨sameHeight, sameCurrent, sameLast⟩ := window_eq_iff.mp kept
  cases tracks with
  | idle none unused => exact .idle none (kept.trans unused)
  | opened volume member started small inside current last =>
    rw [← sameHeight] at member started small inside current last
    exact .opened volume member started small inside (sameCurrent.trans current)
      (by rw [sameLast]; exact last)

/-- The trade that opens a window. -/
theorem TracksTrades.opens {last : Nat} (started : 0 < height)
    (small : height + ROTATION_INTERVAL < 2 ^ 64) (before : ∀ trade ∈ trades, trade.1 < height)
    (isLast : last = 0 ∨ ∃ first, first + ROTATION_INTERVAL ≤ height ∧
      last = volumeFrom trades first) :
    TracksTrades { pool with volumeWindowHeight := height, volumeCurrent := volume, volumeLast := last }
      (trades ++ [(height, volume)]) := by
  have width : 0 < ROTATION_INTERVAL := by decide
  refine .opened volume (by simp) started small ?_ ?_ ?_
  · simp only [List.mem_append, List.mem_singleton]
    rintro trade (member | rfl)
    · exact Nat.lt_add_right _ (before trade member)
    · exact Nat.lt_add_of_pos_right width
  · rw [volumeFrom_append, volumeFrom_eq_zero before, if_pos ⟨le_rfl, Nat.lt_add_of_pos_right width⟩,
      Nat.zero_add]
  · refine isLast.imp_right ?_
    rintro ⟨first, ended, eq⟩
    refine ⟨first, ended, ?_⟩
    rw [volumeFrom_append, if_neg (by simp only; omega)]
    exact eq

theorem TracksTrades.record (tracks : TracksTrades pool trades)
    (later : ∀ trade ∈ trades, trade.1 ≤ height) (started : 0 < height)
    (small : height + ROTATION_INTERVAL < 2 ^ 64) (fits : pool.volumeCurrent + volume < 2 ^ 64) :
    TracksTrades (pool.recordVolume height volume) (trades ++ [(height, volume)]) := by
  unfold recordVolume
  cases tracks with
  | idle none unused =>
    have unset : pool.volumeWindowHeight = 0 := congrArg Prod.fst unused
    rw [if_pos unset]
    exact .opens started small (by simp [none]) (.inl rfl)
  | opened opener member isStarted isSmall inside current last =>
    have notBefore : pool.volumeWindowHeight ≤ height := later _ member
    rw [if_neg isStarted.ne', u64, Nat.mod_eq_of_lt isSmall]
    split
    next ended =>
      -- every trade so far is in the window that ends here
      exact .opens started small (fun trade member => (inside trade member).trans_le ended)
        (.inr ⟨pool.volumeWindowHeight, ended, current⟩)
    next running =>
      refine .opened opener (List.mem_append_left _ member) isStarted isSmall ?_ ?_ ?_
      · simp only [List.mem_append, List.mem_singleton]
        rintro trade (earlier | rfl)
        · exact inside trade earlier
        · exact not_le.mp running
      · rw [volumeFrom_append, if_pos ⟨notBefore, not_le.mp running⟩, ← current]
        exact Nat.mod_eq_of_lt fits
      · refine last.imp_right ?_
        rintro ⟨first, ended, eq⟩
        refine ⟨first, ended, ?_⟩
        rw [volumeFrom_append, if_neg (by dsimp only at ended ⊢; omega)]
        exact eq

theorem VolumeHistory.tracks (history : VolumeHistory pool trades) : TracksTrades pool trades := by
  induction history with
  | fresh pool unused => exact .idle rfl unused
  | trade history ran later started small fits ih =>
    have exact := clrtyVolume_eq (Nat.lt_of_le_of_lt (Nat.le_add_left _ _) fits)
    exact (ih.record later started small fits).congr (by rw [ran.window_eq, exact])
  | other history kept ih => exact ih.congr kept

/-- The volume read is that of one window of trades; it is out of date where the last trades are
two windows old and had a volume, since only the next trade closes their window. -/
theorem reportsWindow_iff (history : VolumeHistory pool trades)
    (past : ∀ trade ∈ trades, trade.1 ≤ height) :
    ReportsWindow pool trades height ↔
      (∃ trade ∈ trades, height < trade.1 + 2 * ROTATION_INTERVAL) ∨ pool.volumeCurrent = 0 := by
  have beyond : volumeFrom trades (height + 1) = 0 :=
    volumeFrom_eq_zero fun trade member => Nat.lt_succ_of_le (past trade member)
  cases history.tracks with
  | idle none unused =>
    have unset : pool.volumeWindowHeight = 0 := congrArg Prod.fst unused
    have noVolume : pool.volumeCurrent = 0 := congrArg (·.2.1) unused
    have zero : pool.reportedVolume height = 0 := if_pos unset
    exact ⟨fun _ => .inr noVolume, fun _ => ⟨⟨height + 1, zero.trans beyond.symm⟩, fun _ => zero⟩⟩
  | opened opener member started small inside current last =>
    have reported : pool.reportedVolume height =
        if pool.volumeWindowHeight + ROTATION_INTERVAL ≤ height then pool.volumeCurrent
        else pool.volumeLast := by
      rw [reportedVolume, if_neg started.ne', u64, Nat.mod_eq_of_lt small]
    have window : ∃ first, pool.reportedVolume height = volumeFrom trades first := by
      rw [reported]
      split
      · exact ⟨_, current⟩
      · rcases last with zero | ⟨first, -, eq⟩
        · exact ⟨height + 1, zero.trans beyond.symm⟩
        · exact ⟨first, eq⟩
    have old : (∀ trade ∈ trades, trade.1 + 2 * ROTATION_INTERVAL ≤ height) →
        pool.reportedVolume height = pool.volumeCurrent := by
      intro allOld
      have := allOld _ member
      rw [reported, if_pos (by dsimp only at this; omega)]
    constructor
    · intro reports
      by_cases recent : ∃ trade ∈ trades, height < trade.1 + 2 * ROTATION_INTERVAL
      · exact .inl recent
      · have allOld : ∀ trade ∈ trades, trade.1 + 2 * ROTATION_INTERVAL ≤ height := by
          simpa using recent
        exact .inr ((old allOld).symm.trans (reports.stale allOld))
    · intro either
      refine ⟨window, fun allOld => ?_⟩
      rcases either with ⟨trade, traded, recent⟩ | noVolume
      · exact absurd recent (Nat.not_lt_of_le (allOld trade traded))
      · exact (old allOld).trans noVolume

end Volume

namespace Regtest

/-- A pool of the native coin. -/
def nativePool : AmmPool :=
  { id := 1, tokenA := 0, tokenB := 1, reserveA := 1000, reserveB := 1000, totalLiquidity := 1000 }

theorem nativePool_traded : VolumeHistory (swappedPool nativePool 100) [(1, 100)] := by
  have ran : TradedBy nativePool (swappedPool nativePool 100) 1 1 100 :=
    .swap (market nativePool) (swapped nativePool 100) (payIn 100) firstContext 0 1000 1000
      (by decide +kernel) (by decide +kernel) (by decide +kernel) (by decide +kernel) rfl rfl rfl
  have volume : nativePool.exactVolume 1 100 = 100 := by decide
  have history := VolumeHistory.trade (.fresh nativePool rfl) ran (by simp) (by decide) (by decide)
    (by rw [volume]; decide)
  rwa [volume] at history

/-- A trade of the first block is still reported at height 1000. -/
theorem traded_volume_stays : VolumeHistory (swappedPool nativePool 100) [(1, 100)] ∧
      (swappedPool nativePool 100).reportedVolume 1000 = 100 ∧
      ¬ReportsWindow (swappedPool nativePool 100) [(1, 100)] 1000 := by
  have reported : (swappedPool nativePool 100).reportedVolume 1000 = 100 := by decide +kernel
  refine ⟨nativePool_traded, reported, fun reports => ?_⟩
  have zero := reports.stale (by simp [ROTATION_INTERVAL])
  rw [reported] at zero
  cases zero

theorem traded_volume_recent : ReportsWindow (swappedPool nativePool 100) [(1, 100)] 61 :=
  (reportsWindow_iff nativePool_traded (by simp)).mpr (.inl (by simp [ROTATION_INTERVAL]))

end Regtest

end Clarity.Core
