import Clarity.Config
import Clarity.Library.Outcome
import Mathlib.Algebra.Order.Floor.Div
import Mathlib.Data.List.Pairwise

/-!
Contract: the token bucket of `Common/RateLimiter.h`.

Owns: `RateLimiter` with `refill` and `tryConsume`, at times in microseconds; the amount granted
over a list of requests; and that the bucket keeps to its rate, in every interval and after every
pause.

The refill of a pause is a product in 64 bits. It wraps when a fast bucket is not used for long
enough, and what the pause was worth is lost.
-/

namespace Clarity.Common

open Library

structure RateLimiter where
  burst : Nat
  refillPerSecond : Nat
  tokens : Nat
  microTokens : Nat := 0
  lastRefill : Nat
  enabled : Bool

/-- An amount that is asked for at a time. -/
structure Request where
  time : Nat
  amount : Nat

namespace RateLimiter

/-- The constructor: a full bucket. -/
def new (burst refillPerSecond now : Nat) : RateLimiter where
  burst := burst
  refillPerSecond := refillPerSecond
  tokens := burst
  lastRefill := now
  enabled := burst != 0 && refillPerSecond != 0

def refill (now : Nat) (bucket : RateLimiter) : RateLimiter :=
  let elapsed := now - bucket.lastRefill
  if elapsed = 0 then bucket
  else
    let microTokens := u64 (bucket.microTokens + u64 (bucket.refillPerSecond * elapsed))
    let whole := microTokens / 1000000
    if whole = 0 then { bucket with lastRefill := now, microTokens := microTokens }
    else
      let capped := bucket.tokens + whole
      { bucket with
        lastRefill := now
        microTokens := microTokens - whole * 1000000
        tokens := if capped > bucket.burst then bucket.burst else capped }

def tryConsume (request : Request) (bucket : RateLimiter) : Bool × RateLimiter :=
  if bucket.enabled = false then (true, bucket)
  else
    let bucket := bucket.refill request.time
    if bucket.tokens ≥ request.amount then
      (true, { bucket with tokens := bucket.tokens - request.amount })
    else (false, bucket)

def after (bucket : RateLimiter) (requests : List Request) : RateLimiter :=
  requests.foldl (fun bucket request => (bucket.tryConsume request).2) bucket

def granted : List Request → RateLimiter → Nat
  | [], _ => 0
  | request :: rest, bucket =>
    (if (bucket.tryConsume request).1 then request.amount else 0) +
      granted rest (bucket.tryConsume request).2

variable {burst rate now start : Nat} {bucket : RateLimiter} {request : Request}
  {requests earlier : List Request}

/-- A bucket of the given parameters that holds no more than they allow. -/
structure Sound (burst rate : Nat) (bucket : RateLimiter) : Prop where
  enabled : bucket.enabled = true
  capacity : bucket.burst = burst
  rate : bucket.refillPerSecond = rate
  tokens : bucket.tokens ≤ burst
  microTokens : bucket.microTokens < 1000000

/-- What the bucket holds, in micro-tokens. -/
def worth (bucket : RateLimiter) : Nat := bucket.tokens * 1000000 + bucket.microTokens

/-- A refill adds at most what the time is worth. -/
theorem refill_spec (sound : Sound burst rate bucket) :
    Sound burst rate (bucket.refill now) ∧
      (bucket.refill now).lastRefill = max bucket.lastRefill now ∧
      bucket.tokens ≤ (bucket.refill now).tokens ∧
      (bucket.refill now).worth ≤ bucket.worth + rate * (now - bucket.lastRefill) := by
  obtain ⟨enabled, capacity, isRate, tokens, microTokens⟩ := sound
  subst isRate
  have product := Nat.mod_le (bucket.refillPerSecond * (now - bucket.lastRefill)) (2 ^ 64)
  have sum := Nat.mod_le
    (bucket.microTokens + u64 (bucket.refillPerSecond * (now - bucket.lastRefill))) (2 ^ 64)
  unfold refill worth
  dsimp only
  unfold u64 at sum ⊢
  split
  · exact ⟨⟨enabled, capacity, rfl, tokens, microTokens⟩, by omega, le_rfl, by omega⟩
  · split
    · refine ⟨⟨enabled, capacity, rfl, tokens, ?_⟩, ?_, le_rfl, ?_⟩ <;> dsimp only <;> omega
    · refine ⟨⟨enabled, capacity, rfl, ?_, ?_⟩, ?_, ?_, ?_⟩ <;> dsimp only <;> (try split_ifs) <;> omega

/-- What is granted is taken from what the bucket holds. -/
theorem tryConsume_spec (sound : Sound burst rate bucket) :
    Sound burst rate (bucket.tryConsume request).2 ∧
      (bucket.tryConsume request).2.lastRefill = max bucket.lastRefill request.time ∧
      (bucket.tryConsume request).2.worth +
          (if (bucket.tryConsume request).1 then request.amount else 0) * 1000000 ≤
        bucket.worth + rate * (request.time - bucket.lastRefill) := by
  obtain ⟨refilled, time, _, gained⟩ := @refill_spec burst rate request.time bucket sound
  unfold tryConsume
  rw [if_neg (by simp [sound.enabled])]
  generalize bucket.refill request.time = later at *
  dsimp only
  split
  next covered =>
    refine ⟨⟨refilled.enabled, refilled.capacity, refilled.rate, ?_, refilled.microTokens⟩, time, ?_⟩
    · exact (Nat.sub_le _ _).trans refilled.tokens
    · unfold worth at gained ⊢
      rw [if_pos rfl, Nat.sub_mul, Nat.add_right_comm,
        Nat.sub_add_cancel (Nat.mul_le_mul_right _ covered)]
      exact gained
  · exact ⟨refilled, time, by simpa using gained⟩

theorem after_spec (sound : Sound burst rate bucket) :
    Sound burst rate (bucket.after requests) ∧
      (bucket.after requests).lastRefill ∈ bucket.lastRefill :: requests.map Request.time := by
  refine @foldl_keeps _ _ (fun later => Sound burst rate later ∧
    later.lastRefill ∈ bucket.lastRefill :: requests.map Request.time) _ requests ?_ _
    ⟨sound, List.mem_cons_self⟩
  rintro request member later ⟨laterSound, time⟩
  obtain ⟨served, isTime, _⟩ := @tryConsume_spec burst rate later request laterSound
  refine ⟨served, ?_⟩
  rw [isTime]
  rcases max_choice later.lastRefill request.time with same | same
  · rw [same]
    exact time
  · rw [same]
    exact List.mem_cons_of_mem _ (List.mem_map_of_mem member)

/-- Requests that come one after the other, from a time on. -/
def Timed (start : Nat) (requests : List Request) : Prop :=
  (start :: requests.map Request.time).Pairwise (· ≤ ·)

theorem granted_le {last : Nat} (sound : Sound burst rate bucket)
    (timed : Timed bucket.lastRefill requests) (inTime : ∀ request ∈ requests, request.time ≤ last) :
    granted requests bucket * 1000000 ≤ bucket.worth + rate * (last - bucket.lastRefill) := by
  induction requests generalizing bucket with
  | nil => simp [granted]
  | cons request rest ih =>
    obtain ⟨served, isTime, taken⟩ := @tryConsume_spec burst rate bucket request sound
    obtain ⟨notBefore, timed⟩ := List.pairwise_cons.mp timed
    have reached : bucket.lastRefill ≤ request.time := notBefore _ List.mem_cons_self
    have inside := inTime request List.mem_cons_self
    rw [max_eq_right reached] at isTime
    have later := ih served (by rw [isTime]; exact timed)
      fun other member => inTime other (List.mem_cons_of_mem _ member)
    have split : last - bucket.lastRefill =
        (request.time - bucket.lastRefill) + (last - request.time) := by omega
    rw [isTime] at later
    rw [granted, split, Nat.mul_add, Nat.add_mul]
    calc
      _ ≤ _ + (_ + rate * (last - request.time)) := Nat.add_le_add_left later _
      _ = _ + _ + rate * (last - request.time) := by rw [← Nat.add_assoc, Nat.add_comm _ (worth _)]
      _ ≤ _ + rate * (last - request.time) := Nat.add_le_add_right taken _
      _ = _ := Nat.add_assoc ..

/-- A second refill at the same time adds nothing. -/
theorem tryConsume_refill (sound : Sound burst rate bucket) :
    (bucket.refill request.time).tryConsume request = bucket.tryConsume request := by
  obtain ⟨refilled, time, _⟩ := @refill_spec burst rate request.time bucket sound
  have again : (bucket.refill request.time).refill request.time = bucket.refill request.time := by
    rw [refill, if_pos (by rw [time]; omega)]
  simp [tryConsume, refilled.enabled, sound.enabled, again]

/-- What a request would add to the bucket fits 64 bits. -/
def Fits (bucket : RateLimiter) (now : Nat) : Prop :=
  bucket.microTokens + bucket.refillPerSecond * (now - bucket.lastRefill) < 2 ^ 64

/-- **The bucket keeps to its rate.** In any interval it grants at most the burst, the refill of the
interval and one token, and after the time of a full refill without a request it grants every
amount up to the burst, if the refill of the pause fits 64 bits. -/
theorem tokenBucket_conforms {inside : List Request} (hasBurst : 0 < burst) (hasRate : 0 < rate)
    (timed : Timed start (earlier ++ inside)) :
    (∀ first length, (∀ request ∈ inside, first ≤ request.time ∧ request.time ≤ first + length) →
        granted inside ((new burst rate start).after earlier) ≤
          burst + rate * length / 1000000 + 1) ∧
      ∀ request : Request, request.amount ≤ burst →
        (∀ other ∈ earlier, other.time + (burst * 1000000 ⌈/⌉ rate) ≤ request.time) →
        ((new burst rate start).after earlier).Fits request.time →
        (((new burst rate start).after earlier).tryConsume request).1 = true := by
  have initial : Sound burst rate (new burst rate start) :=
    ⟨by simp [new, hasBurst.ne', hasRate.ne'], rfl, rfl, le_rfl, Nat.zero_lt_succ _⟩
  obtain ⟨sound, reached⟩ := @after_spec burst rate (new burst rate start) earlier initial
  unfold Timed at timed
  rw [List.map_append, ← List.cons_append, List.pairwise_append] at timed
  obtain ⟨early, late, ordered⟩ := timed
  constructor
  · intro first length within
    cases inside with
    | nil => exact Nat.zero_le _
    | cons request rest =>
      obtain ⟨refilled, time, _⟩ := @refill_spec burst rate request.time _ sound
      have notBefore := ordered _ reached request.time List.mem_cons_self
      rw [max_eq_right notBefore] at time
      have same : granted (request :: rest) ((new burst rate start).after earlier) =
          granted (request :: rest) (((new burst rate start).after earlier).refill request.time) := by
        simp only [granted, tryConsume_refill sound]
      have served : Timed request.time (request :: rest) := by
        refine List.pairwise_cons.mpr ⟨fun time' member => ?_, late⟩
        rcases List.mem_cons.mp member with isFirst | isLater
        · exact isFirst.ge
        · exact (List.pairwise_cons.mp late).1 _ isLater
      have bound := @granted_le burst rate _ (request :: rest) (first + length) refilled
        (by rw [time]; exact served) fun other member => (within other member).2
      have inside := within request List.mem_cons_self
      have share : rate * (first + length - request.time) ≤ rate * length :=
        Nat.mul_le_mul_left rate (by omega)
      obtain ⟨_, _, _, tokens, microTokens⟩ := refilled
      rw [time] at bound
      unfold worth at bound
      rw [same]
      generalize ((new burst rate start).after earlier).refill request.time = full at *
      omega
  · intro request small pause fits
    obtain ⟨refilled, _, kept, _⟩ := @refill_spec burst rate request.time _ sound
    have full : burst ≤ (((new burst rate start).after earlier).refill request.time).tokens := by
      cases earlier with
      | nil => exact kept
      | cons other rest =>
        have idle : burst * 1000000 ⌈/⌉ rate ≤
            request.time - ((new burst rate start).after (other :: rest)).lastRefill := by
          have begun : start + (burst * 1000000 ⌈/⌉ rate) ≤ request.time :=
            (Nat.add_le_add_right ((List.pairwise_cons.mp early).1 _ List.mem_cons_self) _).trans
              (pause other List.mem_cons_self)
          rcases List.mem_cons.mp reached with isStart | isRequest
          · rw [isStart]
            exact Nat.le_sub_of_add_le' begun
          · obtain ⟨last, member, isLast⟩ := List.mem_map.mp isRequest
            rw [← isLast]
            exact Nat.le_sub_of_add_le' (pause last member)
        rw [ceilDiv_le_iff_le_mul hasRate] at idle
        obtain ⟨_, capacity, isRate, _, _⟩ := sound
        unfold Fits at fits
        rw [isRate] at fits
        generalize (new burst rate start).after (other :: rest) = emptied at *
        have elapsed : request.time - emptied.lastRefill ≠ 0 := by
          intro none
          rw [none] at idle
          omega
        unfold refill u64
        rw [isRate, capacity]
        dsimp only
        rw [if_neg elapsed, Nat.mod_eq_of_lt (show rate * _ < _ by omega),
          Nat.mod_eq_of_lt fits]
        rw [if_neg (by omega)]
        dsimp only
        split <;> omega
    unfold tryConsume
    rw [if_neg (by simp [sound.enabled]), if_pos (small.trans full)]

/-- A bucket of five tokens a second is full again after two seconds. -/
theorem emptied_refilled :
    (((new 10 5 0).after [⟨0, 10⟩]).tryConsume ⟨2000000, 10⟩).1 = true :=
  (@tokenBucket_conforms 10 5 0 [⟨0, 10⟩] [] (by decide) (by decide) (by simp [Timed])).2
    ⟨2000000, 10⟩ (by decide) (by decide) (by unfold Fits; decide)

/-- The pause of `2 ^ 33` microseconds is worth `2 ^ 64` micro-tokens and fills the bucket with
none. -/
theorem longPause_refused :
    0 + (10 * 1000000 ⌈/⌉ 2 ^ 31) ≤ 2 ^ 33 ∧
      (((new 10 (2 ^ 31) 0).after [⟨0, 10⟩]).tryConsume ⟨2 ^ 33, 1⟩).1 = false := by
  decide

end RateLimiter

end Clarity.Common
