import AisPipeline.Cpp.Text
import Mathlib.Tactic.Ring
import Mathlib.Tactic.Positivity

/-!
# The delay before reconnecting

The counter and the durations are machine integers whose overflow is undefined,
so "returns" also means that nothing overflows.
-/
namespace Ais

open Cpp

/-- `a + b` on `int`, undefined where it overflows. -/
def addInt (a b : Int32) : Except Exn Int32 :=
  if -2 ^ 31 ≤ a.toInt + b.toInt ∧ a.toInt + b.toInt < 2 ^ 31 then .ok (a + b)
  else .error (.undefinedBehaviour "signed overflow")

/-- `a *= b` on a duration of 64 bits, undefined where it overflows. -/
def mulDuration (a b : Int64) : Except Exn Int64 :=
  if -2 ^ 63 ≤ a.toInt * b.toInt ∧ a.toInt * b.toInt < 2 ^ 63 then .ok (a * b)
  else .error (.undefinedBehaviour "signed overflow")

/-- `std::min`. -/
def stdMin {α : Type} [LT α] [DecidableLT α] (a b : α) : α := if b < a then b else a

theorem stdMin_int32 (a b : Int32) : (stdMin a b).toInt = min a.toInt b.toInt := by
  rw [stdMin]
  split
  next less => exact (min_eq_right (Int32.lt_iff_toInt_lt.mp less).le).symm
  next more => exact (min_eq_left (not_lt.mp (mt Int32.lt_iff_toInt_lt.mpr more))).symm

theorem stdMin_int64 (a b : Int64) : (stdMin a b).toInt = min a.toInt b.toInt := by
  rw [stdMin]
  split
  next less => exact (min_eq_right (Int64.lt_iff_toInt_lt.mp less).le).symm
  next more => exact (min_eq_left (not_lt.mp (mt Int64.lt_iff_toInt_lt.mpr more))).symm

/-- `ReconnectBackoff`. -/
structure ReconnectBackoff where
  consecutiveFailures : Int32 := 0
  deriving DecidableEq, Repr

namespace ReconnectBackoff

/-- In milliseconds. -/
def initialDelay : Int64 := 1000

/-- In milliseconds. -/
def maxDelay : Int64 := 30000

/-- 60 seconds, in the nanoseconds of the clock. -/
def healthyConnection : Int64 := 60000000000

/-- The loop of `after_failure` with `turns` left of `consecutive_failures_ - i`. -/
def doubleDelay : Nat → Int64 → Except Exn Int64
  | 0, delay => .ok delay
  | turns + 1, delay =>
    if delay < maxDelay then do
      let delay ← mulDuration delay 2
      doubleDelay turns delay
    else .ok delay

/-- `after_failure`. -/
def afterFailure (backoff : ReconnectBackoff) (attemptDuration : Int64) :
    Except Exn (ReconnectBackoff × Int64) := do
  let failures := if attemptDuration ≥ healthyConnection then 0 else backoff.consecutiveFailures
  let next ← addInt failures 1
  let failures := stdMin next 1000
  let delay ← doubleDelay failures.toInt.toNat initialDelay
  .ok (⟨failures⟩, stdMin delay maxDelay)

/-- A sequence of calls, and the delays they return. -/
def afterFailures (backoff : ReconnectBackoff) :
    List Int64 → Except Exn (ReconnectBackoff × List Int64)
  | [] => .ok (backoff, [])
  | duration :: durations => do
    let (backoff, delay) ← backoff.afterFailure duration
    let (backoff, delays) ← afterFailures backoff durations
    .ok (backoff, delay :: delays)

/-! ### The loop -/

private theorem mulDuration_two {delay : Int64} (low : 0 ≤ delay.toInt)
    (high : delay.toInt < 2 ^ 31) :
    ∃ doubled, mulDuration delay 2 = .ok doubled ∧ doubled.toInt = 2 * delay.toInt := by
  have two : (2 : Int64).toInt = 2 := rfl
  refine ⟨delay * 2, ?_, ?_⟩
  · rw [mulDuration, two, if_pos (by omega)]
  · rw [Int64.toInt_mul, two, Int.bmod_eq_of_le (by omega) (by omega), mul_comm]

private theorem lt_maxDelay_iff {delay : Int64} : delay < maxDelay ↔ delay.toInt < 30000 :=
  Int64.lt_iff_toInt_lt

/-- From a value it passes through, the loop doubles up to 32000 and no further. -/
theorem doubleDelay_from (turns doublings : Nat) {delay : Int64} (bound : doublings ≤ 5)
    (at_delay : delay.toInt = 1000 * 2 ^ doublings) :
    ∃ result, doubleDelay turns delay = .ok result ∧
      result.toInt = 1000 * 2 ^ min (doublings + turns) 5 := by
  induction turns generalizing doublings delay with
  | zero => exact ⟨delay, rfl, by rw [at_delay, Nat.add_zero, Nat.min_eq_left bound]⟩
  | succ turns ih =>
    have size : (2 : Int) ^ doublings ≤ 2 ^ 5 := pow_le_pow_right₀ (by decide) bound
    have positive : (0 : Int) < 2 ^ doublings := by positivity
    rw [doubleDelay]
    rcases Nat.lt_or_eq_of_le bound with below | rfl
    · have room : (2 : Int) ^ doublings ≤ 2 ^ 4 := pow_le_pow_right₀ (by decide) (by omega)
      obtain ⟨doubled, multiplied, value⟩ := @mulDuration_two delay (by omega) (by omega)
      obtain ⟨result, looped, reached⟩ := @ih (doublings + 1) doubled below
        (by rw [value, at_delay, pow_succ]; ring)
      rw [if_pos (lt_maxDelay_iff.mpr (by omega)), multiplied]
      exact ⟨result, looped, by rw [reached]; congr 2; omega⟩
    · -- 32000 is past the maximum
      rw [if_neg (by rw [lt_maxDelay_iff, at_delay]; decide)]
      exact ⟨delay, rfl, by rw [at_delay]; congr 2; omega⟩

/-- Every value `delay` has in the loop, whatever the counter. -/
theorem doubleDelay_bounded (turns : Nat) :
    ∃ delay, doubleDelay turns initialDelay = .ok delay ∧ delay.toInt = 1000 * 2 ^ min turns 5 ∧
      delay.toInt ≤ 32000 := by
  obtain ⟨delay, looped, value⟩ := @doubleDelay_from turns 0 initialDelay (by decide) rfl
  rw [Nat.zero_add] at value
  have size : (2 : Int) ^ min turns 5 ≤ 2 ^ 5 := pow_le_pow_right₀ (by decide) (min_le_right ..)
  exact ⟨delay, looped, value, by omega⟩

end ReconnectBackoff

end Ais
