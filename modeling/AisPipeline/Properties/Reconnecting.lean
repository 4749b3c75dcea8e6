import AisPipeline.Pipeline.ReconnectBackoff

/-!
# Reconnect delays

A counter capped at 1000 and a doubling that stops early stand in for a power
of two. The abstract count of failures in a row has no cap; the two agree
because the delay has long reached its maximum where the cap sets in.
-/
namespace Ais

namespace ReconnectBackoff

/-- The attempt counts as a success. -/
def Healthy (duration : Int64) : Prop := healthyConnection ≤ duration

instance : DecidablePred Healthy := fun duration =>
  inferInstanceAs (Decidable (healthyConnection ≤ duration))

/-- The number of calls since the last healthy one, that one included, or since the start. -/
def sinceHealthy (calls : List Int64) : Nat :=
  (calls.reverse.takeWhile (fun call => ¬ Healthy call)).length +
    if calls.any (fun call => Healthy call) then 1 else 0

/-- The delay after `failures` in a row: `min(30000, 1000 * 2^failures)`. -/
def delayAfter (failures : Nat) : Int := min 30000 (1000 * 2 ^ failures)

theorem sinceHealthy_concat (calls : List Int64) (last : Int64) :
    sinceHealthy (calls ++ [last]) = if Healthy last then 1 else sinceHealthy calls + 1 := by
  by_cases healthy : Healthy last
  · simp [sinceHealthy, healthy]
  · simp only [sinceHealthy, List.reverse_append, List.reverse_singleton, List.singleton_append,
      List.takeWhile_cons, healthy, not_false_eq_true, decide_true, decide_false, if_true,
      List.length_cons, List.any_append, List.any_cons, List.any_nil, Bool.or_false, if_false]
    omega

theorem sinceHealthy_append {calls more : List Int64} (failing : ∀ call ∈ more, ¬ Healthy call) :
    sinceHealthy (calls ++ more) = sinceHealthy calls + more.length := by
  induction more using List.reverseRecOn with
  | nil => simp
  | append_singleton more last ih =>
    rw [← List.append_assoc, sinceHealthy_concat, if_neg (failing last (by simp)),
      ih fun call member => failing call (by simp [member]), List.length_append,
      List.length_singleton, Nat.add_assoc]

theorem delayAfter_mono {fewer more : Nat} (le : fewer ≤ more) :
    delayAfter fewer ≤ delayAfter more := by
  have grows : (2 : Int) ^ fewer ≤ 2 ^ more := pow_le_pow_right₀ (by decide) le
  rw [delayAfter, delayAfter]
  omega

/-- The current call counts itself. -/
theorem sinceHealthy_pos {calls : List Int64} (called : calls ≠ []) : 1 ≤ sinceHealthy calls := by
  obtain ⟨before, last, rfl⟩ : ∃ before last, calls = before ++ [last] :=
    ⟨_, _, (List.dropLast_append_getLast called).symm⟩
  rw [sinceHealthy_concat]
  split
  · exact le_refl _
  · exact Nat.le_add_left ..

theorem delayAfter_bounds {failures : Nat} (failed : 1 ≤ failures) :
    2000 ≤ delayAfter failures ∧ delayAfter failures ≤ 30000 := by
  have first := delayAfter_mono failed
  exact ⟨first, min_le_left ..⟩

/-! ### The code follows the count -/

/-- The counter holds this many failures, capped. -/
def Counts (backoff : ReconnectBackoff) (failures : Nat) : Prop :=
  backoff.consecutiveFailures.toInt = min failures 1000

/-- A cap of 1000 doublings does not show. -/
private theorem capped_delay (failures : Nat) :
    min (1000 * 2 ^ min (min failures 1000) 5) 30000 = delayAfter failures := by
  rw [delayAfter, min_comm]
  rcases Nat.lt_or_ge failures 5 with few | many
  · rw [Nat.min_eq_left (show failures ≤ 1000 by omega), Nat.min_eq_left (by omega)]
  · have large : (2 : Int) ^ 5 ≤ 2 ^ failures := pow_le_pow_right₀ (by decide) many
    have capped : min (min failures 1000) 5 = 5 := by omega
    rw [capped, min_eq_left (by decide), min_eq_left (by omega)]

/-- What a call does once the test for a healthy attempt has left `before` failures. -/
private theorem afterFailure_from {backoff : ReconnectBackoff} {duration : Int64} {before : Nat}
    (started : (if duration ≥ healthyConnection then 0 else backoff.consecutiveFailures).toInt =
      min before 1000) :
    ∃ after delay, backoff.afterFailure duration = .ok (after, delay) ∧
      after.Counts (before + 1) ∧ delay.toInt = delayAfter (before + 1) := by
  rw [afterFailure]
  generalize (if duration ≥ healthyConnection then 0 else backoff.consecutiveFailures) = failures
    at started ⊢
  have one : (1 : Int32).toInt = 1 := rfl
  have cap : (1000 : Int32).toInt = 1000 := rfl
  have room : failures.toInt + 1 ≤ 1001 ∧ 0 ≤ failures.toInt := by omega
  have next : (failures + 1).toInt = failures.toInt + 1 := by
    rw [Int32.toInt_add, one, Int.bmod_eq_of_le (by omega) (by omega)]
  have counted : (stdMin (failures + 1) 1000).toInt = min (before + 1 : Nat) 1000 := by
    rw [stdMin_int32, next, started, cap]
    omega
  -- the loop has the capped counter for its number of turns
  obtain ⟨delay, looped, value, -⟩ := doubleDelay_bounded (stdMin (failures + 1) 1000).toInt.toNat
  refine ⟨⟨stdMin (failures + 1) 1000⟩, stdMin delay maxDelay, ?_, counted, ?_⟩
  · rw [addInt, one, if_pos (by omega)]
    simp only [bind, Except.bind, looped]
  · have turns : (stdMin (failures + 1) 1000).toInt.toNat = min (before + 1) 1000 := by
      rw [counted, Int.toNat_natCast]
    have most : maxDelay.toInt = 30000 := rfl
    rw [stdMin_int64, value, turns, most, capped_delay]

/-- One call adds one to the count, or starts it over, and waits as long as the count says. -/
theorem afterFailure_counts {backoff : ReconnectBackoff} {calls : List Int64}
    (counts : backoff.Counts (sinceHealthy calls)) (duration : Int64) :
    ∃ after delay, backoff.afterFailure duration = .ok (after, delay) ∧
      after.Counts (sinceHealthy (calls ++ [duration])) ∧
      delay.toInt = delayAfter (sinceHealthy (calls ++ [duration])) := by
  rw [sinceHealthy_concat]
  by_cases healthy : Healthy duration
  · rw [if_pos healthy]
    have afresh : (if duration ≥ healthyConnection then 0 else backoff.consecutiveFailures).toInt =
        min (0 : Nat) 1000 := by
      rw [if_pos (show duration ≥ healthyConnection from healthy)]
      rfl
    exact afterFailure_from afresh
  · rw [if_neg healthy]
    have goesOn : (if duration ≥ healthyConnection then 0 else backoff.consecutiveFailures).toInt =
        min (sinceHealthy calls) 1000 := by
      rw [if_neg (show ¬ duration ≥ healthyConnection from healthy)]
      exact counts
    exact afterFailure_from goesOn

/-- The calls after `calls` keep to the count. -/
theorem afterFailures_counts {backoff : ReconnectBackoff} {calls : List Int64}
    (counts : backoff.Counts (sinceHealthy calls)) (durations : List Int64) :
    ∃ after delays, backoff.afterFailures durations = .ok (after, delays) ∧
      after.Counts (sinceHealthy (calls ++ durations)) ∧
      delays.map Int64.toInt = (List.range durations.length).map fun i =>
        delayAfter (sinceHealthy (calls ++ durations.take (i + 1))) := by
  induction durations generalizing backoff calls with
  | nil => exact ⟨backoff, [], rfl, by rwa [List.append_nil], rfl⟩
  | cons duration durations ih =>
    obtain ⟨middle, delay, called, counted, value⟩ := afterFailure_counts counts duration
    obtain ⟨after, delays, rest, ended, values⟩ := ih counted
    refine ⟨after, delay :: delays, ?_, ?_, ?_⟩
    · simp only [afterFailures, called, rest, bind, Except.bind]
    · rwa [← List.singleton_append, ← List.append_assoc]
    · rw [List.length_cons, List.range_succ_eq_map, List.map_cons, List.map_cons, List.map_map, values,
        value]
      simp [Function.comp_def]

/-- Delays over any sequence of failed attempts, from the start. -/
theorem reconnect_delays (durations : List Int64) :
    ∃ (last : ReconnectBackoff) (delays : List Int64),
      afterFailures {} durations = .ok (last, delays) ∧
      -- each delay is its mathematical definition
      delays.map Int64.toInt = (List.range durations.length).map (fun i =>
        min 30000 (1000 * 2 ^ sinceHealthy (durations.take (i + 1)))) ∧
      -- neither the counter nor any value of the delay gets far
      last.consecutiveFailures.toInt ≤ 1000 ∧
      (∀ turns, ∃ delay, doubleDelay turns initialDelay = .ok delay ∧ delay.toInt ≤ 32000) ∧
      -- so the delays stay in their bounds, grow between healthy attempts, and start over
      (∀ delay ∈ delays, 2000 ≤ delay.toInt ∧ delay.toInt ≤ 30000) ∧
      (∀ (i j : Nat) (earlier later : Int64), i ≤ j → delays[i]? = some earlier →
        delays[j]? = some later → (∀ call ∈ (durations.take (j + 1)).drop (i + 1), ¬ Healthy call) →
        earlier.toInt ≤ later.toInt) ∧
      ∀ (i : Nat) (duration delay : Int64), durations[i]? = some duration →
        delays[i]? = some delay → Healthy duration → delay.toInt = 2000 := by
  obtain ⟨last, delays, called, counted, values⟩ := @afterFailures_counts {} [] rfl durations
  simp only [List.nil_append] at counted values
  have answered : delays.length = durations.length := by
    simpa using congrArg List.length values
  have value {i : Nat} {delay : Int64} (given : delays[i]? = some delay) :
      i < durations.length ∧ delay.toInt = delayAfter (sinceHealthy (durations.take (i + 1))) := by
    have inside : i < durations.length := answered ▸ (List.getElem?_eq_some_iff.mp given).1
    have mapped : (delays.map Int64.toInt)[i]? = some delay.toInt := by
      rw [List.getElem?_map, given, Option.map_some]
    rw [values, List.getElem?_map, List.getElem?_range inside, Option.map_some,
      Option.some.injEq] at mapped
    exact ⟨inside, mapped.symm⟩
  refine ⟨last, delays, called, values, ?_, ?_, ?_, ?_, ?_⟩
  · rw [counted]
    omega
  · intro turns
    obtain ⟨delay, looped, -, bounded⟩ := doubleDelay_bounded turns
    exact ⟨delay, looped, bounded⟩
  · intro delay member
    obtain ⟨i, given⟩ := List.mem_iff_getElem?.mp member
    obtain ⟨inside, exact_delay⟩ := value given
    have called : durations.take (i + 1) ≠ [] := by
      rw [ne_eq, List.take_eq_nil_iff]
      rintro (impossible | rfl)
      · cases impossible
      · cases inside
    rw [exact_delay]
    exact delayAfter_bounds (sinceHealthy_pos called)
  · intro i j earlier later le first second failing
    have cut := List.take_append_drop (i + 1) (durations.take (j + 1))
    rw [List.take_take, Nat.min_eq_left (by omega)] at cut
    rw [(value first).2, (value second).2, ← cut, sinceHealthy_append failing]
    exact delayAfter_mono (Nat.le_add_right ..)
  · intro i duration delay called returned healthy
    rw [(value returned).2, List.take_add_one, called, Option.toList_some, sinceHealthy_concat,
      if_pos healthy]
    rfl

end ReconnectBackoff

end Ais
