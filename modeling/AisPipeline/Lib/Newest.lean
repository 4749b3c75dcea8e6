import Mathlib.Data.List.MinMax

/-!
# The newest entry of a log

Entries are appended in the order they arrive, which need not be the order of
their ranks. The newest is the one of greatest rank, and among equals the one
that arrived last.
-/
namespace Newest

variable {α β : Type*} [LinearOrder β]

/-- The last entry of greatest rank. -/
def newest (rank : α → β) (log : List α) : Option α := log.reverse.argmax rank

/-- `x` stands at a place of `log` where nothing before ranks higher and everything after
ranks lower. -/
def IsNewest (rank : α → β) (log : List α) (x : α) : Prop :=
  ∃ before after, log = before ++ x :: after ∧
    (∀ y ∈ before, rank y ≤ rank x) ∧ ∀ y ∈ after, rank y < rank x

variable {rank : α → β} {log : List α} {x : α}

theorem newest_eq_none : newest rank log = none ↔ log = [] := by
  rw [newest, List.argmax_eq_none, List.reverse_eq_nil_iff]

/-- A later entry takes over unless it ranks lower. -/
theorem newest_append_singleton :
    newest rank (log ++ [x]) =
      match newest rank log with
      | none => some x
      | some best => if rank best ≤ rank x then some x else some best := by
  rw [newest, List.reverse_append, List.reverse_singleton, List.singleton_append, List.argmax_cons,
    newest]
  cases log.reverse.argmax rank with
  | none => rfl
  | some best =>
    by_cases lower : rank x < rank best
    · simp [lower, not_le.mpr lower]
    · simp [lower, not_lt.mp lower]

private theorem isNewest_append_self (low : ∀ y ∈ log, rank y ≤ rank x) :
    IsNewest rank (log ++ [x]) x :=
  ⟨log, [], rfl, low, by simp⟩

private theorem IsNewest.append {y : α} (held : IsNewest rank log x) (lower : rank y < rank x) :
    IsNewest rank (log ++ [y]) x := by
  obtain ⟨before, after, rfl, low, lows⟩ := held
  refine ⟨before, after ++ [y], by simp, low, fun z member => ?_⟩
  rcases List.mem_append.mp member with old | new
  · exact lows z old
  · rw [List.mem_singleton.mp new]
    exact lower

theorem IsNewest.mem (held : IsNewest rank log x) : x ∈ log := by
  obtain ⟨before, after, rfl, -⟩ := held
  simp

theorem IsNewest.le {y : α} (held : IsNewest rank log x) (member : y ∈ log) : rank y ≤ rank x := by
  obtain ⟨before, after, rfl, low, lows⟩ := held
  rcases List.mem_append.mp member with earlier | rest
  · exact low y earlier
  · rcases List.mem_cons.mp rest with rfl | later
    · exact le_rfl
    · exact (lows y later).le

theorem isNewest_of_newest (found : newest rank log = some x) : IsNewest rank log x := by
  induction log using List.reverseRecOn generalizing x with
  | nil => cases found
  -- appending is how a log grows, so the induction runs from the end
  | append_singleton log y ih =>
    rw [newest_append_singleton] at found
    cases at_log : newest rank log with
    | none =>
      rw [at_log] at found
      obtain rfl : y = x := Option.some.inj found
      rw [newest_eq_none] at at_log
      exact isNewest_append_self (by simp [at_log])
    | some best =>
      have held := ih at_log
      simp only [at_log] at found
      split at found
      next low =>
        obtain rfl : y = x := Option.some.inj found
        exact isNewest_append_self fun z member => (held.le member).trans low
      next lower =>
        obtain rfl : best = x := Option.some.inj found
        exact held.append (not_le.mp lower)

/-- Two places of one log cannot both be newest. -/
private theorem IsNewest.unique {y : α} (left : IsNewest rank log x) (right : IsNewest rank log y) :
    x = y := by
  obtain ⟨before, after, rfl, low, lows⟩ := left
  obtain ⟨before', after', same, low', lows'⟩ := right
  -- one of the two places lies behind the other, with `gap` in between
  rcases List.append_eq_append_iff.mp same with ⟨gap, rfl, shape⟩ | ⟨gap, rfl, shape⟩
  all_goals
    cases gap with
    | nil => simpa [eq_comm] using (List.cons.inj shape).1
    | cons z gap => ?_
  · obtain ⟨rfl, rfl⟩ := List.cons.inj shape
    exact absurd (lows y (by simp)) (not_lt.mpr (low' x (by simp)))
  · obtain ⟨rfl, rfl⟩ := List.cons.inj shape
    exact absurd (lows' x (by simp)) (not_lt.mpr (low y (by simp)))

/-- What `newest` computes. -/
theorem newest_eq_some_iff : newest rank log = some x ↔ IsNewest rank log x := by
  constructor
  · exact isNewest_of_newest
  · intro held
    cases found : newest rank log with
    | none =>
      obtain ⟨before, after, rfl, -⟩ := held
      simp [newest_eq_none] at found
    | some best => rw [(isNewest_of_newest found).unique held]

/-- Where entries arrive in the order of their ranks, the newest is the last. -/
theorem newest_of_ordered (ordered : log.Pairwise fun y z => rank y ≤ rank z) :
    newest rank log = log.getLast? := by
  cases at_end : log.getLast? with
  | none => rw [newest_eq_none, List.getLast?_eq_none_iff.mp at_end]
  | some x =>
    obtain ⟨before, rfl⟩ := List.getLast?_eq_some_iff.mp at_end
    rw [List.pairwise_append] at ordered
    rw [newest_eq_some_iff]
    exact isNewest_append_self fun y member => ordered.2.2 y member x (by simp)

theorem isNewest_map_iff {γ : Type*} {f : γ → α} {source : List γ} :
    IsNewest rank (source.map f) x ↔ ∃ y, IsNewest (rank ∘ f) source y ∧ f y = x := by
  constructor
  · rintro ⟨before, after, shape, low, lows⟩
    obtain ⟨before, rest, rfl, rfl, at_rest⟩ := List.map_eq_append_iff.mp shape
    obtain ⟨y, after, rfl, rfl, rfl⟩ := List.map_eq_cons_iff.mp at_rest
    exact ⟨y, ⟨before, after, rfl, List.forall_mem_map.mp low, List.forall_mem_map.mp lows⟩, rfl⟩
  · rintro ⟨y, ⟨before, after, rfl, low, lows⟩, rfl⟩
    exact ⟨before.map f, after.map f, by simp, List.forall_mem_map.mpr low,
      List.forall_mem_map.mpr lows⟩

theorem newest_map {γ : Type*} {f : γ → α} {source : List γ} :
    newest rank (source.map f) = (newest (rank ∘ f) source).map f := by
  refine Option.ext fun x => ?_
  rw [newest_eq_some_iff, isNewest_map_iff, Option.map_eq_some_iff]
  simp only [newest_eq_some_iff]

/-- Where each entry knows its place in the log, the newest is the greatest by rank, then place. -/
theorem isNewest_iff_of_ascending {γ : Type*} [LinearOrder γ] {place : α → γ}
    (ascending : log.Pairwise fun y z => place y < place z) :
    IsNewest rank log x ↔
      x ∈ log ∧ ∀ y ∈ log, rank y ≤ rank x ∧ (rank y = rank x → place y ≤ place x) := by
  constructor
  · intro held
    refine ⟨held.mem, fun y member => ⟨held.le member, fun same => ?_⟩⟩
    obtain ⟨before, after, rfl, low, lows⟩ := held
    rw [List.pairwise_append] at ascending
    rcases List.mem_append.mp member with earlier | rest
    -- ranks may tie with earlier entries only, and those have lower places
    · exact (ascending.2.2 y earlier x List.mem_cons_self).le
    · rcases List.mem_cons.mp rest with rfl | later
      · exact le_rfl
      · exact absurd same (lows y later).ne
  · rintro ⟨member, greatest⟩
    obtain ⟨before, after, rfl⟩ := List.append_of_mem member
    refine ⟨before, after, rfl, fun y earlier => (greatest y (by simp [earlier])).1, fun y later => ?_⟩
    rw [List.pairwise_append, List.pairwise_cons] at ascending
    obtain ⟨low, tie⟩ := greatest y (by simp [later])
    exact lt_of_le_of_ne low fun same => absurd (ascending.2.1.1 y later) (not_lt.mpr (tie same))

end Newest
