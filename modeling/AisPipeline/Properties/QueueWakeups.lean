import AisPipeline.Lib.Monitor
import AisPipeline.Properties.QueueFifo

/-!
# The queue as a monitor

The same operations with the lock and the two condition variables made
explicit: who sleeps, who is notified and who holds the lock.
-/
namespace Ais

open Cpp Transition

/-- The reply of a section that does not wait. -/
def Outcome.reply? {β : Type*} : Outcome β → Option (Except Exn β)
  | .waits => none
  | .returned result => some (.ok result)
  | .threw exn => some (.error exn)

namespace ThreadSafeQueue

variable {τ α : Type*}

/-- `not_empty_` and `not_full_`. -/
inductive Condition where
  | notEmpty
  | notFull
  deriving DecidableEq, Repr

/-- What a call waits on. -/
def Call.condition : Call α → Option Condition
  | .push _ => some .notFull
  | .pop => some .notEmpty
  -- `pop_batch` refuses 0 before it gets to wait
  | .popBatch max => if max = 0 then none else some .notEmpty
  | .close => none

/-- The notifications a section of a call makes when it ends like this. -/
def Call.notifies : Call α → Outcome (Reply α) → Condition → Notify
  | .push _, .returned _, .notEmpty => .one
  | .pop, .returned (.item (some _)), .notFull => .one
  | .popBatch _, .returned (.batch (_ :: _)), .notFull => .all
  | .close, _, _ => .all
  | _, _, _ => .nobody

def monitor : Monitor (ThreadSafeQueue α) (Call α) Condition (Except Exn (Reply α)) where
  condition := Call.condition
  body q call := ((call.section q).1, (call.section q).2.reply?)
  notifies q call := call.notifies (call.section q).2

/-- Items to take, or places to fill; without limit once the queue is closed. -/
def available (condition : Condition) (q : ThreadSafeQueue α) : ℕ∞ :=
  if q.closed then ⊤
  else
    match condition with
    | .notEmpty => q.queue.length
    | .notFull => (q.capacity - q.queue.length : Nat)

private theorem push_accounts (q : ThreadSafeQueue α) (item : α) {reply : Except Exn (Reply α)}
    (leaves : (monitor.body q (.push item)).2 = some reply) (c : Condition) :
    monitor.notifies q (.push item) c = .all ∨
      available c (monitor.body q (.push item)).1 +
          (if monitor.condition (.push item) = some c then 1 else 0) ≤
        available c q + (if monitor.notifies q (.push item) c = .one then 1 else 0) := by
  right
  rcases q.push_cases item with ⟨ran, -⟩ | ⟨ran, closed⟩ | ⟨ran, opened, room⟩
  · simp [monitor, Call.section, ran, Outcome.map, Outcome.reply?] at leaves
  · simp [monitor, Call.section, ran, available, closed]
  · cases c with
    | notEmpty =>
      simp [monitor, Call.section, ran, Outcome.map, Call.notifies, Call.condition, available, opened]
    | notFull =>
      have place_taken : q.capacity - (q.queue.length + 1) + 1 ≤ q.capacity - q.queue.length := by
        omega
      simp only [monitor, Call.section, ran, Outcome.map, Call.notifies, Call.condition, available,
        opened, List.length_append, List.length_singleton, Bool.false_eq_true, if_true, if_false,
        reduceCtorEq, add_zero]
      exact_mod_cast place_taken

private theorem pop_accounts (q : ThreadSafeQueue α) {reply : Except Exn (Reply α)}
    (leaves : (monitor.body q .pop).2 = some reply) (c : Condition) :
    monitor.notifies q .pop c = .all ∨
      available c (monitor.body q .pop).1 + (if monitor.condition (.pop (α := α)) = some c then 1 else 0) ≤
        available c q + (if monitor.notifies q .pop c = .one then 1 else 0) := by
  right
  rcases q.pop_cases with ⟨ran, -⟩ | ⟨ran, closed, -⟩ | ⟨item, rest, ran, contents⟩
  · simp [monitor, Call.section, ran, Outcome.map, Outcome.reply?] at leaves
  · simp [monitor, Call.section, ran, available, closed]
  · cases closed : q.closed with
    | true => simp [monitor, Call.section, ran, available, closed]
    | false =>
      cases c with
      | notEmpty =>
        simp [monitor, Call.section, ran, Outcome.map, Call.notifies, Call.condition, available,
          closed, contents]
      | notFull =>
        have place_freed : q.capacity - rest.length ≤ q.capacity - (rest.length + 1) + 1 := by
          omega
        simp only [monitor, Call.section, ran, Outcome.map, Call.notifies, Call.condition, available,
          closed, contents, List.length_cons, Bool.false_eq_true, if_true, if_false, reduceCtorEq,
          Option.some.injEq, add_zero]
        exact_mod_cast place_freed

private theorem popBatch_accounts (q : ThreadSafeQueue α) (max : Nat)
    {reply : Except Exn (Reply α)} (leaves : (monitor.body q (.popBatch max)).2 = some reply)
    (c : Condition) :
    monitor.notifies q (.popBatch max) c = .all ∨
      available c (monitor.body q (.popBatch max)).1 +
          (if monitor.condition (.popBatch (α := α) max) = some c then 1 else 0) ≤
        available c q + (if monitor.notifies q (.popBatch max) c = .one then 1 else 0) := by
  rcases q.popBatch_cases max with ⟨rfl, exn, ran⟩ | ⟨ran, -⟩ | ⟨ran, closed, -⟩ |
    ⟨batch, rest, ran, contents, nonempty, -⟩
  · right
    simp [monitor, Call.section, ran, Outcome.map, Call.notifies, Call.condition]
  · simp [monitor, Call.section, ran, Outcome.map, Outcome.reply?] at leaves
  · right
    simp [monitor, Call.section, ran, available, closed]
  · obtain ⟨item, items, rfl⟩ := List.exists_cons_of_ne_nil nonempty
    cases c with
    | notFull =>
      left
      simp [monitor, Call.section, ran, Outcome.map, Call.notifies]
    | notEmpty =>
      right
      cases closed : q.closed with
      | true => simp [monitor, Call.section, ran, available, closed]
      | false =>
        have taken : rest.length + 1 ≤ q.queue.length := by
          rw [contents, List.length_append, List.length_cons]
          omega
        simp only [monitor, Call.section, ran, Outcome.map, Call.notifies, available, closed,
          Bool.false_eq_true, if_false, reduceCtorEq, add_zero]
        by_cases zero : max = 0
        · simp only [Call.condition, zero, if_true, reduceCtorEq, if_false, add_zero]
          exact_mod_cast (Nat.le_succ _).trans taken
        · simp only [Call.condition, zero, if_true, if_false]
          exact_mod_cast taken

/-- Every operation notifies for what it makes available. -/
theorem monitor_accounts : (monitor (α := α)).Accounts available where
  waits q call waits := by
    cases call with
    | push item =>
      rcases q.push_cases item with ⟨ran, opened, full⟩ | ⟨ran, -⟩ | ⟨ran, -⟩
      · exact ⟨by simp [monitor, Call.section, ran], .notFull, rfl, by simp [available, opened, full]⟩
      all_goals simp [monitor, Call.section, ran, Outcome.map, Outcome.reply?] at waits
    | pop =>
      rcases q.pop_cases with ⟨ran, opened, empty⟩ | ⟨ran, -⟩ | ⟨item, rest, ran, -⟩
      · exact ⟨by simp [monitor, Call.section, ran], .notEmpty, rfl, by simp [available, opened, empty]⟩
      all_goals simp [monitor, Call.section, ran, Outcome.map, Outcome.reply?] at waits
    | popBatch max =>
      rcases q.popBatch_cases max with ⟨-, exn, ran⟩ | ⟨ran, opened, empty⟩ | ⟨ran, -⟩ |
        ⟨batch, rest, ran, -⟩
      case inr.inl =>
        refine ⟨by simp [monitor, Call.section, ran], .notEmpty, ?_, by simp [available, opened, empty]⟩
        have positive : max ≠ 0 := by
          rintro rfl
          simp [popBatch] at ran
        simp [monitor, Call.condition, positive]
      all_goals simp [monitor, Call.section, ran, Outcome.map, Outcome.reply?] at waits
    | close => simp [monitor, Call.section, Outcome.reply?] at waits
  leaves q call reply leaves c := by
    cases call with
    | push item => exact push_accounts q item leaves c
    | pop => exact pop_accounts q leaves c
    | popBatch max => exact popBatch_accounts q max leaves c
    | close => exact Or.inl rfl

/-! ### The monitor runs the queue's operations -/

/-- The queue and the calls in progress, whoever sleeps and whoever holds the lock. -/
def systemOf (s : Monitor.State τ (ThreadSafeQueue α) (Call α)) : System τ α where
  queue := s.shared
  calls thread := (s.phase thread).call?

/-- The outcome of a section, from the reply it gave or did not give. -/
def outcomeOf : Option (Except Exn (Reply α)) → Outcome (Reply α)
  | none => .waits
  | some (.ok result) => .returned result
  | some (.error exn) => .threw exn

@[simp] theorem outcomeOf_reply? (outcome : Outcome (Reply α)) : outcomeOf outcome.reply? = outcome := by
  cases outcome with
  | waits => rfl
  | returned result => rfl
  | threw exn => rfl

/-- Taking the lock and waking up change nothing for the queue. -/
def eventsOf : Monitor.Event τ (Call α) (Except Exn (Reply α)) → List (Event τ α)
  | .called thread call => [.call thread call]
  | .ran thread call reply => [.ran thread call (outcomeOf reply)]
  | .acquired _ | .wokeUp _ => []

section Refinement

variable [DecidableEq τ]

private theorem systemOf_update (shared : ThreadSafeQueue α) (holder : Option τ)
    (phase : τ → Monitor.Phase (Call α)) (thread : τ) (now : Monitor.Phase (Call α)) :
    systemOf ⟨shared, holder, Function.update phase thread now⟩ =
      ⟨shared, Function.update (fun t => (phase t).call?) thread now.call?⟩ :=
  congrArg (System.mk shared) (Function.comp_update Monitor.Phase.call? phase thread now)

private theorem update_current {calls : τ → Option (Call α)} {thread : τ} {call : Call α}
    (current : calls thread = some call) : Function.update calls thread (some call) = calls := by
  rw [← current, Function.update_eq_self]

/-- A step of the monitor is a step of the queue, or none. -/
theorem step_refines {s t : Monitor.State τ (ThreadSafeQueue α) (Call α)}
    {event : Monitor.Event τ (Call α) (Except Exn (Reply α))} (step : monitor.Step s event t) :
    Run System.Step (systemOf s) (eventsOf event) (systemOf t) := by
  cases step with
  | calls thread call outside =>
    rw [systemOf_update]
    exact Run.single (System.Step.call (systemOf s) thread call (by simp [systemOf, outside]))
  | acquires thread call free contends => rfl
  | runs thread call phase holds inside wakes =>
    have current : (systemOf s).calls thread = some call := Monitor.Phase.call?_of_running inside
    have step : System.Step (systemOf s) (.ran thread call (call.section s.shared).2)
        ⟨(call.section s.shared).1, if (call.section s.shared).2.isWaiting then (systemOf s).calls
          else Function.update (systemOf s).calls thread none⟩ := .ran _ thread call current
    have same : (fun t => (phase t).call?) = (systemOf s).calls := funext wakes.call?_eq
    rw [systemOf_update, same]
    simp only [monitor, eventsOf, outcomeOf_reply?]
    refine Run.single ?_
    cases ending : (call.section s.shared).2 with
    | waits =>
      simpa [ending, Outcome.reply?, Outcome.isWaiting, Monitor.Phase.after,
        update_current current] using step
    | returned result =>
      simpa [ending, Outcome.reply?, Outcome.isWaiting, Monitor.Phase.after] using step
    | threw exn =>
      simpa [ending, Outcome.reply?, Outcome.isWaiting, Monitor.Phase.after] using step
  | wakesUp thread call asleep =>
    have current : (systemOf s).calls thread = some call := by simp [systemOf, asleep]
    rw [systemOf_update, Monitor.Phase.call?_notified]
    exact congrArg (System.mk s.shared) (update_current current).symm

/-- The runs of the monitor are runs of the queue. -/
theorem run_refines {capacity : Nat} {trace : List (Monitor.Event τ (Call α) (Except Exn (Reply α)))}
    {s : Monitor.State τ (ThreadSafeQueue α) (Call α)}
    (run : Run monitor.Step { shared := { capacity } } trace s) :
    Run System.Step (System.initial capacity) (trace.flatMap eventsOf) (systemOf s) := by
  have start : Run System.Step (System.initial (τ := τ) (α := α) capacity) []
      (systemOf { shared := { capacity } }) := rfl
  refine Run.invariant (fun trace s => Run System.Step (System.initial capacity)
    (trace.flatMap eventsOf) (systemOf s)) start ?_ run
  intro trace s event t earlier step
  rw [List.flatMap_append, List.flatMap_singleton]
  exact run_append.mpr ⟨systemOf s, earlier, step_refines step⟩

/-- No wakeup is lost. In every reachable state in which no thread is notified, consumers sleep
only on an open, empty queue and producers only on an open, full one; so a queue with room for
anything never has both asleep. -/
theorem no_lost_wakeup (capacity : Nat)
    (trace : List (Monitor.Event τ (Call α) (Except Exn (Reply α))))
    (s : Monitor.State τ (ThreadSafeQueue α) (Call α))
    (run : Run monitor.Step { shared := { capacity } } trace s)
    (quiet : ∀ thread call, s.phase thread ≠ .notified call) :
    (∀ consumer, (s.phase consumer = .asleep .pop ∨ ∃ max, s.phase consumer = .asleep (.popBatch max)) →
      s.shared.queue = [] ∧ s.shared.closed = false) ∧
    (∀ producer item, s.phase producer = .asleep (.push item) →
      s.shared.queue.length = capacity ∧ s.shared.closed = false) ∧
    (0 < capacity → ¬ ((∃ consumer, s.phase consumer = .asleep .pop ∨
        ∃ max, s.phase consumer = .asleep (.popBatch max)) ∧
      ∃ producer item, s.phase producer = .asleep (.push item))) := by
  have nothing_left {c : Condition} {t : τ} (sleeps : monitor.SleepsOn s.phase c t) :
      available c s.shared = 0 :=
    Monitor.available_eq_zero monitor_accounts run sleeps fun u ⟨call, _, notified⟩ =>
      quiet u call notified
  have consumers : ∀ consumer, (s.phase consumer = .asleep .pop ∨
      ∃ max, s.phase consumer = .asleep (.popBatch max)) →
      s.shared.queue = [] ∧ s.shared.closed = false := by
    intro consumer asleep
    have sleeps : monitor.SleepsOn s.phase .notEmpty consumer := by
      rcases asleep with single | ⟨max, batch⟩
      · exact ⟨.pop, rfl, single⟩
      · obtain ⟨c, on⟩ := Monitor.asleep_condition monitor_accounts run batch
        refine ⟨.popBatch max, ?_, batch⟩
        simp only [monitor, Call.condition] at on ⊢
        split at on
        · cases on
        next positive => rw [if_neg positive]
    have none_left := nothing_left sleeps
    simp only [available] at none_left
    split at none_left
    · cases none_left
    next opened => exact ⟨by simpa using none_left, by simpa using opened⟩
  have producers : ∀ producer item, s.phase producer = .asleep (.push item) →
      s.shared.queue.length = capacity ∧ s.shared.closed = false := by
    intro producer item asleep
    have none_left := nothing_left (c := .notFull) ⟨.push item, rfl, asleep⟩
    have fifo := run_fifo (run_refines run)
    have bounded : s.shared.queue.length ≤ capacity := fifo.bounded
    have capacity_eq : s.shared.capacity = capacity := fifo.capacity_eq
    simp only [available] at none_left
    split at none_left
    · cases none_left
    next opened =>
      rw [Nat.cast_eq_zero, capacity_eq] at none_left
      exact ⟨by omega, by simpa using opened⟩
  refine ⟨consumers, producers, ?_⟩
  rintro room ⟨⟨consumer, waits⟩, producer, item, blocked⟩
  have full := (producers producer item blocked).1
  rw [(consumers consumer waits).1, List.length_nil] at full
  omega

end Refinement

/-- A consumer that comes first goes to sleep. -/
theorem no_lost_wakeup_consumer :
    ∃ s : Monitor.State Nat (ThreadSafeQueue Nat) (Call Nat),
      Run monitor.Step { shared := { capacity := 1 } }
        [.called 1 .pop, .acquired 1, .ran 1 .pop none] s ∧
      s.phase 1 = .asleep .pop ∧ s.shared.queue = [] ∧ s.shared.closed = false := by
  have nobody : ∀ c, (monitor (α := Nat)).notifies { capacity := 1 } .pop c = .nobody := by
    intro c
    cases c <;> rfl
  have run : Run monitor.Step { shared := { capacity := 1 } }
      [.called 1 .pop, .acquired 1, .ran 1 .pop none]
      (⟨{ capacity := 1 }, none, fun t => if t = 1 then .asleep .pop else .outside⟩ :
        Monitor.State Nat (ThreadSafeQueue Nat) (Call Nat)) := by
    refine ⟨_, .calls _ 1 Call.pop rfl, _, .acquires _ 1 Call.pop rfl rfl, _,
      .runs _ 1 Call.pop _ rfl rfl (.of_nobody nobody _), ?_⟩
    refine congrArg (Monitor.State.mk _ _) (funext fun t => ?_)
    by_cases same : t = 1
    · simp [same, monitor, Call.section, pop, Outcome.map, Outcome.reply?, Monitor.Phase.after]
    · simp [same]
  refine ⟨_, run, rfl, (no_lost_wakeup 1 _ _ run ?_).1 1 (Or.inl rfl)⟩
  intro t call
  by_cases same : t = 1
  · simp [same]
  · simp [same]

end ThreadSafeQueue
end Ais
