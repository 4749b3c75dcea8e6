import AisPipeline.Pipeline.ConcurrentQueue

/-!
# The queue as a bounded FIFO

Any number of threads call the operations of one queue, in any interleaving of
the sections that hold the lock. What was pushed and what was handed out is
read off the trace.
-/
namespace Ais.ThreadSafeQueue

open Cpp Transition

variable {τ α : Type*}

/-- A call of one of the queue's operations. -/
inductive Call (α : Type*) where
  | push (item : α)
  | pop
  | popBatch (max : Nat)
  | close

/-- What a call returns. -/
inductive Reply (α : Type*) where
  | done
  | item (item : Option α)
  | batch (items : List α)

/-- One section of a call, under the lock. -/
def Call.section (q : ThreadSafeQueue α) : Call α → ThreadSafeQueue α × Outcome (Reply α)
  | .push item => ((q.push item).1, Outcome.map (fun _ => .done) (q.push item).2)
  | .pop => (q.pop.1, Outcome.map .item q.pop.2)
  | .popBatch max => ((q.popBatch max).1, Outcome.map .batch (q.popBatch max).2)
  | .close => (q.close, .returned .done)

/-- The queue and the calls in progress, at most one a thread. -/
structure System (τ α : Type*) where
  queue : ThreadSafeQueue α
  calls : τ → Option (Call α)

/-- A thread calls an operation, or runs one section of the call it is in. -/
inductive Event (τ α : Type*) where
  | call (thread : τ) (call : Call α)
  | ran (thread : τ) (call : Call α) (outcome : Outcome (Reply α))

inductive System.Step [DecidableEq τ] : System τ α → Event τ α → System τ α → Prop where
  | call (s : System τ α) (thread : τ) (call : Call α) (outside : s.calls thread = none) :
      Step s (.call thread call)
        { s with calls := Function.update s.calls thread (some call) }
  | ran (s : System τ α) (thread : τ) (call : Call α) (inside : s.calls thread = some call) :
      Step s (.ran thread call (call.section s.queue).2) {
        queue := (call.section s.queue).1
        calls := if (call.section s.queue).2.isWaiting then s.calls
          else Function.update s.calls thread none }

/-- A new queue, with every thread outside it. -/
def System.initial (capacity : Nat) : System τ α where
  queue := { capacity := capacity }
  calls := fun _ => none

/-- The items pushed successfully, in push order. -/
def Event.pushed : Event τ α → List α
  | .ran _ (.push item) (.returned _) => [item]
  | _ => []

/-- The items handed out, in the order of the sections that took them. -/
def Event.handedOut : Event τ α → List α
  | .ran _ _ (.returned (.item (some item))) => [item]
  | .ran _ _ (.returned (.batch items)) => items
  | _ => []

/-- The call reported the end of the queue. -/
def Event.ReportsEnd : Event τ α → Prop
  | .ran _ _ (.returned (.item none)) => True
  | .ran _ _ (.returned (.batch [])) => True
  | _ => False

/-- What one section does to the contents, the capacity and the end of the queue. -/
theorem section_spec (q : ThreadSafeQueue α) (thread : τ) (call : Call α) :
    let event := Event.ran thread call (call.section q).2
    let after := (call.section q).1
    event.handedOut ++ after.queue = q.queue ++ event.pushed ∧
      after.capacity = q.capacity ∧
      (after.queue.length ≤ q.queue.length ∨ after.queue.length ≤ q.capacity) ∧
      (q.closed = true → after.closed = true ∧ event.pushed = [] ∧
        ∀ item, call = .push item → (call.section q).2 = .threw closedExn) ∧
      (event.ReportsEnd → q.closed = true ∧ q.queue = []) := by
  cases call with
  | push item =>
    rcases q.push_cases item with ⟨ran, opened, -⟩ | ⟨ran, closed⟩ | ⟨ran, opened, room⟩
    · simp [Call.section, ran, Outcome.map, Event.handedOut, Event.pushed, Event.ReportsEnd, opened]
    · simp [Call.section, ran, Outcome.map, Event.handedOut, Event.pushed, Event.ReportsEnd, closed]
    · simp [Call.section, ran, Outcome.map, Event.handedOut, Event.pushed, Event.ReportsEnd, opened]
      omega
  | pop =>
    rcases q.pop_cases with ⟨ran, opened, -⟩ | ⟨ran, closed, empty⟩ | ⟨item, rest, ran, contents⟩
    · simp [Call.section, ran, Outcome.map, Event.handedOut, Event.pushed, Event.ReportsEnd, opened]
    · simp [Call.section, ran, Outcome.map, Event.handedOut, Event.pushed, closed, empty]
    · simp [Call.section, ran, Outcome.map, Event.handedOut, Event.pushed, Event.ReportsEnd,
        contents]
  | popBatch max =>
    rcases q.popBatch_cases max with ⟨-, exn, ran⟩ | ⟨ran, opened, -⟩ | ⟨ran, closed, empty⟩ |
      ⟨batch, rest, ran, contents, nonempty, -⟩
    · simp [Call.section, ran, Outcome.map, Event.handedOut, Event.pushed, Event.ReportsEnd]
    · simp [Call.section, ran, Outcome.map, Event.handedOut, Event.pushed, Event.ReportsEnd, opened]
    · simp [Call.section, ran, Outcome.map, Event.handedOut, Event.pushed, closed, empty]
    -- the batch is nonempty, so it is not taken for the end
    · have no_end : ¬ Event.ReportsEnd
          (Event.ran thread (.popBatch max) (.returned (.batch batch))) := by
        cases batch with
        | nil => exact absurd rfl nonempty
        | cons item items => exact id
      simp [Call.section, ran, Outcome.map, Event.handedOut, Event.pushed, no_end, contents]
  | close =>
    simp [Call.section, close, Event.handedOut, Event.pushed, Event.ReportsEnd]

/-! ### Runs -/

/-- What every run keeps: nothing is lost, repeated or reordered, and the queue is bounded. -/
structure Fifo (capacity : Nat) (trace : List (Event τ α)) (s : System τ α) : Prop where
  order : trace.flatMap Event.pushed = trace.flatMap Event.handedOut ++ s.queue.queue
  bounded : s.queue.queue.length ≤ capacity
  capacity_eq : s.queue.capacity = capacity

/-- What every run from a closed queue keeps: nothing is added, and every push throws. -/
structure Shut (trace : List (Event τ α)) (s : System τ α) : Prop where
  closed : s.queue.closed = true
  nothing_added : trace.flatMap Event.pushed = []
  pushes_throw : ∀ thread item outcome, .ran thread (.push item) outcome ∈ trace →
    outcome = .threw closedExn

variable [DecidableEq τ]

theorem step_fifo {capacity : Nat} {trace : List (Event τ α)} {s t : System τ α} {event : Event τ α}
    (inv : Fifo capacity trace s) (step : System.Step s event t) :
    Fifo capacity (trace ++ [event]) t := by
  cases step with
  | call thread call outside =>
    refine ⟨?_, inv.bounded, inv.capacity_eq⟩
    simpa [Event.pushed, Event.handedOut] using inv.order
  | ran thread call inside =>
    obtain ⟨contents, size, room, -, -⟩ := section_spec s.queue thread call
    refine ⟨?_, ?_, size.trans inv.capacity_eq⟩
    · rw [List.flatMap_append, List.flatMap_append, List.flatMap_singleton, List.flatMap_singleton,
        inv.order, List.append_assoc, List.append_assoc, ← contents]
    -- a push adds only below the bound, every other section adds nothing
    · rcases room with shorter | fits
      · exact shorter.trans inv.bounded
      · exact inv.capacity_eq ▸ fits

theorem step_shut {trace : List (Event τ α)} {s t : System τ α} {event : Event τ α}
    (inv : Shut trace s) (step : System.Step s event t) : Shut (trace ++ [event]) t := by
  cases step with
  | call thread call outside =>
    refine ⟨inv.closed, ?_, ?_⟩
    · simpa [Event.pushed] using inv.nothing_added
    · intro pusher item outcome member
      exact inv.pushes_throw pusher item outcome (by simpa using member)
  | ran thread call inside =>
    obtain ⟨-, -, -, shut, -⟩ := section_spec s.queue thread call
    obtain ⟨still, none_added, throws⟩ := shut inv.closed
    refine ⟨still, ?_, ?_⟩
    · rw [List.flatMap_append, inv.nothing_added, List.flatMap_singleton, none_added]
      rfl
    · intro pusher item outcome member
      rcases List.mem_append.mp member with earlier | now
      · exact inv.pushes_throw pusher item outcome earlier
      · obtain ⟨rfl, rfl, rfl⟩ := Event.ran.inj (List.mem_singleton.mp now)
        exact throws item rfl

theorem run_fifo {capacity : Nat} {trace : List (Event τ α)} {s : System τ α}
    (run : Run System.Step (System.initial capacity) trace s) : Fifo capacity trace s :=
  Run.invariant (Fifo capacity) ⟨rfl, Nat.zero_le _, rfl⟩ step_fifo run

/-- `ThreadSafeQueue` is a bounded FIFO that drains after it is closed. In every reachable
state the items pushed are those handed out followed by the contents; the bound holds; a
call reports the end only when the queue is closed and everything pushed was handed out;
and after a `close` nothing is added and every section of a push throws. -/
theorem bounded_fifo (capacity : Nat) (trace : List (Event τ α)) (s : System τ α)
    (run : Run System.Step (System.initial capacity) trace s) :
    trace.flatMap Event.pushed = trace.flatMap Event.handedOut ++ s.queue.queue ∧
    s.queue.queue.length ≤ capacity ∧
    (∀ event t, System.Step s event t → event.ReportsEnd →
      s.queue.closed = true ∧ trace.flatMap Event.pushed = trace.flatMap Event.handedOut) ∧
    ∀ before closer outcome later, trace = before ++ .ran closer .close outcome :: later →
      later.flatMap Event.pushed = [] ∧
      ∀ thread item outcome, .ran thread (.push item) outcome ∈ later →
        outcome = .threw closedExn := by
  have fifo := run_fifo run
  refine ⟨fifo.order, fifo.bounded, ?_, ?_⟩
  · intro event t step ends
    cases step with
    | call thread call outside => exact ends.elim
    | ran thread call inside =>
      obtain ⟨-, -, -, -, drained⟩ := section_spec s.queue thread call
      obtain ⟨closed, empty⟩ := drained ends
      exact ⟨closed, by rw [fifo.order, empty, List.append_nil]⟩
  · rintro before closer outcome later rfl
    -- the run after the close is a run from a closed queue
    obtain ⟨middle, -, closed, step, rest⟩ := run_append.mp run
    have shut : Shut ([] : List (Event τ α)) closed := by
      cases step
      exact ⟨rfl, rfl, by simp⟩
    have after := Run.invariant Shut shut step_shut rest
    exact ⟨after.nothing_added, after.pushes_throw⟩

/-- Thread 1 fills a queue of one place, thread 2 closes it, thread 3 takes the item, and the
next push throws. -/
def drainTrace : List (Event Nat Nat) :=
  [.call 1 (.push 7), .ran 1 (.push 7) (.returned .done),
    .call 2 .close, .ran 2 .close (.returned .done),
    .call 3 .pop, .ran 3 .pop (.returned (.item (some 7))),
    .call 1 (.push 8), .ran 1 (.push 8) (.threw closedExn)]

theorem bounded_fifo_drain :
    drainTrace.flatMap Event.pushed = drainTrace.flatMap Event.handedOut := by
  have run : ∃ s : System Nat Nat, s.queue.queue = [] ∧
      Run System.Step (System.initial 1) drainTrace s :=
    ⟨_, rfl, _, .call _ 1 (.push 7) rfl, _, .ran _ 1 (.push 7) rfl, _, .call _ 2 .close rfl, _,
      .ran _ 2 .close rfl, _, .call _ 3 .pop rfl, _, .ran _ 3 .pop rfl, _,
      .call _ 1 (.push 8) rfl, _, .ran _ 1 (.push 8) rfl, rfl⟩
  obtain ⟨s, empty, run⟩ := run
  have order := (bounded_fifo 1 drainTrace s run).1
  rwa [empty, List.append_nil] at order

end Ais.ThreadSafeQueue
