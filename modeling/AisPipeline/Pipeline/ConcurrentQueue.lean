import AisPipeline.Cpp.Text
import AisPipeline.Lib.Transition

/-!
# The bounded queue between the threads

Each operation of `ThreadSafeQueue` is the body it runs while it holds the
lock, from the wait's predicate to the return or to going to sleep. A sleeping
thread may run that body again at any time, which covers every wake-up.
-/
namespace Ais

open Cpp

/-- `ThreadSafeQueue`, between two sections that hold the lock. -/
structure ThreadSafeQueue (α : Type*) where
  capacity : Nat
  queue : List α := []
  closed : Bool := false

/-- How a section that holds the lock ends. -/
inductive Outcome (β : Type*) where
  | waits
  | returned (result : β)
  | threw (exn : Exn)

namespace Outcome

variable {β γ : Type*}

def map (f : β → γ) : Outcome β → Outcome γ
  | .waits => .waits
  | .returned result => .returned (f result)
  | .threw exn => .threw exn

/-- The section left its thread waiting inside the call. -/
def isWaiting : Outcome β → Bool
  | .waits => true
  | _ => false

end Outcome

namespace ThreadSafeQueue

variable {α : Type*}

def closedExn : Exn := .runtimeError "ThreadSafeQueue is closed"

def push (q : ThreadSafeQueue α) (item : α) : ThreadSafeQueue α × Outcome Unit :=
  if q.queue.length < q.capacity ∨ q.closed then
    -- the wait is over either way; only an open queue takes the item
    if q.closed then (q, .threw closedExn)
    else ({ q with queue := q.queue ++ [item] }, .returned ())
  else (q, .waits)

def pop (q : ThreadSafeQueue α) : ThreadSafeQueue α × Outcome (Option α) :=
  if q.queue ≠ [] ∨ q.closed then
    match q.queue with
    -- closed and drained
    | [] => (q, .returned none)
    | item :: rest => ({ q with queue := rest }, .returned (some item))
  else (q, .waits)

/-- The loop of `pop_batch`: what stays queued, and the batch. -/
def batchLoop (max : Nat) : List α → List α → List α × List α
  | [], batch => ([], batch)
  | item :: rest, batch =>
    if batch.length < max then batchLoop max rest (batch ++ [item]) else (item :: rest, batch)

/-- `pop_batch`; it refuses `max = 0` before it takes the lock. -/
def popBatch (q : ThreadSafeQueue α) (max : Nat) : ThreadSafeQueue α × Outcome (List α) :=
  if max = 0 then (q, .threw (.invalidArgument "pop_batch max must be at least 1"))
  else if q.queue ≠ [] ∨ q.closed then
    let (rest, batch) := batchLoop max q.queue []
    ({ q with queue := rest }, .returned batch)
  else (q, .waits)

def close (q : ThreadSafeQueue α) : ThreadSafeQueue α := { q with closed := true }

theorem batchLoop_eq (max : Nat) (queue batch : List α) :
    batchLoop max queue batch =
      (queue.drop (max - batch.length), batch ++ queue.take (max - batch.length)) := by
  induction queue generalizing batch with
  | nil => simp [batchLoop]
  | cons item rest ih =>
    rw [batchLoop]
    split
    next room =>
      rw [ih, List.length_append, List.length_singleton,
        show max - batch.length = max - (batch.length + 1) + 1 by omega]
      simp
    -- a full batch leaves the rest of the queue alone
    next full =>
      rw [show max - batch.length = 0 by omega]
      simp

/-- What `push` does: wait for room, throw on a closed queue, or append. -/
theorem push_cases (q : ThreadSafeQueue α) (item : α) :
    (q.push item = (q, .waits) ∧ q.closed = false ∧ q.capacity ≤ q.queue.length) ∨
    (q.push item = (q, .threw closedExn) ∧ q.closed = true) ∨
    (q.push item = ({ q with queue := q.queue ++ [item] }, .returned ()) ∧ q.closed = false ∧
      q.queue.length < q.capacity) := by
  cases open_or_closed : q.closed with
  | true => exact Or.inr (Or.inl ⟨by simp [push, open_or_closed], rfl⟩)
  | false =>
    by_cases room : q.queue.length < q.capacity
    · exact Or.inr (Or.inr ⟨by simp [push, open_or_closed, room], rfl, room⟩)
    · exact Or.inl ⟨by simp [push, open_or_closed, room], rfl, not_lt.mp room⟩

/-- What `pop` does: wait for an item, report the end of a closed queue, or take the front. -/
theorem pop_cases (q : ThreadSafeQueue α) :
    (q.pop = (q, .waits) ∧ q.closed = false ∧ q.queue = []) ∨
    (q.pop = (q, .returned none) ∧ q.closed = true ∧ q.queue = []) ∨
    ∃ item rest, q.pop = ({ q with queue := rest }, .returned (some item)) ∧
      q.queue = item :: rest := by
  cases contents : q.queue with
  | nil =>
    cases open_or_closed : q.closed with
    | true => exact Or.inr (Or.inl ⟨by simp [pop, open_or_closed, contents], rfl, rfl⟩)
    | false => exact Or.inl ⟨by simp [pop, open_or_closed, contents], rfl, rfl⟩
  | cons item rest => exact Or.inr (Or.inr ⟨item, rest, by simp [pop, contents], rfl⟩)

/-- What `pop_batch` does; a batch is empty only at the end of a closed queue. -/
theorem popBatch_cases (q : ThreadSafeQueue α) (max : Nat) :
    (max = 0 ∧ ∃ exn, q.popBatch max = (q, .threw exn)) ∨
    (q.popBatch max = (q, .waits) ∧ q.closed = false ∧ q.queue = []) ∨
    (q.popBatch max = (q, .returned []) ∧ q.closed = true ∧ q.queue = []) ∨
    ∃ batch rest, q.popBatch max = ({ q with queue := rest }, .returned batch) ∧
      q.queue = batch ++ rest ∧ batch ≠ [] ∧ batch.length ≤ max := by
  by_cases zero : max = 0
  · exact Or.inl ⟨zero, _, by rw [popBatch, if_pos zero]⟩
  -- `max` is positive from here on, so a nonempty queue gives a nonempty batch
  refine Or.inr ?_
  cases contents : q.queue with
  | nil =>
    cases open_or_closed : q.closed with
    | true =>
      refine Or.inr (Or.inl ⟨?_, rfl, rfl⟩)
      rw [popBatch, if_neg zero, if_pos (Or.inr open_or_closed), contents, batchLoop, ← contents]
    | false => exact Or.inl ⟨by simp [popBatch, zero, open_or_closed, contents], rfl, rfl⟩
  | cons item rest =>
    refine Or.inr (Or.inr ⟨(item :: rest).take max, (item :: rest).drop max, ?_, ?_, ?_, ?_⟩)
    · simp [popBatch, zero, contents, batchLoop_eq]
    · rw [List.take_append_drop]
    · simp [zero]
    · exact List.length_take_le _ _

end ThreadSafeQueue

end Ais
