import AisPipeline.Pipeline.SqliteWriter

/-!
# The loop of the writer

`SqliteWriter::run` with its transaction object, its two clocks and every
database operation that can fail. SQLite is taken at its word: a statement that
fails changes nothing, a COMMIT that fails commits nothing, and both may leave
the transaction open or roll it back themselves.
-/
namespace Ais.WriterRun

open Cpp SqliteWriter Transition

/-! ### Clocks

Times and durations are in nanoseconds. -/

/-- `duration_cast<std::chrono::seconds>`. -/
def seconds (time : Int) : Int := time.tdiv 1000000000

def retention : Int := 24 * 60 * 60 * 1000000000

def pruneInterval : Int := 5 * 60 * 1000000000

/-- The cutoff of a prune at system time `now`. -/
def cutoff (now : Int) : Int := seconds (now - retention)

/-! ### The state of a run -/

/-- What is committed, and the working copy of the open transaction if there is one. -/
structure Connection where
  stored : Database
  transaction : Option Database := none

/-- What can fail. -/
inductive Operation where
  | beginImmediate
  | statement
  | commit
  | prune
  deriving DecidableEq, Repr

/-- Where `run` is. -/
inductive Control where
  | loop
  | popping
  | beginning (receivedAt : Int) (batch : List AisMessage)
  | writing (receivedAt : Int) (written rest : List AisMessage)
  | pruning
  /-- an exception is on its way out, and the destructor of `Transaction` is still to run -/
  | unwinding (failed : Operation)
  | returned
  | threw (failed : Operation)

structure State where
  connection : Connection
  /-- `Transaction::db_` is set: its destructor will roll back -/
  armed : Bool := false
  lastPrune : Int := 0
  control : Control := .loop

/-- The destructor of `Transaction`. ROLLBACK leaves no transaction open; its result is ignored. -/
def State.destroyTransaction (s : State) : State where
  connection := if s.armed then { s.connection with transaction := none } else s.connection
  armed := false
  lastPrune := s.lastPrune
  control := s.control

theorem State.stored_destroyTransaction (s : State) :
    s.destroyTransaction.connection.stored = s.connection.stored := by
  unfold destroyTransaction
  split
  · rfl
  · rfl

theorem State.idle_destroyTransaction {s : State} (idle : s.connection.transaction = none) :
    s.destroyTransaction.connection.transaction = none := by
  unfold destroyTransaction
  split
  · rfl
  · exact idle

/-- What a step shows. Times are readings of the clocks. -/
inductive Event where
  | silent
  | took (now : Int) (batch : List AisMessage)
  | committed (receivedAt : Int) (batch : List AisMessage)
  | kept (steady : Int)
  | pruned (steady now : Int)
  | failed (operation : Operation)

/-- Some chunks of a prune, all of them full. -/
inductive DeletesFullChunks (cutoff : Int) (limit : Nat) : PositionReports → PositionReports → Prop where
  | nothing (reports) : DeletesFullChunks cutoff limit reports reports
  | chunk (reports middle reports' deleted) :
      DeletesChunk cutoff limit reports middle deleted → deleted = limit →
      DeletesFullChunks cutoff limit middle reports' →
      DeletesFullChunks cutoff limit reports reports'

/-- A transaction after a failed operation. -/
def Connection.LeftBy (after before : Connection) : Prop :=
  after = before ∨ after = { before with transaction := none }

theorem Connection.LeftBy.stored {after before : Connection} (left : after.LeftBy before) :
    after.stored = before.stored := by
  rcases left with rfl | rfl
  · rfl
  · rfl

inductive Step : State → Event → State → Prop where
  | stops (s : State) (at_loop : s.control = .loop) : Step s .silent { s with control := .returned }
  | continues (s : State) (at_loop : s.control = .loop) :
      Step s .silent { s with control := .popping }
  -- `pop_batch` returns nothing once the queue is closed and drained
  | drains (s : State) (at_pop : s.control = .popping) :
      Step s .silent { s with control := .returned }
  | takes (s : State) (now : Int) (batch : List AisMessage) (at_pop : s.control = .popping)
      (some_left : batch ≠ []) :
      Step s (.took now batch) { s with control := .beginning (seconds now) batch }
  | begins (s : State) (receivedAt : Int) (batch : List AisMessage)
      (at_begin : s.control = .beginning receivedAt batch) (idle : s.connection.transaction = none) :
      Step s .silent { s with
        connection := { s.connection with transaction := some s.connection.stored }
        armed := true
        control := .writing receivedAt [] batch }
  -- the constructor of `Transaction` throws, so its destructor never runs
  | beginFails (s : State) (receivedAt : Int) (batch : List AisMessage)
      (at_begin : s.control = .beginning receivedAt batch) :
      Step s (.failed .beginImmediate) { s with control := .threw .beginImmediate }
  | writes (s : State) (receivedAt : Int) (message : AisMessage) (written rest : List AisMessage)
      (working : Database) (at_write : s.control = .writing receivedAt written (message :: rest))
      (open_ : s.connection.transaction = some working) :
      Step s .silent { s with
        connection := { s.connection with transaction := some (write working message receivedAt) }
        control := .writing receivedAt (written ++ [message]) rest }
  -- `step_once` resets the statement before it throws, so nothing is in the way of a ROLLBACK
  | statementFails (s : State) (receivedAt : Int) (message : AisMessage)
      (written rest : List AisMessage) (after : Connection)
      (at_write : s.control = .writing receivedAt written (message :: rest))
      (left : after.LeftBy s.connection) :
      Step s (.failed .statement) { s with
        connection := after
        control := .unwinding .statement }
  | commits (s : State) (receivedAt : Int) (written : List AisMessage) (working : Database)
      (at_commit : s.control = .writing receivedAt written [])
      (open_ : s.connection.transaction = some working) :
      Step s (.committed receivedAt written) { s with
        connection := { stored := working }
        armed := false
        control := .pruning }
  | commitFails (s : State) (receivedAt : Int) (written : List AisMessage) (after : Connection)
      (at_commit : s.control = .writing receivedAt written [])
      (left : after.LeftBy s.connection) :
      Step s (.failed .commit) { s with
        connection := after
        control := .unwinding .commit }
  -- the transaction object goes out of scope at the end of the loop body
  | keeps (s : State) (steady : Int) (at_check : s.control = .pruning)
      (recent : steady - s.lastPrune < pruneInterval) :
      Step s (.kept steady) { s.destroyTransaction with control := .loop }
  | prunes (s : State) (steady now : Int) (reports : PositionReports) (total : Nat)
      (at_check : s.control = .pruning) (due : pruneInterval ≤ steady - s.lastPrune)
      (idle : s.connection.transaction = none)
      (deleted : DeletesOlderThan (cutoff now) pruneChunkSize s.connection.stored.positionReports
        reports total) :
      Step s (.pruned steady now) { s.destroyTransaction with
        connection := { stored := { s.connection.stored with positionReports := reports } }
        lastPrune := steady
        control := .loop }
  | pruneFails (s : State) (steady now : Int) (reports : PositionReports)
      (at_check : s.control = .pruning) (due : pruneInterval ≤ steady - s.lastPrune)
      (idle : s.connection.transaction = none)
      (deleted : DeletesFullChunks (cutoff now) pruneChunkSize s.connection.stored.positionReports
        reports) :
      Step s (.failed .prune) { s with
        connection := { stored := { s.connection.stored with positionReports := reports } }
        control := .unwinding .prune }
  | unwinds (s : State) (failed : Operation) (at_throw : s.control = .unwinding failed) :
      Step s .silent { s.destroyTransaction with control := .threw failed }

/-- A writer about to enter `run`; `last_prune_` starts at the epoch of the steady clock. -/
def initial (db : Database) : State where
  connection := { stored := db }

/-! ### What a trace tells -/

def Event.taken? : Event → Option (Int × List AisMessage)
  | .took now batch => some (seconds now, batch)
  | .silent | .committed _ _ | .kept _ | .pruned _ _ | .failed _ => none

def Event.committed? : Event → Option (Int × List AisMessage)
  | .committed receivedAt batch => some (receivedAt, batch)
  | .silent | .took _ _ | .kept _ | .pruned _ _ | .failed _ => none

/-- The batches taken, with their timestamps. -/
def taken (trace : List Event) : List (Int × List AisMessage) := trace.filterMap Event.taken?

/-- The batches whose COMMIT succeeded. -/
def committed (trace : List Event) : List (Int × List AisMessage) :=
  trace.filterMap Event.committed?

@[simp] theorem taken_append (trace : List Event) (event : Event) :
    taken (trace ++ [event]) = taken trace ++ event.taken?.toList := by
  cases shown : event.taken? <;> simp [taken, shown]

@[simp] theorem committed_append (trace : List Event) (event : Event) :
    committed (trace ++ [event]) = committed trace ++ event.committed?.toList := by
  cases shown : event.committed? <;> simp [committed, shown]

/-- All messages of a batch, in order. -/
def writeBatch (db : Database) (batch : Int × List AisMessage) : Database :=
  batch.2.foldl (fun db message => write db message batch.1) db

def writeBatches (db : Database) (batches : List (Int × List AisMessage)) : Database :=
  batches.foldl writeBatch db

theorem writeBatch_append (db : Database) (receivedAt : Int) (written : List AisMessage)
    (message : AisMessage) :
    writeBatch db (receivedAt, written ++ [message]) =
      write (writeBatch db (receivedAt, written)) message receivedAt := by
  simp [writeBatch]

@[simp] theorem writeBatches_append (db : Database) (batches more : List (Int × List AisMessage)) :
    writeBatches db (batches ++ more) = writeBatches (writeBatches db batches) more :=
  List.foldl_append

/-! ### Every list of batches can be run -/

private theorem run_writes (stored working : Database) (lastPrune receivedAt : Int)
    (written rest unwritten : List AisMessage) :
    Run Step ⟨⟨stored, some working⟩, true, lastPrune, .writing receivedAt written (rest ++ unwritten)⟩
      (List.replicate rest.length .silent)
      ⟨⟨stored, some (writeBatch working (receivedAt, rest))⟩, true, lastPrune,
        .writing receivedAt (written ++ rest) unwritten⟩ := by
  induction rest generalizing working written with
  | nil =>
    rw [List.append_nil]
    rfl
  | cons message rest ih =>
    have later := ih (write working message receivedAt) (written ++ [message])
    rw [List.append_assoc, List.singleton_append] at later
    exact ⟨_, .writes _ receivedAt message written _ working rfl rfl, later⟩

/-- From the loop test into the middle of a batch. -/
theorem run_into (stored : Database) (lastPrune receivedAt : Int) (written rest : List AisMessage)
    (some_left : written ++ rest ≠ []) :
    ∃ trace, Run Step ⟨⟨stored, none⟩, false, lastPrune, .loop⟩ trace
        ⟨⟨stored, some (writeBatch stored (receivedAt, written))⟩, true, lastPrune,
          .writing receivedAt written rest⟩ ∧
      taken trace = [(receivedAt, written ++ rest)] ∧ committed trace = [] := by
  have now : seconds (receivedAt * 1000000000) = receivedAt :=
    Int.mul_tdiv_cancel receivedAt (by decide)
  have begun : Run Step ⟨⟨stored, none⟩, false, lastPrune, .loop⟩
      [.silent, .took (receivedAt * 1000000000) (written ++ rest), .silent]
      ⟨⟨stored, some stored⟩, true, lastPrune, .writing receivedAt [] (written ++ rest)⟩ := by
    refine ⟨_, .continues _ rfl, _, .takes _ (receivedAt * 1000000000) _ rfl some_left, _,
      .begins _ (seconds (receivedAt * 1000000000)) _ rfl rfl, ?_⟩
    rw [now]
    rfl
  refine ⟨_, run_append.mpr ⟨_, begun, run_writes stored stored lastPrune receivedAt [] written rest⟩,
    ?_, ?_⟩
  · have shown : taken [.silent, .took (receivedAt * 1000000000) (written ++ rest), .silent] =
        [(seconds (receivedAt * 1000000000), written ++ rest)] := rfl
    have quiet : taken (List.replicate written.length .silent) = [] := by
      simp [taken, Event.taken?]
    rw [taken, List.filterMap_append, ← taken, ← taken, shown, quiet, now, List.append_nil]
  · have quiet : committed (List.replicate written.length .silent) = [] := by
      simp [committed, Event.committed?]
    rw [committed, List.filterMap_append, ← committed, ← committed, quiet]
    rfl

private theorem run_batch (stored : Database) (lastPrune : Int) (batch : Int × List AisMessage)
    (some_left : batch.2 ≠ []) :
    ∃ trace, Run Step ⟨⟨stored, none⟩, false, lastPrune, .loop⟩ trace
        ⟨⟨writeBatch stored batch, none⟩, false, lastPrune, .loop⟩ ∧ committed trace = [batch] := by
  obtain ⟨receivedAt, messages⟩ := batch
  obtain ⟨trace, run, -, nothing_yet⟩ := run_into stored lastPrune receivedAt messages []
    (by simpa using some_left)
  have recent : lastPrune - lastPrune < pruneInterval := by
    rw [Int.sub_self]
    decide
  refine ⟨trace ++ [.committed receivedAt messages, .kept lastPrune], run_append.mpr ⟨_, run,
    _, .commits _ receivedAt messages _ rfl rfl, _, .keeps _ lastPrune rfl recent, rfl⟩, ?_⟩
  simp only [committed, List.filterMap_append] at nothing_yet ⊢
  rw [nothing_yet]
  rfl

/-- Any non-empty batches at any times. -/
theorem exists_run (db : Database) (batches : List (Int × List AisMessage))
    (some_left : ∀ batch ∈ batches, batch.2 ≠ []) :
    ∃ trace, Run Step (initial db) trace (initial (writeBatches db batches)) ∧
      committed trace = batches := by
  induction batches using List.reverseRecOn with
  | nil => exact ⟨[], rfl, rfl⟩
  | append_singleton batches batch ih =>
    obtain ⟨trace, run, earlier⟩ := ih fun b member => some_left b (List.mem_append_left _ member)
    obtain ⟨more, later_run, later⟩ := run_batch (writeBatches db batches) 0 batch
      (some_left batch (by simp))
    refine ⟨trace ++ more, run_append.mpr ⟨_, run, ?_⟩, ?_⟩
    · rw [writeBatches_append]
      exact later_run
    · simp only [committed, List.filterMap_append] at earlier later ⊢
      rw [earlier, later]

end Ais.WriterRun
