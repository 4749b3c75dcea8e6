import AisPipeline.Pipeline.WriterRun
import AisPipeline.Properties.Pruning

/-!
# Batches are all or nothing

Along every run of the writer the committed tables are those of the batches
whose COMMIT succeeded, each applied once and in order, less what was pruned.
-/
namespace Ais.WriterRun

open Cpp SqliteWriter Transition

/-! ### The committed tables -/

def Event.apply (db : Database) : Event → Database
  | .committed receivedAt batch => writeBatch db (receivedAt, batch)
  | .pruned _ now => { db with positionReports := db.positionReports.prune (cutoff now) }
  | .silent | .took _ _ | .kept _ | .failed _ => db

/-- What the events of a trace make of a database: batches are written, old reports go. -/
def replay (db : Database) (trace : List Event) : Database := trace.foldl Event.apply db

@[simp] theorem replay_append (db : Database) (trace : List Event) (event : Event) :
    replay db (trace ++ [event]) = event.apply (replay db trace) := by
  simp [replay]

/-- The tables pruning leaves alone are the same. -/
structure SameButReports (a b : Database) : Prop where
  latestPositions : a.latestPositions = b.latestPositions
  shipStatic : a.shipStatic = b.shipStatic

theorem SameButReports.write {a b : Database} (same : SameButReports a b) (message : AisMessage)
    (receivedAt : Int) : SameButReports (write a message receivedAt) (write b message receivedAt) := by
  obtain ⟨latest, static⟩ := same
  cases message with
  | positionReport report =>
    exact ⟨by simp only [SqliteWriter.write, SqliteWriter.insert, Database.insertReport, latest], static⟩
  | staticVoyageData data =>
    exact ⟨latest, by simp only [SqliteWriter.write, upsertVoyage, upsertStatic, static]⟩
  | staticDataPartA data =>
    exact ⟨latest, by simp only [SqliteWriter.write, upsertPartA, upsertStatic, static]⟩
  | staticDataPartB data =>
    exact ⟨latest, by simp only [SqliteWriter.write, upsertPartB, upsertStatic, static]⟩

theorem SameButReports.writeBatch {a b : Database} (same : SameButReports a b)
    (batch : Int × List AisMessage) : SameButReports (writeBatch a batch) (writeBatch b batch) := by
  obtain ⟨receivedAt, messages⟩ := batch
  induction messages generalizing a b with
  | nil => exact same
  | cons message messages ih => exact ih (same.write message receivedAt)

/-- Apart from the reports, pruning makes no difference. -/
theorem replay_sameButReports (db : Database) (trace : List Event) :
    SameButReports (replay db trace) (writeBatches db (committed trace)) := by
  induction trace using List.reverseRecOn with
  | nil => exact ⟨rfl, rfl⟩
  | append_singleton trace event ih =>
    rw [replay_append]
    rw [committed_append, writeBatches_append]
    cases event with
    | committed receivedAt batch => exact ih.writeBatch (receivedAt, batch)
    | pruned steady now => exact ⟨ih.latestPositions, ih.shipStatic⟩
    | silent | took | kept | failed => exact ih

theorem replay_of_no_prune (db : Database) {trace : List Event}
    (no_prune : ∀ steady now, Event.pruned steady now ∉ trace) :
    replay db trace = writeBatches db (committed trace) := by
  induction trace using List.reverseRecOn with
  | nil => rfl
  | append_singleton trace event ih =>
    have earlier := ih fun steady now member => no_prune steady now (List.mem_append_left _ member)
    rw [replay_append, earlier, committed_append, writeBatches_append]
    cases event with
    | pruned steady now => exact absurd (by simp) (no_prune steady now)
    | silent | took | committed | kept | failed => rfl

/-! ### Every run -/

/-- What holds along a run, by where the writer is. -/
def Kept (db : Database) (trace : List Event) (s : State) : Prop :=
  match s.control with
  | .loop | .popping | .pruning | .returned =>
    s.connection = { stored := replay db trace } ∧ s.armed = false ∧ taken trace = committed trace
  | .beginning receivedAt batch =>
    s.connection = { stored := replay db trace } ∧ s.armed = false ∧
      taken trace = committed trace ++ [(receivedAt, batch)]
  | .writing receivedAt written rest =>
    s.connection = {
      stored := replay db trace
      transaction := some (writeBatch (replay db trace) (receivedAt, written)) } ∧
      s.armed = true ∧ taken trace = committed trace ++ [(receivedAt, written ++ rest)]
  -- some chunks of the prune are gone
  | .unwinding .prune | .threw .prune =>
    SameButReports s.connection.stored (replay db trace) ∧ s.connection.transaction = none ∧
      taken trace = committed trace
  | .unwinding _ =>
    s.connection.stored = replay db trace ∧ s.armed = true ∧
      ∃ failing, taken trace = committed trace ++ [failing]
  | .threw _ =>
    s.connection = { stored := replay db trace } ∧
      ∃ failing, taken trace = committed trace ++ [failing]

/-- An event that takes, commits and prunes nothing leaves what `Kept` speaks of as it was. -/
private theorem kept_quiet {db : Database} {trace : List Event} {s : State} {event : Event}
    (takes : event.taken? = none) (commits : event.committed? = none)
    (changes : ∀ db, event.apply db = db) : Kept db (trace ++ [event]) s ↔ Kept db trace s := by
  simp only [Kept, replay_append, changes, taken_append, takes, committed_append, commits,
    Option.toList_none, List.append_nil]

private theorem kept_silent {db : Database} {trace : List Event} {s : State} :
    Kept db (trace ++ [.silent]) s ↔ Kept db trace s :=
  kept_quiet rfl rfl fun _ => rfl

private theorem kept_failed {db : Database} {trace : List Event} {s : State} {failed : Operation} :
    Kept db (trace ++ [.failed failed]) s ↔ Kept db trace s :=
  kept_quiet rfl rfl fun _ => rfl

theorem step_kept {db : Database} {trace : List Event} {s t : State} {event : Event}
    (kept : Kept db trace s) (step : Step s event t) : Kept db (trace ++ [event]) t := by
  unfold Kept at kept
  cases step with
  | stops at_loop =>
    rw [at_loop] at kept
    exact kept_silent.mpr kept
  | continues at_loop =>
    rw [at_loop] at kept
    exact kept_silent.mpr kept
  | drains at_pop =>
    rw [at_pop] at kept
    exact kept_silent.mpr kept
  | takes now batch at_pop some_left =>
    rw [at_pop] at kept
    obtain ⟨connection, armed, batches⟩ := kept
    simp [Kept, Event.apply, Event.taken?, Event.committed?, connection, armed, batches]
  | begins receivedAt batch at_begin idle =>
    rw [at_begin] at kept
    obtain ⟨connection, -, batches⟩ := kept
    refine kept_silent.mpr ⟨?_, rfl, batches⟩
    simp [connection, writeBatch]
  | beginFails receivedAt batch at_begin =>
    rw [at_begin] at kept
    obtain ⟨connection, -, batches⟩ := kept
    exact kept_failed.mpr ⟨connection, _, batches⟩
  | writes receivedAt message written rest working at_write open_ =>
    rw [at_write] at kept
    obtain ⟨connection, armed, batches⟩ := kept
    have working_eq : writeBatch (replay db trace) (receivedAt, written) = working := by
      simpa [connection] using open_
    refine kept_silent.mpr ⟨?_, armed, ?_⟩
    · simp [connection, writeBatch_append, working_eq]
    · rw [batches, List.append_assoc, List.singleton_append]
  -- the destructor is still to run
  | statementFails receivedAt message written rest after at_write left =>
    rw [at_write] at kept
    obtain ⟨connection, armed, batches⟩ := kept
    exact kept_failed.mpr ⟨by rw [left.stored, connection], armed, _, batches⟩
  | commits receivedAt written working at_commit open_ =>
    rw [at_commit] at kept
    obtain ⟨connection, -, batches⟩ := kept
    have working_eq : writeBatch (replay db trace) (receivedAt, written) = working := by
      simpa [connection] using open_
    rw [List.append_nil] at batches
    simp [Kept, Event.apply, Event.taken?, Event.committed?, working_eq, batches]
  | commitFails receivedAt written after at_commit left =>
    rw [at_commit] at kept
    obtain ⟨connection, armed, batches⟩ := kept
    exact kept_failed.mpr ⟨by rw [left.stored, connection], armed, _, batches⟩
  | keeps steady at_check recent =>
    rw [at_check] at kept
    obtain ⟨connection, armed, batches⟩ := kept
    refine (kept_quiet rfl rfl fun _ => rfl).mpr ⟨?_, rfl, batches⟩
    simp [State.destroyTransaction, armed, connection]
  | prunes steady now reports total at_check due idle deleted =>
    rw [at_check] at kept
    obtain ⟨connection, armed, batches⟩ := kept
    have left := deleted.eq_prune
    simp [Kept, Event.apply, Event.taken?, Event.committed?, State.destroyTransaction, connection,
      left, batches]
  | pruneFails steady now reports at_check due idle deleted =>
    rw [at_check] at kept
    obtain ⟨connection, armed, batches⟩ := kept
    refine kept_failed.mpr ⟨?_, rfl, batches⟩
    rw [connection]
    exact ⟨rfl, rfl⟩
  | unwinds failed at_throw =>
    refine kept_silent.mpr ?_
    cases failed with
    | prune =>
      rw [at_throw] at kept
      obtain ⟨tables, idle, batches⟩ := kept
      refine ⟨?_, State.idle_destroyTransaction idle, batches⟩
      rw [State.stored_destroyTransaction]
      exact tables
    | beginImmediate | statement | commit =>
      rw [at_throw] at kept
      obtain ⟨stored, armed, batches⟩ := kept
      refine ⟨?_, batches⟩
      simp [State.destroyTransaction, armed, stored]

theorem run_kept {db : Database} {trace : List Event} {s : State}
    (run : Run Step (initial db) trace s) : Kept db trace s := by
  have start : Kept db [] (initial db) := ⟨rfl, rfl, rfl⟩
  exact Run.invariant (Kept db) start (fun kept step => step_kept kept step) run

/-- In every state the committed tables but the reports are those of the batches committed. -/
theorem run_sameButReports {db : Database} {trace : List Event} {s : State}
    (run : Run Step (initial db) trace s) :
    SameButReports s.connection.stored (writeBatches db (committed trace)) := by
  have kept := run_kept run
  have replayed := replay_sameButReports db trace
  unfold Kept at kept
  split at kept
  all_goals first
    | exact ⟨kept.1.latestPositions.trans replayed.latestPositions,
        kept.1.shipStatic.trans replayed.shipStatic⟩
    | (rw [kept.1]
       exact replayed)

/-- Batches are all or nothing. Whichever of BEGIN, a statement and COMMIT is the first to fail,
when the exception leaves `run` no transaction is open, every batch but the last one taken has been
committed, and the tables are those of the committed batches, in order and each once, with nothing
but old reports pruned. -/
theorem batches_all_or_nothing (db : Database) (trace : List Event) (s : State) (failed : Operation)
    (run : Run Step (initial db) trace s) (threw : s.control = .threw failed)
    (writing : failed ≠ .prune) :
    s.connection.transaction = none ∧
    (∃ failing, taken trace = committed trace ++ [failing]) ∧
    s.connection.stored = replay db trace ∧
    SameButReports s.connection.stored (writeBatches db (committed trace)) ∧
    ((∀ steady now, Event.pruned steady now ∉ trace) →
      s.connection.stored = writeBatches db (committed trace)) := by
  have kept := run_kept run
  have tables := run_sameButReports run
  unfold Kept at kept
  rw [threw] at kept
  have closed : s.connection = { stored := replay db trace } ∧
      ∃ failing, taken trace = committed trace ++ [failing] := by
    cases failed with
    | prune => exact absurd rfl writing
    | beginImmediate | statement | commit => exact kept
  obtain ⟨connection, failing⟩ := closed
  rw [connection] at tables ⊢
  exact ⟨rfl, failing, rfl, tables, replay_of_no_prune db⟩

/-- One batch of a new database is committed; in the next the second statement fails. -/
def firstBatch : Int × List AisMessage :=
  (1000, [.positionReport { mmsi := 1 }, .staticDataPartA { mmsi := 1, name := [ 'A'.toUInt8] }])

theorem batches_all_or_nothing_statement :
    ∃ trace s, Run Step (initial .empty) trace s ∧ s.control = .threw .statement ∧
      committed trace = [firstBatch] ∧ s.connection.transaction = none ∧
      SameButReports s.connection.stored (writeBatches .empty [firstBatch]) := by
  obtain ⟨before, earlier, first⟩ := exists_run .empty [firstBatch] (by simp [firstBatch])
  obtain ⟨more, later, -, nothing⟩ := run_into (writeBatches .empty [firstBatch]) 0 1001
    [.positionReport { mmsi := 2 }] [.positionReport { mmsi := 3 }] (by simp)
  have run : Run Step (initial .empty) (before ++ (more ++ [.failed .statement, .silent])) _ :=
    run_append.mpr ⟨_, earlier, run_append.mpr ⟨_, later,
      _, .statementFails _ 1001 _ _ _ _ rfl (Or.inl rfl), _, .unwinds _ .statement rfl, rfl⟩⟩
  have trace_committed : committed (before ++ (more ++ [.failed .statement, .silent])) = [firstBatch] := by
    simp only [committed, List.filterMap_append] at first nothing ⊢
    rw [first, nothing]
    rfl
  obtain ⟨idle, -, -, tables, -⟩ := batches_all_or_nothing .empty _ _ .statement run rfl (by decide)
  rw [trace_committed] at tables
  exact ⟨_, _, run, rfl, trace_committed, idle, tables⟩

end Ais.WriterRun
