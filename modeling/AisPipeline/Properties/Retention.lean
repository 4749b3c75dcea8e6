import AisPipeline.Properties.BatchAtomicity

/-!
# How far back history goes

A prune happens at a check that comes five minutes or more after the last one,
so what the tables hold is bounded by retention and interval together. The time
of the last prune starts at the epoch of the steady clock, which is not a time
at which anything was pruned.
-/
namespace Ais.WriterRun

open Cpp SqliteWriter Transition

/-! ### Two clocks -/

/-- The clock readings of an event on the scale of the steady clock; the system clock is ahead of
it by `offset`. -/
def Event.readings (offset : Int) : Event → List Int
  | .took now _ => [now - offset]
  | .kept steady => [steady]
  | .pruned steady now => [steady, now - offset]
  | .silent | .committed _ _ | .failed _ => []

/-- The steady clock read `start` at the beginning, and neither clock ever goes back. -/
def Clocked (offset start : Int) (trace : List Event) : Prop :=
  (0 :: start :: trace.flatMap (Event.readings offset)).Pairwise (· ≤ ·)

/-- A prune check: the reading of the steady clock and the system time. -/
def Event.check? (offset : Int) : Event → Option (Int × Int)
  | .kept steady => some (steady, steady + offset)
  | .pruned steady now => some (steady, now)
  | .silent | .took _ _ | .committed _ _ | .failed _ => none

theorem clocked_append {offset start : Int} {trace : List Event} {event : Event} :
    Clocked offset start (trace ++ [event]) ↔ Clocked offset start trace ∧
      (event.readings offset).Pairwise (· ≤ ·) ∧
      ∀ earlier ∈ 0 :: start :: trace.flatMap (Event.readings offset),
        ∀ later ∈ event.readings offset, earlier ≤ later := by
  simp only [Clocked, List.flatMap_append, List.flatMap_singleton, ← List.cons_append,
    List.pairwise_append]

theorem seconds_mono {a b : Int} (earlier : a ≤ b) : seconds a ≤ seconds b :=
  Int.tdiv_le_tdiv (by decide) earlier

/-! ### What a batch stores -/

theorem rows_write (db : Database) (message : AisMessage) (receivedAt : Int) :
    (write db message receivedAt).positionReports.rows =
      db.positionReports.rows ++ insertedBy message receivedAt := by
  cases message with
  | positionReport report => exact PositionReports.rows_insert _ _
  | staticVoyageData data => exact (List.append_nil _).symm
  | staticDataPartA data => exact (List.append_nil _).symm
  | staticDataPartB data => exact (List.append_nil _).symm

theorem rows_writeBatch (db : Database) (receivedAt : Int) (batch : List AisMessage) :
    (writeBatch db (receivedAt, batch)).positionReports.rows =
      db.positionReports.rows ++ batch.flatMap fun message => insertedBy message receivedAt := by
  induction batch using List.reverseRecOn with
  | nil => simp [writeBatch]
  | append_singleton batch message ih =>
    rw [writeBatch_append, rows_write, ih, List.flatMap_append, List.flatMap_singleton,
      List.append_assoc]

theorem receivedAt_of_inserted {message : AisMessage} {receivedAt : Int} {row : PositionRow}
    (inserted : row ∈ insertedBy message receivedAt) : row.receivedAt = some receivedAt := by
  cases message with
  | positionReport report =>
    rw [List.mem_singleton.mp inserted]
    rfl
  | staticVoyageData | staticDataPartA | staticDataPartB => cases inserted

/-! ### Along a run -/

/-- Received no earlier than `from_`, in seconds. -/
def ReceivedSince (from_ : Int) (row : PositionRow) : Prop :=
  ∃ receivedAt, row.receivedAt = some receivedAt ∧ seconds from_ ≤ receivedAt

theorem ReceivedSince.weaken {later earlier : Int} {row : PositionRow}
    (since : ReceivedSince later row) (before : earlier ≤ later) : ReceivedSince earlier row := by
  obtain ⟨receivedAt, stamp, young⟩ := since
  exact ⟨receivedAt, stamp, (seconds_mono before).trans young⟩

/-- What holds along a run from `db`: as long as nothing was pruned the inherited reports are all
there, and every other report is no older than retention allows at the last prune. -/
structure Retaining (db : Database) (offset start : Int) (trace : List Event) (s : State) : Prop where
  read : s.lastPrune ∈ 0 :: start :: trace.flatMap (Event.readings offset)
  due : s.lastPrune = 0 ∨ pruneInterval ≤ s.lastPrune
  kept : ∀ row ∈ (replay db trace).positionReports.rows,
    s.lastPrune = 0 ∧ row ∈ db.positionReports.rows ∨
      ReceivedSince (s.lastPrune + offset - retention) row
  inherited : s.lastPrune = 0 → db.positionReports.rows ⊆ (replay db trace).positionReports.rows
  stamp : ∀ receivedAt, (∃ batch, s.control = .beginning receivedAt batch) ∨
    (∃ written rest, s.control = .writing receivedAt written rest) →
      seconds (s.lastPrune + offset) ≤ receivedAt

/-- An event that leaves the tables and the time of the last prune as they were. -/
private theorem Retaining.quiet {db : Database} {offset start : Int} {trace : List Event} {s t : State}
    {event : Event} (retaining : Retaining db offset start trace s)
    (changes : ∀ db, event.apply db = db) (same : t.lastPrune = s.lastPrune)
    (stamp : ∀ receivedAt, (∃ batch, t.control = .beginning receivedAt batch) ∨
      (∃ written rest, t.control = .writing receivedAt written rest) →
        seconds (t.lastPrune + offset) ≤ receivedAt) :
    Retaining db offset start (trace ++ [event]) t where
  read := by
    rw [same, List.flatMap_append, ← List.cons_append, ← List.cons_append]
    exact List.mem_append_left _ retaining.read
  due := same ▸ retaining.due
  kept := by
    rw [replay_append, changes, same]
    exact retaining.kept
  inherited := by
    rw [replay_append, changes, same]
    exact retaining.inherited
  stamp := stamp

/-- A batch is stamped after the last prune, so its reports are young enough. -/
private theorem Retaining.committed {db : Database} {offset start receivedAt : Int} {trace : List Event}
    {s t : State} (retaining : Retaining db offset start trace s) {written : List AisMessage}
    (young : seconds (s.lastPrune + offset) ≤ receivedAt) (same : t.lastPrune = s.lastPrune)
    (pruning : t.control = .pruning) :
    Retaining db offset start (trace ++ [.committed receivedAt written]) t := by
  have stored := rows_writeBatch (replay db trace) receivedAt written
  refine ⟨?_, same ▸ retaining.due, ?_, ?_, by simp [pruning]⟩
  · rw [same, List.flatMap_append, ← List.cons_append, ← List.cons_append]
    exact List.mem_append_left _ retaining.read
  · intro row member
    rw [replay_append, Event.apply, stored] at member
    rw [same]
    rcases List.mem_append.mp member with old | new
    · exact retaining.kept row old
    · obtain ⟨message, -, inserted⟩ := List.mem_flatMap.mp new
      have earlier : seconds (s.lastPrune + offset - retention) ≤ seconds (s.lastPrune + offset) :=
        seconds_mono (by simp [retention])
      exact .inr ⟨receivedAt, receivedAt_of_inserted inserted, earlier.trans young⟩
  · intro never row member
    rw [replay_append, Event.apply, stored]
    exact List.mem_append_left _ (retaining.inherited (same ▸ never) member)

/-- A prune comes five minutes after the epoch at the earliest and leaves what retention allows. -/
private theorem Retaining.pruned {db : Database} {offset start steady : Int} {trace : List Event}
    {s : State} (retaining : Retaining db offset start trace s) (now : Int)
    (stamped : ∀ row ∈ db.positionReports.rows, row.receivedAt ≠ none)
    (due : pruneInterval ≤ steady - s.lastPrune) :
    pruneInterval ≤ steady ∧
      ∀ row ∈ (replay db (trace ++ [.pruned steady now])).positionReports.rows,
        ReceivedSince (now - retention) row := by
  constructor
  · have positive : (0 : Int) < pruneInterval := by decide
    rcases retaining.due with never | once
    · omega
    · omega
  · intro row member
    rw [replay_append, Event.apply, PositionReports.mem_rows_prune] at member
    obtain ⟨old, young⟩ := member
    have has_time : row.receivedAt ≠ none := by
      rcases retaining.kept row old with ⟨-, found⟩ | ⟨receivedAt, stamp, -⟩
      · exact stamped row found
      · rw [stamp]
        exact Option.some_ne_none receivedAt
    obtain ⟨receivedAt, stamp⟩ := Option.ne_none_iff_exists'.mp has_time
    exact ⟨receivedAt, stamp, young receivedAt stamp⟩

theorem step_retaining {db : Database} {offset start : Int} {trace : List Event} {s t : State}
    {event : Event} (stamped : ∀ row ∈ db.positionReports.rows, row.receivedAt ≠ none)
    (clocked : Clocked offset start (trace ++ [event]))
    (retaining : Retaining db offset start trace s) (step : Step s event t) :
    Retaining db offset start (trace ++ [event]) t := by
  cases step with
  | stops at_loop => exact retaining.quiet (fun _ => rfl) rfl (by simp)
  | continues at_loop => exact retaining.quiet (fun _ => rfl) rfl (by simp)
  | drains at_pop => exact retaining.quiet (fun _ => rfl) rfl (by simp)
  | takes now batch at_pop some_left =>
    -- the batch is stamped after the last prune
    have later : s.lastPrune ≤ now - offset :=
      (clocked_append.mp clocked).2.2 _ retaining.read _ (List.mem_singleton_self _)
    have young : seconds (s.lastPrune + offset) ≤ seconds now := seconds_mono (by omega)
    exact retaining.quiet (fun _ => rfl) rfl (by simpa using young)
  | begins receivedAt batch at_begin idle =>
    have young := retaining.stamp receivedAt (.inl ⟨batch, at_begin⟩)
    exact retaining.quiet (fun _ => rfl) rfl (by simpa using young)
  | beginFails receivedAt batch at_begin => exact retaining.quiet (fun _ => rfl) rfl (by simp)
  | writes receivedAt message written rest working at_write open_ =>
    have young := retaining.stamp receivedAt (.inr ⟨written, _, at_write⟩)
    exact retaining.quiet (fun _ => rfl) rfl (by simpa using young)
  | statementFails receivedAt message written rest after at_write left =>
    exact retaining.quiet (fun _ => rfl) rfl (by simp)
  | commits receivedAt written working at_commit open_ =>
    exact retaining.committed (retaining.stamp receivedAt (.inr ⟨written, _, at_commit⟩)) rfl rfl
  | commitFails receivedAt written after at_commit left =>
    exact retaining.quiet (fun _ => rfl) rfl (by simp)
  | keeps steady at_check recent =>
    exact retaining.quiet (fun _ => rfl) (by simp [State.destroyTransaction]) (by simp)
  | prunes steady now reports total at_check due idle deleted =>
    obtain ⟨later, young⟩ := retaining.pruned now stamped due
    have before : steady ≤ now - offset := by
      simpa [Event.readings] using (clocked_append.mp clocked).2.1
    refine ⟨?_, .inr later, ?_, ?_, by simp⟩
    · rw [List.flatMap_append]
      simp [Event.readings]
    · intro row member
      exact .inr ((young row member).weaken (by simp only; omega))
    · intro never
      have positive : (0 : Int) < pruneInterval := by decide
      exact absurd never (positive.trans_le later).ne'
  | pruneFails steady now reports at_check due idle deleted =>
    exact retaining.quiet (fun _ => rfl) rfl (by simp)
  | unwinds failed at_throw =>
    exact retaining.quiet (fun _ => rfl) (by simp [State.destroyTransaction]) (by simp)

theorem run_retaining {db : Database} {offset start : Int} {trace : List Event} {s : State}
    (stamped : ∀ row ∈ db.positionReports.rows, row.receivedAt ≠ none)
    (clocked : Clocked offset start trace) (run : Run Step (initial db) trace s) :
    Retaining db offset start trace s := by
  have begin : Clocked offset start [] → Retaining db offset start [] (initial db) := fun _ =>
    { read := List.mem_cons_self
      due := .inl rfl
      kept := fun row member => .inl ⟨rfl, member⟩
      inherited := fun _ => List.Subset.refl _
      stamp := by simp [initial] }
  have along := Run.invariant
    (fun trace s => Clocked offset start trace → Retaining db offset start trace s) begin
    (fun kept step later => step_retaining stamped later (kept (clocked_append.mp later).1) step) run
  exact along clocked

/-! ### The bound -/

/-- Every report was received in the last 24 hours and 5 minutes, up to the cut to whole seconds. -/
def Retained (now : Int) (reports : PositionReports) : Prop :=
  ∀ row ∈ reports.rows, ReceivedSince (now - retention - pruneInterval) row

private theorem retained_of_kept {db : Database} {offset start steady : Int} {trace : List Event}
    {s : State} (retaining : Retaining db offset start trace s)
    (clocked : Clocked offset start (trace ++ [.kept steady]))
    (recent : steady - s.lastPrune < pruneInterval) :
    Retained (steady + offset) (replay db trace).positionReports ↔
      (steady < pruneInterval → Retained (steady + offset) db.positionReports) := by
  have later : s.lastPrune ≤ steady :=
    (clocked_append.mp clocked).2.2 _ retaining.read _ (List.mem_singleton_self _)
  have young : ∀ row, ReceivedSince (s.lastPrune + offset - retention) row →
      ReceivedSince (steady + offset - retention - pruneInterval) row :=
    fun row since => since.weaken (by omega)
  rcases retaining.due with never | once
  -- nothing was pruned, so the inherited reports are all that can be too old
  · have early : steady < pruneInterval := by omega
    constructor
    · intro retained _ row member
      exact retained row (retaining.inherited never member)
    · intro inherited row member
      rcases retaining.kept row member with ⟨-, found⟩ | since
      · exact inherited early row found
      · exact young row since
  · constructor
    · intro _ early
      omega
    · intro _ row member
      rcases retaining.kept row member with ⟨never, -⟩ | since
      · rw [never] at once
        exact absurd once (by decide)
      · exact young row since

/-- The retention bound holds after an iteration of the loop in all cases but one: while the steady
clock is not yet five minutes past its epoch nothing has been pruned, and the bound holds exactly if
it does for the reports the writer found. -/
theorem retention_bound_iff (db : Database)
    (stamped : ∀ row ∈ db.positionReports.rows, row.receivedAt ≠ none) (offset start : Int)
    (trace : List Event) (check : Event) (steady now : Int) (s : State)
    (clocked : Clocked offset start (trace ++ [check]))
    (checked : check.check? offset = some (steady, now))
    (run : Run Step (initial db) (trace ++ [check]) s) :
    Retained now s.connection.stored.positionReports ↔
      (steady < pruneInterval → Retained now db.positionReports) := by
  have tables := run_kept run
  obtain ⟨before, earlier, middle, step, rfl⟩ := run_append.mp run
  have retaining := run_retaining stamped (clocked_append.mp clocked).1 earlier
  cases step with
  | keeps read at_check recent =>
    obtain ⟨rfl, rfl⟩ : read = steady ∧ read + offset = now := by simpa [Event.check?] using checked
    rw [tables.1, replay_append]
    exact retained_of_kept retaining clocked recent
  | prunes read at_prune reports total at_check due idle deleted =>
    obtain ⟨rfl, rfl⟩ : read = steady ∧ at_prune = now := by simpa [Event.check?] using checked
    obtain ⟨later, young⟩ := retaining.pruned at_prune stamped due
    have interval : 0 ≤ pruneInterval := by decide
    rw [tables.1]
    constructor
    · intro _ early
      omega
    · intro _ row member
      exact (young row member).weaken (by omega)
  | stops | continues | drains | takes | begins | beginFails | writes | statementFails | commits
  | commitFails | pruneFails | unwinds => cases checked

/-! ### A start right after boot -/

/-- A report two days old. -/
def forgottenReport : PositionRow := { mmsi := some 1, receivedAt := some 1 }

def oldDatabase : Database := Database.empty.insertReport forgottenReport

def twoDays : Int := 48 * 60 * 60 * 1000000000

def freshReport : AisMessage := .positionReport { mmsi := 2 }

/-- The first batch, up to the prune check. -/
def firstIteration : List Event :=
  [.silent, .took twoDays [freshReport], .silent, .silent, .committed (seconds twoDays) [freshReport]]

private theorem run_firstIteration :
    Run Step (initial oldDatabase) firstIteration
      { connection := { stored := write oldDatabase freshReport (seconds twoDays) }
        control := .pruning } :=
  ⟨_, .continues _ rfl, _, .takes _ twoDays _ rfl (by simp), _, .begins _ _ _ rfl rfl,
    _, .writes _ _ _ _ _ _ rfl rfl, _, .commits _ _ _ _ rfl rfl, rfl⟩

/-- The steady clock is at its epoch, so the check lets the old report be. -/
theorem retention_lost_at_boot :
    ∃ s, Run Step (initial oldDatabase) (firstIteration ++ [.kept 0]) s ∧
      Clocked twoDays 0 (firstIteration ++ [.kept 0]) ∧
      (Event.kept 0).check? twoDays = some (0, twoDays) ∧
      forgottenReport ∈ s.connection.stored.positionReports.rows ∧
      ¬ Retained twoDays s.connection.stored.positionReports := by
  have run : Run Step (initial oldDatabase) (firstIteration ++ [.kept 0]) _ :=
    run_append.mpr ⟨_, run_firstIteration, .single (.keeps _ 0 rfl (by decide))⟩
  have held : forgottenReport ∈
      (write oldDatabase freshReport (seconds twoDays)).positionReports.rows := by
    rw [rows_write]
    exact List.mem_append_left _ (List.mem_singleton_self _)
  refine ⟨_, run, by unfold Clocked; decide, rfl, held, fun retained => ?_⟩
  obtain ⟨receivedAt, stamp, young⟩ := retained forgottenReport held
  cases stamp
  exact absurd young (by decide)

/-- Had the steady clock been running for five minutes, it would have been pruned. -/
theorem retention_bound_iff_pruned :
    ∃ s, Run Step (initial oldDatabase) (firstIteration ++ [.pruned pruneInterval twoDays]) s ∧
      Retained twoDays s.connection.stored.positionReports := by
  have pruned : DeletesOlderThan (cutoff twoDays) pruneChunkSize
      (write oldDatabase freshReport (seconds twoDays)).positionReports
      ((write oldDatabase freshReport (seconds twoDays)).positionReports.prune (cutoff twoDays)) _ :=
    (deletesOlderThan_iff (by decide)).mpr ⟨rfl, rfl⟩
  have run : Run Step (initial oldDatabase) (firstIteration ++ [.pruned pruneInterval twoDays]) _ :=
    run_append.mpr ⟨_, run_firstIteration,
      .single (.prunes _ pruneInterval twoDays _ _ rfl (by decide) rfl pruned)⟩
  refine ⟨_, run, ?_⟩
  refine (retention_bound_iff oldDatabase (by decide) (twoDays - pruneInterval) pruneInterval
    firstIteration _ pruneInterval twoDays _ (by unfold Clocked; decide) rfl run).mpr fun early => ?_
  exact absurd early (lt_irrefl _)

end Ais.WriterRun
