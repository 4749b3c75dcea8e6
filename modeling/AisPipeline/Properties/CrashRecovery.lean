import AisPipeline.Pipeline.Disk
import AisPipeline.Properties.BatchAtomicity
import AisPipeline.Properties.LatestPositions

/-!
# Crashes

Wherever writers are cut off, and whatever a power cut takes back, the file is
either as it was found or holds all of `latest_positions`, its trigger and
exactly the batches whose commit is left. The next start goes on from there.
-/
namespace Ais

open Cpp SqliteWriter Snapshots Transition

/-- The reports a batch inserts. -/
def WriterRun.reportsOf (batch : Int × List AisMessage) : List PositionRow :=
  batch.2.flatMap fun message => insertedBy message batch.1

namespace Disk

theorem surviving_append_commits (trace : List Event) {more : List Event} {commits : List Commit}
    (changes : more.filterMap Event.change? = commits.map Change.committed) :
    surviving (trace ++ more) = surviving trace ++ commits := by
  rw [surviving, List.filterMap_append, changes, Snapshots.surviving_append_committed, ← surviving]

/-! ### The constructor's transaction -/

/-- The statements between BEGIN and COMMIT, on a file that has the other tables. -/
def Content.install (content : Content) : Option Content :=
  let working := content.createLatest.createTrigger
  if working.hasLatest then some working else working.backfill

theorem Content.install_eq {content : Content} (reports : content.positionReports.isSome)
    (static : content.shipStatic.isSome) :
    content.install = (openDatabase content.toDatabaseFile).map ofDatabase := by
  obtain ⟨⟨positionReports, shipStatic, latestPositions⟩, trigger⟩ := content
  obtain ⟨positionReports, rfl⟩ := Option.isSome_iff_exists.mp reports
  obtain ⟨shipStatic, rfl⟩ := Option.isSome_iff_exists.mp static
  simp only [install, createLatest, createTrigger, hasLatest, backfill, openDatabase, Option.any_some,
    Option.getD_some, Option.bind_eq_bind, Option.bind_some]
  by_cases filled : (latestPositions.getD .empty).rows.isEmpty = true
  · simp only [filled, Bool.not_true, Bool.false_eq_true, if_false, if_true]
    cases (latestPositions.getD .empty).insertAll positionReports.backfill with
    | none => rfl
    | some latest => rfl
  · simp only [filled, Bool.not_false, Bool.false_eq_true, if_false, if_true]
    rfl

theorem Content.write_ofDatabase (db : Database) (message : AisMessage) (receivedAt : Int) :
    (ofDatabase db).write message receivedAt =
      some (ofDatabase (SqliteWriter.write db message receivedAt)) := rfl

/-! ### What the commits make of a file -/

/-- All reports ever inserted by what is left of the commits. -/
def history (file : DatabaseFile) (commits : List Commit) : List PositionRow :=
  (file.positionReports.getD .empty).rows ++ commits.flatMap Commit.reports

variable {file : DatabaseFile} {opened : Database} {commits : List Commit}

private theorem agrees_writeBatch {before : List PositionRow} {db : Database}
    (agrees : Agrees before db) (receivedAt : Int) (messages : List AisMessage) :
    Agrees (before ++ (Commit.batch receivedAt messages).reports)
      (WriterRun.writeBatch db (receivedAt, messages)) := by
  induction messages using List.reverseRecOn with
  | nil =>
    rw [Commit.reports, List.flatMap_nil, List.append_nil]
    exact agrees
  | append_singleton written message ih =>
    have longer := ih.write message receivedAt
    rw [Commit.reports, List.append_assoc] at longer
    rw [WriterRun.writeBatch_append, Commit.reports, List.flatMap_append, List.flatMap_singleton]
    exact longer

theorem replay_agrees (agrees : Agrees (file.positionReports.getD .empty).rows opened)
    (commits : List Commit) : Agrees (history file commits) (replay opened commits) := by
  induction commits using List.reverseRecOn with
  | nil =>
    rw [history, List.flatMap_nil, List.append_nil]
    exact agrees
  | append_singleton commits commit ih =>
    rw [replay_append, history, List.flatMap_append, List.flatMap_singleton, ← List.append_assoc]
    cases commit with
    | batch receivedAt messages => exact agrees_writeBatch ih receivedAt messages
    | created | installed =>
      rw [Commit.reports, List.append_nil]
      exact ih
    | deleted picked =>
      rw [Commit.reports, List.append_nil]
      exact ih.prune (PositionReports.rows_delete _ picked)

/-- A version of the file, with the commits that have led to it. -/
inductive Version (file : DatabaseFile) (opened : Database) : List Commit → Content → Prop where
  /-- as it was found, but for empty tables -/
  | untouched (commits : List Commit) (content : Content)
      (reports : content.positionReports.getD .empty = file.positionReports.getD .empty)
      (static : content.shipStatic.getD .empty = file.shipStatic.getD .empty)
      (latest : content.latestPositions = none) (trigger : content.trigger = false)
      (creations : ∀ commit ∈ commits, ∃ statement, commit = .created statement) :
      Version file opened commits content
  | installed (commits : List Commit) :
      Version file opened commits (.ofDatabase (replay opened commits))

private theorem replay_creations
    (creations : ∀ commit ∈ commits, ∃ statement, commit = .created statement) :
    replay opened commits = opened := by
  induction commits using List.reverseRecOn with
  | nil => rfl
  | append_singleton commits commit ih =>
    obtain ⟨statement, rfl⟩ := creations commit (by simp)
    rw [replay_append]
    exact ih fun other member => creations other (List.mem_append_left _ member)

/-- A statement that creates a table leaves a version of the file. -/
private theorem Version.creates {content after : Content} (version : Version file opened commits content)
    (statement : Creation)
    (reports : after.positionReports.getD .empty = content.positionReports.getD .empty)
    (static : after.shipStatic.getD .empty = content.shipStatic.getD .empty)
    (latest : after.latestPositions = content.latestPositions)
    (trigger : after.trigger = content.trigger)
    (there : ∀ db, content = .ofDatabase db → after = content) :
    Version file opened (commits ++ [.created statement]) after := by
  cases version with
  | untouched _ same_reports same_static absent off creations =>
    refine .untouched _ _ (reports.trans same_reports) (static.trans same_static)
      (latest.trans absent) (trigger.trans off) fun commit member => ?_
    rcases List.mem_append.mp member with earlier | new
    · exact creations commit earlier
    · exact ⟨statement, List.mem_singleton.mp new⟩
  | installed =>
    rw [there _ rfl]
    have version : Version file opened (commits ++ [.created statement]) _ := .installed _
    rwa [replay_append] at version

/-- Every version is opened into what its commits make of the first opening. -/
theorem Version.opens {content : Content} (opening : openDatabase file = some opened)
    (agrees : Agrees (file.positionReports.getD .empty).rows opened)
    (fresh : file.latestPositions = none) (version : Version file opened commits content) :
    openDatabase content.toDatabaseFile = some (replay opened commits) := by
  cases version with
  | untouched _ reports static latest trigger creations =>
    rw [replay_creations creations, ← opening, openDatabase, openDatabase, reports, static, latest,
      fresh]
  | installed => exact openDatabase_again (replay_agrees agrees commits)

/-! ### Every run -/

/-- Where a connection is, and what it works on. -/
inductive Working (opened : Database) (commits : List Commit) (current : Content) : Connection → Prop where
  | closed : Working opened commits current .closed
  | reports : Working opened commits current (.creating .reports)
  | static (reports : current.positionReports.isSome) :
      Working opened commits current (.creating .static)
  | index (reports : current.positionReports.isSome) (static : current.shipStatic.isSome) :
      Working opened commits current (.creating .index)
  | created (reports : current.positionReports.isSome) (static : current.shipStatic.isSome) :
      Working opened commits current .created
  | table (reports : current.positionReports.isSome) (static : current.shipStatic.isSome) :
      Working opened commits current (.installing current .table)
  | trigger (reports : current.positionReports.isSome) (static : current.shipStatic.isSome) :
      Working opened commits current (.installing current.createLatest .trigger)
  | check (reports : current.positionReports.isSome) (static : current.shipStatic.isSome) :
      Working opened commits current (.installing current.createLatest.createTrigger .check)
  | backfill (working : Content)
      (fills : working.backfill = some (.ofDatabase (replay opened commits))) :
      Working opened commits current (.installing working .backfill)
  | commit : Working opened commits current (.installing (.ofDatabase (replay opened commits)) .commit)
  | idle (serves : current = .ofDatabase (replay opened commits)) : Working opened commits current .idle
  | writing (receivedAt : Int) (written : List AisMessage)
      (serves : current = .ofDatabase (replay opened commits)) :
      Working opened commits current (.writing receivedAt written
        (.ofDatabase (WriterRun.writeBatch (replay opened commits) (receivedAt, written))))
  | deleting (cutoff : Int) (serves : current = .ofDatabase (replay opened commits)) :
      Working opened commits current (.deleting cutoff)

/-- What holds along a run. -/
structure Kept (file : DatabaseFile) (opened : Database) (commits : List Commit) (s : State) : Prop where
  versions : s.disk.Holds (Version file opened) commits
  working : Working opened commits s.disk.current s.connection

section Runs

variable (opening : openDatabase file = some opened)
  (agrees : Agrees (file.positionReports.getD .empty).rows opened)
  (fresh : file.latestPositions = none)

include opening agrees fresh in
theorem step_kept {s t : State} {event : Event} (kept : Kept file opened commits s)
    (step : Step s event t) :
    Kept file opened (event.change?.elim commits (Change.apply commits)) t := by
  obtain ⟨versions, working⟩ := kept
  have version := versions.current
  cases step with
  | opens at_closed => exact ⟨versions, .reports⟩
  | createsReports at_create =>
    refine ⟨versions.commit (version.creates .reports rfl rfl rfl rfl ?_), .static rfl⟩
    rintro db same
    rw [same]
    rfl
  | createsStatic at_create =>
    rw [at_create] at working
    cases working with
    | static reports =>
      refine ⟨versions.commit (version.creates .static rfl rfl rfl rfl ?_), .index reports rfl⟩
      rintro db same
      rw [same]
      rfl
  | createsIndex at_create =>
    rw [at_create] at working
    cases working with
    | index reports static =>
      exact ⟨versions.commit (version.creates .index rfl rfl rfl rfl fun _ _ => rfl),
        .created reports static⟩
  | beginsInstalling at_begin =>
    rw [at_begin] at working
    cases working with
    | created reports static => exact ⟨versions, .table reports static⟩
  | createsLatest content at_create =>
    rw [at_create] at working
    cases working with
    | table reports static => exact ⟨versions, .trigger reports static⟩
  | createsTrigger content at_create =>
    rw [at_create] at working
    cases working with
    | trigger reports static => exact ⟨versions, .check reports static⟩
  -- either way the transaction ends in what `openDatabase` makes of the file
  | checks content at_check =>
    rw [at_check] at working
    cases working with
    | check reports static =>
      have installed := Content.install_eq reports static
      rw [version.opens opening agrees fresh, Option.map_some, Content.install] at installed
      refine ⟨versions, ?_⟩
      by_cases filled : s.disk.current.createLatest.createTrigger.hasLatest = true
      · rw [if_pos filled] at installed ⊢
        rw [Option.some.inj installed]
        exact .commit
      · rw [if_neg filled] at installed ⊢
        exact .backfill _ installed
  | backfills content filled at_fill ran =>
    rw [at_fill] at working
    cases working with
    | backfill _ fills =>
      obtain rfl := Option.some.inj (ran.symm.trans fills)
      exact ⟨versions, .commit⟩
  | installs content at_commit =>
    rw [at_commit] at working
    cases working with
    | commit =>
      have version : Version file opened (commits ++ [.installed]) _ := .installed _
      have same : replay opened (commits ++ [.installed]) = replay opened commits := by
        rw [replay_append]
        rfl
      rw [same] at version
      exact ⟨versions.commit version, .idle (congrArg Content.ofDatabase same.symm)⟩
  | begins receivedAt at_loop =>
    rw [at_loop] at working
    cases working with
    | idle serves =>
      refine ⟨versions, ?_⟩
      have start : Working opened commits s.disk.current _ := .writing receivedAt [] serves
      rwa [serves] at start ⊢
  | writes receivedAt written message content after at_write ran =>
    rw [at_write] at working
    cases working with
    | writing _ _ serves =>
      rw [Content.write_ofDatabase, ← WriterRun.writeBatch_append] at ran
      obtain rfl := Option.some.inj ran
      exact ⟨versions, .writing receivedAt _ serves⟩
  | commits receivedAt written content at_write =>
    rw [at_write] at working
    cases working with
    | writing _ _ serves =>
      have version : Version file opened (commits ++ [.batch receivedAt written]) _ := .installed _
      rw [replay_append] at version
      refine ⟨versions.commit version, .idle ?_⟩
      rw [Event.change?, Option.elim_some, Change.apply, replay_append]
      rfl
  | prunes cutoff at_loop =>
    rw [at_loop] at working
    cases working with
    | idle serves => exact ⟨versions, .deleting cutoff serves⟩
  | deletes cutoff reports picked at_delete stored matching limited =>
    rw [at_delete] at working
    cases working with
    | deleting _ serves =>
      have left : { s.disk.current with positionReports := some (reports.delete picked) } =
          Content.ofDatabase (replay opened (commits ++ [.deleted picked])) := by
        rw [serves] at stored
        cases stored
        rw [serves, replay_append]
        rfl
      have version : Version file opened (commits ++ [.deleted picked]) _ := .installed _
      rw [← left] at version
      refine ⟨versions.commit version, ?_⟩
      split
      · exact .deleting cutoff left
      · exact .idle left
  | ends => exact ⟨versions, .closed⟩
  | loses lost left undone => exact ⟨versions.cut undone, .closed⟩
  | syncs kept => exact ⟨versions.sync kept, working⟩

include opening agrees fresh in
theorem run_kept {trace : List Event} {s : State} (run : Run Step (found file) trace s) :
    Kept file opened (surviving trace) s := by
  refine Run.invariant (fun trace s => Kept file opened (surviving trace) s) ?_ ?_ run
  · refine ⟨.start (.untouched _ _ rfl rfl fresh rfl ?_), .closed⟩
    exact fun commit member => absurd member List.not_mem_nil
  · intro trace s event t kept step
    rw [surviving_append]
    exact step_kept opening agrees fresh kept step

/-- What a start commits when it is left alone. -/
def starting : List Commit :=
  [.created .reports, .created .static, .created .index, .installed]

include opening agrees fresh in
/-- A start that is left alone gets to `run`, whatever has become of the writers before. -/
theorem Kept.exists_start {s : State} (kept : Kept file opened commits s) :
    ∃ more t, Run Step s more t ∧ t.connection = .idle ∧
      t.disk.current = .ofDatabase (replay opened commits) ∧
      more.filterMap Event.change? = starting.map Change.committed := by
  have opens := kept.versions.current.opens opening agrees fresh
  have installed : s.disk.current.createReports.createStatic.install =
      some (.ofDatabase (replay opened commits)) := by
    rw [Content.install_eq rfl rfl, ← Option.map_some, ← opens]
    rfl
  -- up to the check, after which the two ways part
  let working := s.disk.current.createReports.createStatic.createLatest.createTrigger
  have before : ∃ disk, Run Step s
      [.silent, .silent, .committed (.created .reports), .committed (.created .static),
        .committed (.created .index), .silent, .silent, .silent, .silent]
      ⟨disk, .installing working (if working.hasLatest then .commit else .backfill)⟩ :=
    ⟨_, _, .ends s, _, .opens _ rfl, _, .createsReports _ rfl, _, .createsStatic _ rfl,
      _, .createsIndex _ rfl, _, .beginsInstalling _ rfl, _, .createsLatest _ _ rfl,
      _, .createsTrigger _ _ rfl, _, .checks _ _ rfl, rfl⟩
  obtain ⟨disk, before⟩ := before
  rw [Content.install] at installed
  by_cases filled : working.hasLatest = true
  · rw [if_pos filled] at before installed
    have after := Run.single (Step.installs ⟨disk, .installing working .commit⟩ working rfl)
    exact ⟨_, _, run_append.mpr ⟨_, before, after⟩, rfl, Option.some.inj installed, rfl⟩
  · rw [if_neg filled] at before installed
    have after : ∃ t, Run Step ⟨disk, .installing working .backfill⟩
        [.silent, .committed .installed] t ∧ t.connection = .idle ∧
          t.disk.current = .ofDatabase (replay opened commits) :=
      ⟨_, ⟨_, .backfills _ working _ rfl installed, _, .installs _ _ rfl, rfl⟩, rfl, rfl⟩
    obtain ⟨t, after, idle, current⟩ := after
    exact ⟨_, t, run_append.mpr ⟨_, before, after⟩, idle, current, rfl⟩

end Runs

/-- A writer is never left behind by a crash. On a file from before `latest_positions`, wherever
processes have ended and however many of the last commits power cuts have undone: once a
constructor has returned the file is the first opening with the commits that are left, and before
that there is neither the table nor the trigger; the next start gets there; and there
`latest_positions` has the newest position of each ship among all reports of the commits left. -/
theorem crash_recovery (file : DatabaseFile) (fresh : file.latestPositions = none)
    (stamped : ∀ row ∈ (file.positionReports.getD .empty).rows, row.receivedAt ≠ none)
    (trace : List Event) (s : State) (run : Run Step (found file) trace s) :
    ∃ opened, openDatabase file = some opened ∧
      (s.disk.current = .ofDatabase (replay opened (surviving trace)) ∨
        ¬ s.connection.inRun ∧ s.disk.current.latestPositions = none ∧
          s.disk.current.trigger = false ∧
          ∀ commit ∈ surviving trace, ∃ statement, commit = .created statement) ∧
      (∃ more t, Run Step s more t ∧ t.connection = .idle ∧
        t.disk.current = .ofDatabase (replay opened (surviving trace)) ∧
        surviving (trace ++ more) = surviving trace ++ starting) ∧
      (replay opened (surviving trace)).positionReports.rows.Sublist
        (history file (surviving trace)) ∧
      ∀ mmsi, (replay opened (surviving trace)).latestPositions.row? mmsi =
        newestPosition mmsi (history file (surviving trace)) := by
  obtain ⟨opened, opening, agrees⟩ := openDatabase_first fresh stamped
  have kept := run_kept opening agrees fresh run
  have replayed := replay_agrees agrees (surviving trace)
  refine ⟨opened, opening, ?_, ?_, replayed.held, replayed.latest⟩
  · have serving : s.connection.inRun →
        s.disk.current = .ofDatabase (replay opened (surviving trace)) := by
      intro inside
      have working := kept.working
      generalize s.connection = connection at working inside
      cases working with
      | idle serves => exact serves
      | writing receivedAt written serves => exact serves
      | deleting cutoff serves => exact serves
      | _ => exact absurd inside id
    have version := kept.versions.current
    generalize s.disk.current = content at version serving ⊢
    cases version with
    | installed => exact .inl rfl
    | untouched _ reports static latest trigger creations =>
      by_cases inside : s.connection.inRun
      · exact .inl (serving inside)
      · exact .inr ⟨inside, latest, trigger, creations⟩
  · obtain ⟨more, t, further, idle, current, changes⟩ := kept.exists_start opening agrees fresh
    refine ⟨more, t, further, idle, current, ?_⟩
    exact surviving_append_commits trace changes

/-- A start that breaks off before the backfill. -/
def brokenStart : List Event :=
  [.silent, .committed (.created .reports), .committed (.created .static),
    .committed (.created .index), .silent, .silent, .silent, .silent]

/-- The first start on a file with a report breaks off. The second gets through and commits a batch,
which a power cut takes back. -/
theorem crash_recovery_cut :
    ∃ trace s opened, Run Step (found oldFile) trace s ∧ openDatabase oldFile = some opened ∧
      surviving trace = surviving brokenStart ++ starting ∧
      ∃ more t, Run Step s more t ∧ t.connection = .idle ∧
        t.disk.current = .ofDatabase (replay opened (surviving trace)) := by
  obtain ⟨opened, opening, agrees⟩ := @openDatabase_first oldFile rfl (by decide)
  have first : ∃ s, Run Step (found oldFile) brokenStart s :=
    ⟨_, _, .opens _ rfl, _, .createsReports _ rfl, _, .createsStatic _ rfl, _, .createsIndex _ rfl,
      _, .beginsInstalling _ rfl, _, .createsLatest _ _ rfl, _, .createsTrigger _ _ rfl,
      _, .ends _, rfl⟩
  obtain ⟨s, first⟩ := first
  obtain ⟨more, t, second, idle, current, changes⟩ :=
    (run_kept opening agrees rfl first).exists_start opening agrees rfl
  have written : ∃ after, t.disk.current.write (.positionReport { mmsi := 1 }) 1000 = some after := by
    rw [current]
    exact ⟨_, Content.write_ofDatabase _ _ _⟩
  obtain ⟨after, written⟩ := written
  have third : Run Step t [.silent, .silent,
      .committed (.batch 1000 [.positionReport { mmsi := 1 }]), .powerCut 1] ⟨t.disk, .closed⟩ :=
    ⟨_, .begins t 1000 idle, _, .writes _ 1000 [] _ _ after rfl written,
      _, .commits _ 1000 _ after rfl, _, .loses _ 1 t.disk rfl, rfl⟩
  have run := run_append.mpr ⟨t, run_append.mpr ⟨s, first, second⟩, third⟩
  have left : surviving (brokenStart ++ more ++ [.silent, .silent,
      .committed (.batch 1000 [.positionReport { mmsi := 1 }]), .powerCut 1]) =
      surviving brokenStart ++ starting := by
    rw [← surviving_append_commits brokenStart changes]
    rw [surviving, List.filterMap_append, Snapshots.surviving, List.foldl_append,
      ← Snapshots.surviving, ← surviving]
    exact (List.rdrop_concat_succ _ 0 _).trans (List.rdrop_zero _)
  obtain ⟨again, opening', -, ⟨more', u, further, ready, found, -⟩, -⟩ :=
    crash_recovery oldFile rfl (by decide) _ _ run
  obtain rfl := Option.some.inj (opening.symm.trans opening')
  exact ⟨_, _, opened, run, opening, left, more', u, further, ready, found⟩

/-! ### The loop of the writer -/

def Commit.batch? : Commit → Option (Int × List AisMessage)
  | .batch receivedAt messages => some (receivedAt, messages)
  | .created _ | .installed | .deleted _ => none

/-- The batches among some commits. -/
def batches (commits : List Commit) : List (Int × List AisMessage) :=
  commits.filterMap Commit.batch?

/-- A run on the disk that has made some commits and come to a database. -/
structure Comes (s : State) (commits : List Commit) (db : Database) (connection : Connection)
    (t : State) (events : List Event) : Prop where
  run : Run Step s events t
  changes : events.filterMap Event.change? = commits.map Change.committed
  current : t.disk.current = .ofDatabase db
  connection : t.connection = connection

namespace Comes

variable {s t : State} {db : Database} {connection : Connection} {events : List Event}

theorem silent {u : State} {after : Database} {at_ : Connection}
    (comes : Comes s commits db connection t events) (step : Step t .silent u)
    (current : u.disk.current = .ofDatabase after) (ends : u.connection = at_) :
    Comes s commits after at_ u (events ++ [.silent]) where
  run := run_append.mpr ⟨t, comes.run, .single step⟩
  changes := by
    rw [List.filterMap_append, comes.changes]
    exact List.append_nil _
  current := current
  connection := ends

theorem committed {u : State} {after : Database} {at_ : Connection} {commit : Commit}
    (comes : Comes s commits db connection t events) (step : Step t (.committed commit) u)
    (current : u.disk.current = .ofDatabase after) (ends : u.connection = at_) :
    Comes s (commits ++ [commit]) after at_ u (events ++ [.committed commit]) where
  run := run_append.mpr ⟨t, comes.run, .single step⟩
  changes := by
    rw [List.filterMap_append, comes.changes, List.map_append]
    rfl
  current := current
  connection := ends

theorem ended (comes : Comes s commits db connection t events) :
    ∃ t events, Comes s commits db .closed t events :=
  ⟨_, _, comes.silent (.ends t) comes.current rfl⟩

/-- One chunk of a prune. -/
theorem chunk {cutoff : Int} {reports' : PositionReports} {deleted : Nat}
    (comes : Comes s commits db (.deleting cutoff) t events)
    (chunk : DeletesChunk cutoff pruneChunkSize db.positionReports reports' deleted) :
    ∃ picked t events, Comes s (commits ++ [.deleted picked]) { db with positionReports := reports' }
      (if deleted = pruneChunkSize then .deleting cutoff else .idle) t events := by
  obtain ⟨picked, matching, limited, rfl, rfl⟩ := chunk
  have stored : t.disk.current.positionReports = some db.positionReports := by
    rw [comes.current]
    rfl
  have left : { t.disk.current with positionReports := some (db.positionReports.delete picked) } =
      Content.ofDatabase { db with positionReports := db.positionReports.delete picked } := by
    rw [comes.current]
    rfl
  have step := Step.deletes t cutoff db.positionReports picked comes.connection stored matching limited
  exact ⟨picked, _, _, comes.committed step left rfl⟩

theorem fullChunks {cutoff : Int} {reports reports' : PositionReports} (same : db.positionReports = reports)
    (deletes : WriterRun.DeletesFullChunks cutoff pruneChunkSize reports reports')
    (comes : Comes s commits db (.deleting cutoff) t events) :
    ∃ chunks t events, batches chunks = [] ∧
      Comes s (commits ++ chunks) { db with positionReports := reports' } (.deleting cutoff) t events := by
  induction deletes generalizing commits db t events with
  | nothing reports =>
    refine ⟨[], t, events, rfl, ?_⟩
    rw [List.append_nil, ← same]
    exact comes
  | chunk reports middle reports' deleted chunk full more ih =>
    obtain ⟨picked, u, earlier, comes⟩ := comes.chunk (same ▸ chunk)
    rw [if_pos full] at comes
    obtain ⟨chunks, v, later, none, comes⟩ := ih rfl comes
    rw [List.append_assoc, List.singleton_append] at comes
    exact ⟨.deleted picked :: chunks, v, later, none, comes⟩

theorem olderThan {cutoff : Int} {reports reports' : PositionReports} {total : Nat}
    (same : db.positionReports = reports)
    (deletes : DeletesOlderThan cutoff pruneChunkSize reports reports' total)
    (comes : Comes s commits db (.deleting cutoff) t events) :
    ∃ chunks t events, batches chunks = [] ∧
      Comes s (commits ++ chunks) { db with positionReports := reports' } .idle t events := by
  induction deletes generalizing commits db t events with
  | last reports reports' deleted chunk short =>
    obtain ⟨picked, u, earlier, comes⟩ := comes.chunk (same ▸ chunk)
    rw [if_neg short] at comes
    exact ⟨[.deleted picked], u, earlier, rfl, comes⟩
  | again reports middle reports' deleted total chunk full more ih =>
    obtain ⟨picked, u, earlier, comes⟩ := comes.chunk (same ▸ chunk)
    rw [if_pos full] at comes
    obtain ⟨chunks, v, later, none, comes⟩ := ih rfl comes
    rw [List.append_assoc, List.singleton_append] at comes
    exact ⟨.deleted picked :: chunks, v, later, none, comes⟩

end Comes

/-- Where the loop is on the disk. Its failures end the process, with what its transaction held. -/
inductive Follows (connection : WriterRun.Connection) : WriterRun.Control → Connection → Prop where
  | loop (idle : connection.transaction = none) : Follows connection .loop .idle
  | popping (idle : connection.transaction = none) : Follows connection .popping .idle
  | beginning (receivedAt batch) (idle : connection.transaction = none) :
      Follows connection (.beginning receivedAt batch) .idle
  | writing (receivedAt written rest working) (inside : connection.transaction = some working) :
      Follows connection (.writing receivedAt written rest)
        (.writing receivedAt written (.ofDatabase working))
  | pruning (idle : connection.transaction = none) : Follows connection .pruning .idle
  | returned (idle : connection.transaction = none) : Follows connection .returned .idle
  | unwinding (failed) : Follows connection (.unwinding failed) .closed
  | threw (failed) : Follows connection (.threw failed) .closed

/-- Every run of the loop is one on the disk, and commits the same batches. -/
theorem run_onDisk {db : Database} {s : State} (idle : s.connection = .idle)
    (current : s.disk.current = .ofDatabase db) {trace : List WriterRun.Event} {w : WriterRun.State}
    (run : Run WriterRun.Step (WriterRun.initial db) trace w) :
    ∃ commits connection t events, batches commits = WriterRun.committed trace ∧
      Comes s commits w.connection.stored connection t events ∧
      Follows w.connection w.control connection := by
  refine Run.invariant (fun trace w => ∃ commits connection t events,
    batches commits = WriterRun.committed trace ∧
    Comes s commits w.connection.stored connection t events ∧
    Follows w.connection w.control connection) ?_ ?_ run
  · exact ⟨[], _, s, [], rfl, ⟨rfl, rfl, current, idle⟩, .loop rfl⟩
  rintro trace w event w' ⟨commits, connection, t, events, same, comes, follows⟩ step
  have quiet (hidden : event.committed? = none) : batches commits = WriterRun.committed (trace ++ [event]) := by
    rw [WriterRun.committed_append, hidden, same, Option.toList_none, List.append_nil]
  cases step with
  | stops at_loop =>
    rw [at_loop] at follows
    cases follows with
    | loop idle => exact ⟨commits, _, t, events, quiet rfl, comes, .returned idle⟩
  | continues at_loop =>
    rw [at_loop] at follows
    cases follows with
    | loop idle => exact ⟨commits, _, t, events, quiet rfl, comes, .popping idle⟩
  | drains at_pop =>
    rw [at_pop] at follows
    cases follows with
    | popping idle => exact ⟨commits, _, t, events, quiet rfl, comes, .returned idle⟩
  | takes now batch at_pop some_left =>
    rw [at_pop] at follows
    cases follows with
    | popping idle => exact ⟨commits, _, t, events, quiet rfl, comes, .beginning _ _ idle⟩
  | begins receivedAt batch at_begin none_open =>
    rw [at_begin] at follows
    cases follows with
    | beginning _ _ idle =>
      refine ⟨commits, _, _, _, quiet rfl, comes.silent (.begins t receivedAt comes.connection)
        comes.current rfl, ?_⟩
      rw [comes.current]
      exact .writing receivedAt [] batch _ rfl
  | writes receivedAt message written rest working at_write open_ =>
    rw [at_write] at follows
    cases follows with
    | writing _ _ _ found inside =>
      obtain rfl := Option.some.inj (open_.symm.trans inside)
      exact ⟨commits, _, _, _, quiet rfl,
        comes.silent (.writes t receivedAt written message _ _ comes.connection rfl) comes.current rfl,
        .writing receivedAt _ rest _ rfl⟩
  | commits receivedAt written working at_commit open_ =>
    rw [at_commit] at follows
    cases follows with
    | writing _ _ _ found inside =>
      obtain rfl := Option.some.inj (open_.symm.trans inside)
      refine ⟨commits ++ [.batch receivedAt written], _, _, _, ?_,
        comes.committed (.commits t receivedAt written _ comes.connection) rfl rfl, .pruning rfl⟩
      rw [batches, List.filterMap_append, ← batches, same, WriterRun.committed_append]
      rfl
  | keeps steady at_check recent =>
    rw [at_check] at follows
    cases follows with
    | pruning idle =>
      refine ⟨commits, _, t, events, quiet rfl, ?_, .loop (WriterRun.State.idle_destroyTransaction idle)⟩
      rw [WriterRun.State.stored_destroyTransaction]
      exact comes
  | prunes steady now reports total at_check due none_open deleted =>
    rw [at_check] at follows
    cases follows with
    | pruning idle =>
      have deleting := comes.silent (.prunes t (WriterRun.cutoff now) comes.connection) comes.current rfl
      obtain ⟨chunks, u, more, none, comes⟩ := deleting.olderThan rfl deleted
      refine ⟨commits ++ chunks, _, u, more, ?_, comes, .loop rfl⟩
      rw [batches, List.filterMap_append, ← batches, ← batches, none, List.append_nil]
      exact quiet rfl
  | pruneFails steady now reports at_check due none_open deleted =>
    rw [at_check] at follows
    cases follows with
    | pruning idle =>
      have deleting := comes.silent (.prunes t (WriterRun.cutoff now) comes.connection) comes.current rfl
      obtain ⟨chunks, u, more, none, comes⟩ := deleting.fullChunks rfl deleted
      obtain ⟨v, more, comes⟩ := comes.ended
      refine ⟨commits ++ chunks, _, v, more, ?_, comes, .unwinding _⟩
      rw [batches, List.filterMap_append, ← batches, ← batches, none, List.append_nil]
      exact quiet rfl
  | beginFails receivedAt batch at_begin =>
    obtain ⟨u, more, comes⟩ := comes.ended
    exact ⟨commits, _, u, more, quiet rfl, comes, .threw _⟩
  -- whatever is left of its transaction goes with the process
  | statementFails receivedAt message written rest after at_write left =>
    obtain ⟨u, more, comes⟩ := comes.ended
    refine ⟨commits, _, u, more, quiet rfl, ?_, .unwinding _⟩
    rw [left.stored]
    exact comes
  | commitFails receivedAt written after at_commit left =>
    obtain ⟨u, more, comes⟩ := comes.ended
    refine ⟨commits, _, u, more, quiet rfl, ?_, .unwinding _⟩
    rw [left.stored]
    exact comes
  | unwinds failed at_throw =>
    rw [at_throw] at follows
    cases follows with
    | unwinding =>
      refine ⟨commits, _, t, events, quiet rfl, ?_, .threw _⟩
      rw [WriterRun.State.stored_destroyTransaction]
      exact comes

/-! ### What the loop leaves behind -/

theorem reports_batches (commits : List Commit) :
    commits.flatMap Commit.reports = (batches commits).flatMap WriterRun.reportsOf := by
  induction commits with
  | nil => rfl
  | cons commit commits ih =>
    rw [List.flatMap_cons, ih]
    cases commit with
    | batch | created | installed | deleted => rfl

private theorem ofDatabase_injective {a b : Database}
    (same : Content.ofDatabase a = Content.ofDatabase b) : a = b := by
  cases a
  cases b
  cases same
  rfl

section Loop

variable (opening : openDatabase file = some opened)
  (agrees : Agrees (file.positionReports.getD .empty).rows opened)
  (fresh : file.latestPositions = none)

include opening agrees fresh in
/-- The database the loop has come to is made of the commits that are left. -/
theorem loop_lands {trace : List Event} {s : State} (run : Run Step (found file) trace s)
    {db : Database} (idle : s.connection = .idle) (current : s.disk.current = .ofDatabase db)
    {work : List WriterRun.Event} {w : WriterRun.State}
    (loop : Run WriterRun.Step (WriterRun.initial db) work w) :
    ∃ events t, Run Step s events t ∧
      batches (surviving (trace ++ events)) = batches (surviving trace) ++ WriterRun.committed work ∧
      replay opened (surviving (trace ++ events)) = w.connection.stored := by
  obtain ⟨commits, connection, t, events, same, comes, -⟩ := run_onDisk idle current loop
  have kept := run_kept opening agrees fresh (run_append.mpr ⟨s, run, comes.run⟩)
  refine ⟨events, t, comes.run, ?_, ?_⟩
  · rw [surviving_append_commits trace comes.changes, batches, List.filterMap_append, ← same]
    rfl
  · have version := kept.versions.current
    have landed := comes.current
    generalize t.disk.current = content at version landed
    cases version with
    | untouched _ reports static latest =>
      rw [landed] at latest
      cases latest
    | installed => exact ofDatabase_injective landed

include opening agrees fresh in
/-- Opened for the first time, a file agrees with the reports its loop commits, also where a prune
breaks off. -/
theorem loop_agrees {work : List WriterRun.Event} {w : WriterRun.State}
    (loop : Run WriterRun.Step (WriterRun.initial opened) work w) :
    Agrees ((file.positionReports.getD .empty).rows ++
      (WriterRun.committed work).flatMap WriterRun.reportsOf) w.connection.stored := by
  have unopened : Kept file opened (surviving []) (found file) := run_kept opening agrees fresh rfl
  obtain ⟨more, s, start, idle, current, changes⟩ := unopened.exists_start opening agrees fresh
  obtain ⟨events, t, -, same, landed⟩ := loop_lands opening agrees fresh start idle current loop
  have replayed := replay_agrees agrees (surviving (more ++ events))
  have begun : batches (surviving more) = [] := by
    rw [← List.nil_append more, surviving_append_commits [] changes]
    rfl
  rwa [history, reports_batches, same, begun, List.nil_append, landed] at replayed

end Loop

/-- What the loop has committed is there after it is killed. Wherever the loop of a writer breaks off,
by an exception or from outside, in a batch or between two chunks of a prune, the next start finds
the tables as its last commit left them: all batches committed before and by the loop, none of the
one it was in, and in `latest_positions` the newest position of each ship among their reports. -/
theorem kill_recovery (file : DatabaseFile) (fresh : file.latestPositions = none)
    (stamped : ∀ row ∈ (file.positionReports.getD .empty).rows, row.receivedAt ≠ none)
    (trace : List Event) (s : State) (run : Run Step (found file) trace s) (db : Database)
    (idle : s.connection = .idle) (current : s.disk.current = .ofDatabase db)
    (work : List WriterRun.Event) (w : WriterRun.State)
    (loop : Run WriterRun.Step (WriterRun.initial db) work w) :
    ∃ events t, Run Step s events t ∧ t.connection = .idle ∧
      t.disk.current = .ofDatabase w.connection.stored ∧
      batches (surviving (trace ++ events)) = batches (surviving trace) ++ WriterRun.committed work ∧
      ∀ mmsi, w.connection.stored.latestPositions.row? mmsi =
        newestPosition mmsi ((file.positionReports.getD .empty).rows ++
          (batches (surviving trace) ++ WriterRun.committed work).flatMap WriterRun.reportsOf) := by
  obtain ⟨opened, opening, agrees⟩ := openDatabase_first fresh stamped
  obtain ⟨events, t, further, same, landed⟩ :=
    loop_lands opening agrees fresh run idle current loop
  have ran := run_append.mpr ⟨s, run, further⟩
  obtain ⟨more, u, start, ready, starts, changes⟩ :=
    (run_kept opening agrees fresh ran).exists_start opening agrees fresh
  have replayed := (replay_agrees agrees (surviving (trace ++ events))).latest
  rw [history, reports_batches, same, landed] at replayed
  refine ⟨events ++ more, u, run_append.mpr ⟨t, further, start⟩, ready, ?_, ?_, replayed⟩
  · rw [starts, landed]
  · rw [← List.append_assoc, surviving_append_commits _ changes, batches, List.filterMap_append,
      ← batches, same]
    exact List.append_nil _

/-- One batch on a new file. -/
theorem kill_recovery_batch :
    ∃ trace s w, Run Step (found {}) trace s ∧ WriterRun.committed w = [WriterRun.firstBatch] ∧
      ∃ events t stored, Run Step s events t ∧ t.connection = .idle ∧
        t.disk.current = .ofDatabase stored ∧
        batches (surviving (trace ++ events)) = [WriterRun.firstBatch] := by
  have none_there : ∀ row ∈ (({} : DatabaseFile).positionReports.getD .empty).rows,
      row.receivedAt ≠ none := fun row member => absurd member List.not_mem_nil
  obtain ⟨opened, opening, agrees⟩ := openDatabase_first rfl none_there
  have unopened : Kept {} opened (surviving []) (found {}) := run_kept opening agrees rfl rfl
  obtain ⟨trace, s, start, idle, current, changes⟩ := unopened.exists_start opening agrees rfl
  obtain ⟨work, loop, one⟩ := WriterRun.exists_run (replay opened []) [WriterRun.firstBatch]
    (by simp [WriterRun.firstBatch])
  obtain ⟨events, t, further, ready, left, all, -⟩ :=
    kill_recovery {} rfl none_there trace s start _ idle current work _ loop
  have begun : surviving trace = starting := surviving_append_commits [] changes
  rw [begun, one] at all
  exact ⟨trace, s, work, start, one, events, t, _, further, ready, left, all⟩

end Disk

end Ais
